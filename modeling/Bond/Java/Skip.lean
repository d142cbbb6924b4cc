import Bond.Lib.Hereditary
import Bond.Java.TaggedProtocol

set_option autoImplicit false

/-! # Skipping in Java

`skip` of `CompactBinaryReader` and `FastBinaryReader` (java/core/src/main/java/org/bondlib). The
two readers skip containers by the same code, and differ in how they skip a value of a basic type
and a struct. The items of a container are passed over at once where all of them have the same number of
bytes, which for a map is decided by the type of its values alone. -/

namespace Bond.Java

open Bond.Cpp (BondDataType BasicType ListKind)
open Bond.Lib Bond.Managed
open Decoder Hereditary
open BinaryStreamReader StringHelper

/-- How often `while (--count >= 0)` turns; the least `int` wraps around. -/
def countdown (count : Int32) : Nat :=
  if count = Int32.minValue then 2 ^ 31 else count.toInt.toNat

theorem countdown_ofNat {n : Nat} (h : n < 2 ^ 31) : countdown (Int32.ofNat n) = n := by
  have hvalue : (Int32.ofNat n).toInt = n := Int32.toInt_ofNat_of_lt h
  have hsign : Int32.ofNat n ≠ Int32.minValue := by
    intro hmin
    rw [hmin] at hvalue
    have hneg : Int32.minValue.toInt = -2 ^ 31 := rfl
    omega
  unfold countdown
  rw [if_neg hsign, hvalue, Int.toNat_natCast]

/-- What the `skip`s of the readers are made of. -/
structure SkipParts where
  skipBasic (type : BasicType) : Reader Unit
  getFixedTypeWidth (type : BondDataType) : Nat
  readListBegin : Reader (BondDataType × Int32)
  readMapBegin : Reader (BondDataType × BondDataType × Int32)
  /-- `skipStruct`, given `skip` and a bound on the number of fields and levels -/
  skipStruct (skip : BondDataType → Reader Unit) (bound : Nat) : Reader Unit

namespace SkipParts

variable (parts : SkipParts)

/-- `skipListContainer`, given `skip` -/
def skipListContainer (skip : BondDataType → Reader Unit) : Reader Unit := do
  let (elementType, count) ← parts.readListBegin
  let elementTypeFixedWidth := parts.getFixedTypeWidth elementType
  if elementTypeFixedWidth > 0 then
    skipBytes (count.toInt * elementTypeFixedWidth)
  else
    let _ ← repeatN (countdown count) (skip elementType)
    return ()

/-- `skipMapContainer`, given `skip`: the width of the keys is taken from the type of the values. -/
def skipMapContainer (skip : BondDataType → Reader Unit) : Reader Unit := do
  let (keyType, elementType, count) ← parts.readMapBegin
  let keyTypeFixedWidth := parts.getFixedTypeWidth elementType
  let elementTypeFixedWidth := parts.getFixedTypeWidth elementType
  if keyTypeFixedWidth > 0 ∧ elementTypeFixedWidth > 0 then
    skipBytes (count.toInt * ((keyTypeFixedWidth + elementTypeFixedWidth : Nat) : Int))
  else
    let _ ← repeatN (countdown count) do
      skip keyType
      skip elementType
    return ()

/-- `skip`. Every nested call comes after at least a byte, so `fuel` bounds the depth if it exceeds
    the number of bytes left. -/
def skipWithin : Nat → BondDataType → Reader Unit
  | 0, _ => throwException .endOfFile
  | fuel + 1, type =>
      match type with
      | .basic b => parts.skipBasic b
      | .list | .set => parts.skipListContainer (skipWithin fuel)
      | .map => parts.skipMapContainer (skipWithin fuel)
      | .struct => parts.skipStruct (skipWithin fuel) (fuel + 1)
      | _ => throwException .invalidBondData

/-- `skip` -/
def skip (type : BondDataType) : Reader Unit := do
  let left ← available
  parts.skipWithin (left + 1) type

end SkipParts

/-! ## Skipping a struct field by field -/

/-- The loop of `skipStruct`: `readHeader` reads the header of a field. Every turn takes a byte at
    least. -/
def skipFields (readHeader : Reader BondDataType) (skip : BondDataType → Reader Unit) :
    Nat → Reader Unit
  | 0 => throwException .endOfFile
  | bound + 1 => do
      let fieldType ← readHeader
      if fieldType = .stopBase then
        skipFields readHeader skip bound
      else if fieldType = .stop then
        return ()
      else do
        skip fieldType
        skipFields readHeader skip bound

/-- What the headers of fields have to be read as. -/
structure DecodesHeaders (readHeader : Reader BondDataType)
    (F : TwoPass.Format WriterCall Int32) : Prop where
  fieldBegin (type : BondDataType) (id : UInt16) (h : type.isValue = true) :
    Decodes readHeader (F.bytes (.writeFieldBegin type id)) (pure type)
  structEnd : Decodes readHeader (F.bytes .writeStructEnd) (pure .stop)
  baseEnd : Decodes readHeader (F.bytes .writeBaseEnd) (pure .stopBase)

section

variable {reader : TaggedProtocolReader} {F : TwoPass.Format WriterCall Int32}
  (G : Grammar reader F) {readHeader : Reader BondDataType} (H : DecodesHeaders readHeader F)
  {skip : BondDataType → Reader Unit}

include G H

theorem decodes_skipFields_level {fs : Fields} {tail : List UInt8}
    (hfields : ∀ f ∈ fs, Decodes (skip f.2.typeId) (f.2.encode F) (pure ()))
    (htail : ∀ bound, tail.length < bound →
      Decodes (skipFields readHeader skip bound) tail (pure ()))
    (bound : Nat) (hbound : (encodeFields F fs ++ tail).length < bound) :
    Decodes (skipFields readHeader skip bound) (encodeFields F fs ++ tail) (pure ()) := by
  induction fs generalizing bound with
  | nil => exact htail bound hbound
  | cons f fs ih =>
      obtain ⟨bound, rfl⟩ : ∃ bound', bound = bound' + 1 := ⟨bound - 1, by omega⟩
      have hpos := G.fieldBegin_pos f.2.typeId f.1
      have hvalue := f.2.typeId_isValue
      have hstop : f.2.typeId ≠ .stop := by
        intro hstop
        rw [hstop] at hvalue
        cases hvalue
      have hbase : f.2.typeId ≠ .stopBase := by
        intro hbase
        rw [hbase] at hvalue
        cases hvalue
      simp only [encodeFields, List.length_append] at hbound
      have hrest := ih (fun f' hf' => hfields f' (List.mem_cons_of_mem f hf')) bound (by
        rw [List.length_append]
        omega)
      rw [skipFields, encodeFields, List.append_assoc, List.append_assoc]
      refine (H.fieldBegin f.2.typeId f.1 hvalue).bind_pure ?_
      rw [if_neg hbase, if_neg hstop]
      exact (hfields f List.mem_cons_self).bind_pure hrest

theorem decodes_skipFields_body (s : StructValue)
    (hfields : ∀ fs ∈ s.levels, ∀ f ∈ fs, Decodes (skip f.2.typeId) (f.2.encode F) (pure ()))
    {tail : List UInt8}
    (htail : ∀ bound, tail.length < bound →
      Decodes (skipFields readHeader skip bound) tail (pure ()))
    (bound : Nat) (hbound : (s.encodeBody F ++ tail).length < bound) :
    Decodes (skipFields readHeader skip bound) (s.encodeBody F ++ tail) (pure ()) := by
  induction s generalizing tail bound with
  | root fields =>
      exact decodes_skipFields_level G H (hfields fields (by simp [StructValue.levels])) htail
        bound hbound
  | derived base fields ih =>
      have hbase : ∀ bound,
          (F.bytes .writeBaseEnd ++ (encodeFields F fields ++ tail)).length < bound →
          Decodes (skipFields readHeader skip bound)
            (F.bytes .writeBaseEnd ++ (encodeFields F fields ++ tail)) (pure ()) := by
        intro bound hbound
        obtain ⟨bound, rfl⟩ : ∃ bound', bound = bound' + 1 := ⟨bound - 1, by omega⟩
        have hpos := G.baseEnd_pos
        rw [skipFields]
        refine H.baseEnd.bind_pure ?_
        rw [if_pos rfl]
        refine decodes_skipFields_level G H (hfields fields (by simp [StructValue.levels])) htail
          bound ?_
        rw [List.length_append] at hbound
        omega
      have hall := ih (fun fs hfs => hfields fs (by simp [StructValue.levels, hfs])) hbase bound
        (by simpa [StructValue.encodeBody] using hbound)
      simpa [StructValue.encodeBody] using hall

theorem decodes_skipFields (s : StructValue)
    (hfields : ∀ fs ∈ s.levels, ∀ f ∈ fs, Decodes (skip f.2.typeId) (f.2.encode F) (pure ()))
    (bound : Nat) (hbound : (s.encodeBody F ++ F.bytes .writeStructEnd).length < bound) :
    Decodes (skipFields readHeader skip bound) (s.encodeBody F ++ F.bytes .writeStructEnd)
      (pure ()) := by
  refine decodes_skipFields_body G H s hfields (fun bound hbound => ?_) bound hbound
  obtain ⟨bound, rfl⟩ : ∃ bound', bound = bound' + 1 := ⟨bound - 1, by omega⟩
  rw [skipFields, ← List.append_nil (F.bytes .writeStructEnd)]
  refine H.structEnd.bind_pure ?_
  exact Decodes.pure ()

end

/-! ## When skipping is exact -/

section

variable (parts : SkipParts) (F : TwoPass.Format WriterCall Int32) (byField : Bool)
  (structFits : StructValue → Prop)

/-- The values that are skipped one by one when a value is, where `byField` tells whether the fields
    of a struct are. -/
def skipped : Value → List Value
  | .list _ element items => if parts.getFixedTypeWidth element > 0 then [] else items
  | .map _ element items =>
      if parts.getFixedTypeWidth element > 0 then [] else items.flatMap fun kv => [kv.1, kv.2]
  | .struct s => if byField then s.levels.flatten.map Prod.snd else []
  | .bonded s => if byField then s.levels.flatten.map Prod.snd else []
  | _ => []

/-- The condition under which a value is skipped exactly, if the values in it are: the keys of a map
    whose values have a fixed width take that width on average, and a struct fits. -/
def SkipFits : Value → Prop
  | .map _ element items =>
      0 < parts.getFixedTypeWidth element →
        (items.map fun kv => (kv.1.encode F).length).sum
          = items.length * parts.getFixedTypeWidth element
  | .struct s => structFits s
  | .bonded s => structFits s
  | _ => True

end

theorem mem_skipped_fields {s : StructValue} {v : Value}
    (h : v ∈ s.levels.flatten.map Prod.snd) : ∃ fs ∈ s.levels, ∃ f ∈ fs, f.2 = v := by
  obtain ⟨f, hf, rfl⟩ := List.mem_map.1 h
  obtain ⟨fs, hfs, hf⟩ := List.mem_flatten.1 hf
  exact ⟨fs, hfs, f, hf, rfl⟩

/-- All that is in a well-formed value is well formed. -/
theorem everywhere_wellFormed (parts : SkipParts) (byField : Bool) :
    ∀ v : Value, v.wellFormed encodeString = true →
      Everywhere (skipped parts byField) (fun v => v.wellFormed encodeString = true) v := by
  have hfields {s : StructValue} {c : Value}
      (ih : ∀ fs ∈ s.levels, ∀ f ∈ fs, f.2.wellFormed encodeString = true ∧
        (f.2.wellFormed encodeString = true →
          Everywhere (skipped parts byField) (fun v => v.wellFormed encodeString = true) f.2))
      (hc : c ∈ if byField then s.levels.flatten.map Prod.snd else []) :
      Everywhere (skipped parts byField) (fun v => v.wellFormed encodeString = true) c := by
    split at hc
    · obtain ⟨fs, hfs, f, hf, rfl⟩ := mem_skipped_fields hc
      exact (ih fs hfs f hf).2 (ih fs hfs f hf).1
    · cases hc
  intro v hv
  refine wellFormed_induct (P := fun v => v.wellFormed encodeString = true →
    Everywhere (skipped parts byField) (fun v => v.wellFormed encodeString = true) v)
    ?_ ?_ ?_ ?_ ?_ ?_ v hv hv
  · intro v _ hv
    exact .intro hv fun c hc => by cases hc
  · intro kind element items _ _ ih hv
    refine .intro hv fun c hc => ?_
    rw [skipped] at hc
    split at hc
    · cases hc
    · exact (ih c hc).2.2 (ih c hc).2.1
  · intro element data _ _ hv
    exact .intro hv fun c hc => by cases hc
  · intro key element items _ _ _ ih hv
    refine .intro hv fun c hc => ?_
    rw [skipped] at hc
    split at hc
    · cases hc
    · obtain ⟨kv, hkv, hc⟩ := List.mem_flatMap.1 hc
      rcases List.mem_cons.1 hc with rfl | hc
      · exact (ih kv hkv).1.2.2 (ih kv hkv).1.2.1
      · obtain rfl := List.mem_singleton.1 hc
        exact (ih kv hkv).2.2.2 (ih kv hkv).2.2.1
  · intro s _ ih hv
    exact .intro hv fun c hc => hfields ih hc
  · intro s _ ih hv
    exact .intro hv fun c hc => hfields ih hc

/-- What the parts of a `skip` have to do on what a writer writes. -/
structure SkipRules (parts : SkipParts) (reader : TaggedProtocolReader)
    (F : TwoPass.Format WriterCall Int32) (byField : Bool) (structFits : StructValue → Prop) :
    Prop where
  grammar : Grammar reader F
  readListBegin : parts.readListBegin = reader.readListBegin
  readMapBegin : parts.readMapBegin = reader.readMapBegin
  skipBasic (v : BasicValue) (h : v.wellFormed encodeString = true) :
    Decodes (parts.skipBasic v.type) (F.bytes (.write v)) (pure ())
  width_isBasic (type : BondDataType) (h : 0 < parts.getFixedTypeWidth type) : type.isBasic = true
  width (v : BasicValue) (h : 0 < parts.getFixedTypeWidth (.basic v.type)) :
    (F.bytes (.write v)).length = parts.getFixedTypeWidth (.basic v.type)
  skipStruct (s : StructValue) (h : s.wellFormed encodeString = true) (hfits : structFits s)
    (fuel : Nat)
    (hfields : byField = true → ∀ fs ∈ s.levels, ∀ f ∈ fs,
      Decodes (parts.skipWithin fuel f.2.typeId) (f.2.encode F) (pure ()))
    (hfuel : ((Value.struct s).encode F).length < fuel + 1) :
    Decodes (parts.skipStruct (parts.skipWithin fuel) (fuel + 1)) ((Value.struct s).encode F)
      (pure ())
  structFits (s : StructValue) (h : s.wellFormed encodeString = true)
    (hskip : Decodes (parts.skip .struct) ((Value.struct s).encode F) (pure ())) : structFits s

/-- What is done behind a header, by a program that is given the number of bytes left. -/
theorem decodes_behind_header {β : Type} {f : Nat → Reader Unit} {header : Reader β}
    {op : Reader Unit} {enc enc' : List UInt8} {b : β}
    (h : Decodes (available >>= f) (enc ++ enc') (pure ()))
    (hheader : Decodes header enc (pure b)) (hf : ∀ k, ∃ g, f k = header >>= g ∧ g b = op) :
    Decodes op enc' (pure ()) := by
  intro s rest hs
  obtain rfl : s = enc' ++ rest := hs
  obtain ⟨g, hg, hop⟩ := hf (enc ++ enc' ++ rest).length
  have hrun := h.list_run rest
  have hstart : (available >>= f).run (enc ++ enc' ++ rest)
      = (f (enc ++ enc' ++ rest).length).run (enc ++ enc' ++ rest) := rfl
  rw [hstart, hg, StateT.run_bind, List.append_assoc, hheader.list_run, pure_bind, hop] at hrun
  rw [hrun]
  show _ = Except.ok ((), (enc' ++ rest).drop enc'.length)
  rw [List.drop_left]
  rfl

namespace SkipRules

variable {parts : SkipParts} {reader : TaggedProtocolReader} {F : TwoPass.Format WriterCall Int32}
  {byField : Bool} {structFits : StructValue → Prop}
  (R : SkipRules parts reader F byField structFits)

include R

/-- The values of a type of fixed width have that width. -/
theorem value_length {v : Value} (h : 0 < parts.getFixedTypeWidth v.typeId) :
    (v.encode F).length = parts.getFixedTypeWidth v.typeId := by
  have hbasic := R.width_isBasic v.typeId h
  obtain ⟨b, hb⟩ : ∃ b, v.typeId = .basic b := by
    cases htype : v.typeId with
    | basic b => exact ⟨b, rfl⟩
    | _ => rw [htype] at hbasic; cases hbasic
  obtain ⟨x, rfl, -⟩ := Value.eq_basic_of_typeId hb
  exact R.width x h

theorem items_length {element : BondDataType} {items : List Value}
    (hwidth : 0 < parts.getFixedTypeWidth element) (hitems : ∀ v ∈ items, v.typeId = element) :
    (encodeItems F items).length = items.length * parts.getFixedTypeWidth element := by
  induction items with
  | nil => simp [encodeItems]
  | cons v vs ih =>
      have htype := hitems v List.mem_cons_self
      have hv := R.value_length (htype ▸ hwidth)
      rw [encodeItems, List.length_append, hv, ih fun w hw => hitems w (List.mem_cons_of_mem v hw),
        htype, List.length_cons, Nat.add_mul, Nat.one_mul, Nat.add_comm]

theorem pairs_length {element : BondDataType} {items : List (Value × Value)}
    (hwidth : 0 < parts.getFixedTypeWidth element) (hitems : ∀ kv ∈ items, kv.2.typeId = element) :
    (encodePairs F items).length = (items.map fun kv => (kv.1.encode F).length).sum
      + items.length * parts.getFixedTypeWidth element := by
  induction items with
  | nil => simp [encodePairs]
  | cons kv kvs ih =>
      have htype := hitems kv List.mem_cons_self
      have hv := R.value_length (htype ▸ hwidth)
      rw [encodePairs, List.length_append, List.length_append, hv,
        ih fun w hw => hitems w (List.mem_cons_of_mem kv hw), htype, List.map_cons, List.sum_cons,
        List.length_cons, Nat.add_mul, Nat.one_mul]
      omega

/-- The shortcut for maps is right if and only if the keys take what the values take. -/
theorem decodes_skipPairs_iff {element : BondDataType} {items : List (Value × Value)}
    (hlen : items.length < 2 ^ 31) (hwidth : 0 < parts.getFixedTypeWidth element)
    (hitems : ∀ kv ∈ items, kv.2.typeId = element) :
    Decodes (skipBytes ((Int32.ofNat items.length).toInt * ((parts.getFixedTypeWidth element
        + parts.getFixedTypeWidth element : Nat) : Int))) (encodePairs F items) (pure ()) ↔
      (items.map fun kv => (kv.1.encode F).length).sum
        = items.length * parts.getFixedTypeWidth element := by
  rw [decodes_skipBytes_iff, R.pairs_length hwidth hitems, Int32.toInt_ofNat_of_lt hlen,
    ← Int.natCast_mul, Int.toNat_natCast, Nat.mul_add]
  omega

theorem decodes_skipListContainer (skip : BondDataType → Reader Unit) {element : BondDataType}
    {items : List Value} (hlen : items.length < 2 ^ 31)
    (helement : element.isValue = true) (hitems : ∀ v ∈ items, v.typeId = element)
    (hskip : ¬ 0 < parts.getFixedTypeWidth element → ∀ v ∈ items,
      Decodes (skip v.typeId) (v.encode F) (pure ())) :
    Decodes (parts.skipListContainer skip)
      (F.bytes (.writeContainerBegin (Int32.ofNat items.length) element) ++ encodeItems F items)
      (pure ()) := by
  unfold SkipParts.skipListContainer
  rw [R.readListBegin]
  refine (R.grammar.listBegin items.length element hlen helement).bind_pure ?_
  dsimp only
  split
  · next hwidth =>
      have hall := R.items_length hwidth hitems
      rw [decodes_skipBytes_iff, hall, Int32.toInt_ofNat_of_lt hlen, ← Int.natCast_mul,
        Int.toNat_natCast]
  · next hwidth =>
      rw [countdown_ofNat hlen, encodeItems_eq]
      refine Decodes.repeatN_discard items fun v hv => ?_
      have hone := hskip hwidth v hv
      rwa [hitems v hv] at hone

theorem decodes_skipMapContainer {key element : BondDataType} {items : List (Value × Value)}
    {skip : BondDataType → Reader Unit} (hlen : items.length < 2 ^ 31)
    (hkey : key.isBasic = true) (helement : element.isValue = true)
    (hitems : ∀ kv ∈ items, kv.1.typeId = key ∧ kv.2.typeId = element)
    (hfits : SkipFits parts F structFits (.map key element items))
    (hskip : ¬ 0 < parts.getFixedTypeWidth element → ∀ kv ∈ items,
      Decodes (skip kv.1.typeId) (kv.1.encode F) (pure ()) ∧
        Decodes (skip kv.2.typeId) (kv.2.encode F) (pure ())) :
    Decodes (parts.skipMapContainer skip)
      (F.bytes (.writeMapBegin (Int32.ofNat items.length) key element) ++ encodePairs F items)
      (pure ()) := by
  unfold SkipParts.skipMapContainer
  rw [R.readMapBegin]
  refine (R.grammar.mapBegin items.length key element hlen
    (BondDataType.isValue_of_isBasic hkey) helement).bind_pure ?_
  dsimp only
  split
  · next hwidth =>
      exact (R.decodes_skipPairs_iff hlen hwidth.2 fun kv hkv => (hitems kv hkv).2).2
        (hfits hwidth.2)
  · next hwidth =>
      rw [countdown_ofNat hlen, encodePairs_eq]
      refine Decodes.repeatN_discard items fun kv hkv => ?_
      have hpair := hskip (fun hpos => hwidth ⟨hpos, hpos⟩) kv hkv
      rw [(hitems kv hkv).1, (hitems kv hkv).2] at hpair
      exact hpair.1.bind_pure hpair.2

/-- A value that fits, with all that is skipped in it, is skipped exactly. -/
theorem decodes_skipWithin : ∀ v : Value, v.wellFormed encodeString = true →
    Everywhere (skipped parts byField) (SkipFits parts F structFits) v → ∀ fuel,
      (v.encode F).length < fuel →
        Decodes (parts.skipWithin fuel v.typeId) (v.encode F) (pure ()) := by
  have hstruct (s : StructValue) (hs : s.wellFormed encodeString = true) (hfits : structFits s)
      (ih : byField = true → ∀ fs ∈ s.levels, ∀ f ∈ fs, ∀ fuel, (f.2.encode F).length < fuel →
        Decodes (parts.skipWithin fuel f.2.typeId) (f.2.encode F) (pure ()))
      (fuel : Nat) (hfuel : ((Value.struct s).encode F).length < fuel) :
      Decodes (parts.skipWithin fuel .struct) ((Value.struct s).encode F) (pure ()) := by
    obtain ⟨fuel, rfl⟩ : ∃ fuel', fuel = fuel' + 1 := ⟨fuel - 1, by omega⟩
    refine R.skipStruct s hs hfits fuel (fun hby fs hfs f hf => ?_) hfuel
    have hlt := R.grammar.field_lt hfs hf
    exact ih hby fs hfs f hf fuel (by omega)
  have hfield {s : StructValue} {fs : Fields} {f : UInt16 × Value} (hfs : fs ∈ s.levels)
      (hf : f ∈ fs) : f.2 ∈ s.levels.flatten.map Prod.snd :=
    List.mem_map_of_mem (List.mem_flatten_of_mem hfs hf)
  refine wellFormed_induct ?_ ?_ ?_ ?_ ?_ ?_
  · intro v hv _ fuel hfuel
    obtain ⟨fuel, rfl⟩ : ∃ fuel', fuel = fuel' + 1 := ⟨fuel - 1, by omega⟩
    exact R.skipBasic v hv
  · intro kind element items hlen helement ih hall fuel hfuel
    obtain ⟨fuel, rfl⟩ : ∃ fuel', fuel = fuel' + 1 := ⟨fuel - 1, by omega⟩
    have hlist := R.decodes_skipListContainer (parts.skipWithin fuel) hlen helement
      (fun v hv => (ih v hv).1) fun hwidth v hv => by
        have hlt := R.grammar.item_lt kind element hv
        have hin := hall.children_of v (by rwa [skipped, if_neg hwidth])
        exact (ih v hv).2.2 hin fuel (by omega)
    cases kind <;> exact hlist
  · intro element data hlen helement _ fuel hfuel
    have hvalue : element.isValue = true := by
      rcases helement with rfl | rfl <;> rfl
    have htype (b : UInt8) : BondDataType.basic (byteValue element b).type = element := by
      rcases helement with rfl | rfl <;> rfl
    have hbyte (b : UInt8) : (byteValue element b).wellFormed encodeString = true := by
      rcases helement with rfl | rfl <;> rfl
    obtain ⟨fuel, rfl⟩ : ∃ fuel', fuel = fuel' + 1 := ⟨fuel - 1, by omega⟩
    rw [R.grammar.encode_blob data helement] at hfuel ⊢
    refine R.decodes_skipListContainer _ (by simpa using hlen) hvalue (fun v hv => ?_)
      fun _ v hv => ?_
    · obtain ⟨b, -, rfl⟩ := List.mem_map.1 hv
      exact htype b
    · have hlt := R.grammar.item_lt .list element hv
      obtain ⟨b, -, rfl⟩ := List.mem_map.1 hv
      obtain ⟨fuel, rfl⟩ : ∃ fuel', fuel = fuel' + 1 := ⟨fuel - 1, by omega⟩
      exact R.skipBasic _ (hbyte b)
  · intro key element items hlen hkey helement ih hall fuel hfuel
    obtain ⟨fuel, rfl⟩ : ∃ fuel', fuel = fuel' + 1 := ⟨fuel - 1, by omega⟩
    refine R.decodes_skipMapContainer hlen hkey helement
      (fun kv hkv => ⟨(ih kv hkv).1.1, (ih kv hkv).2.1⟩) hall.self fun hwidth kv hkv => ?_
    have hlt := R.grammar.pair_lt key element hkv
    have hin (v : Value) (hv : v ∈ [kv.1, kv.2]) :=
      hall.children_of v (by
        rw [skipped, if_neg hwidth]
        exact List.mem_flatMap.2 ⟨kv, hkv, hv⟩)
    exact ⟨(ih kv hkv).1.2.2 (hin kv.1 (by simp)) fuel (by omega),
      (ih kv hkv).2.2.2 (hin kv.2 (by simp)) fuel (by omega)⟩
  · intro s hs ih hall fuel hfuel
    refine hstruct s hs hall.self (fun hby fs hfs f hf => ?_) fuel hfuel
    have hin := hall.children_of f.2 (by
      rw [skipped, if_pos hby]
      exact hfield hfs hf)
    exact (ih fs hfs f hf).2 hin
  · intro s hs ih hall fuel hfuel
    refine hstruct s hs hall.self (fun hby fs hfs f hf => ?_) fuel hfuel
    have hin := hall.children_of f.2 (by
      rw [skipped, if_pos hby]
      exact hfield hfs hf)
    exact (ih fs hfs f hf).2 hin

theorem decodes_skip {v : Value} (h : v.wellFormed encodeString = true)
    (hall : Everywhere (skipped parts byField) (SkipFits parts F structFits) v) :
    Decodes (parts.skip v.typeId) (v.encode F) (pure ()) := by
  refine decodes_available fun left hleft => ?_
  exact R.decodes_skipWithin v h hall (left + 1) (Nat.lt_succ_of_le hleft)

/-- A value that is skipped exactly fits. -/
theorem skipFits {v : Value} (h : v.wellFormed encodeString = true)
    (hskip : Decodes (parts.skip v.typeId) (v.encode F) (pure ())) :
    SkipFits parts F structFits v := by
  cases v with
  | struct s => exact R.structFits s h hskip
  | bonded s => exact R.structFits s h hskip
  | map key element items =>
      intro hwidth
      simp only [Value.wellFormed, Bool.and_eq_true, decide_eq_true_eq, wellFormedPairs_iff] at h
      obtain ⟨⟨⟨hlen, hkey⟩, helement⟩, hitems⟩ := h
      have hheader := R.grammar.mapBegin items.length key element hlen
        (BondDataType.isValue_of_isBasic hkey) helement
      refine (R.decodes_skipPairs_iff hlen hwidth fun kv hkv => (hitems kv hkv).2.1).1 ?_
      refine decodes_behind_header hskip hheader fun k => ?_
      rw [← R.readMapBegin]
      exact ⟨_, rfl, if_pos ⟨hwidth, hwidth⟩⟩
  | _ => trivial

end SkipRules

/-- Skipping a value and reading it both succeed and leave the same behind, whatever follows. -/
def SkipsAsItReads (reader : TaggedProtocolReader) (F : TwoPass.Format WriterCall Int32)
    (v : Value) : Prop :=
  ∀ rest, ∃ value left, (reader.readPayload v.typeId).run (v.encode F ++ rest) = .ok (value, left) ∧
    (reader.skip v.typeId).run (v.encode F ++ rest) = .ok ((), left)

theorem Grammar.skipsAsItReads_iff_decodes {reader : TaggedProtocolReader}
    {F : TwoPass.Format WriterCall Int32} (G : Grammar reader F) {v : Value}
    (h : v.wellFormed encodeString = true) :
    SkipsAsItReads reader F v ↔ Decodes (reader.skip v.typeId) (v.encode F) (pure ()) := by
  have hread := G.decodes_readPayload v h
  constructor
  · intro hskip s rest hs
    obtain rfl : s = v.encode F ++ rest := hs
    obtain ⟨value, left, hvalue, hleft⟩ := hskip rest
    have hrest : left = rest := by
      rw [hread.list_run rest] at hvalue
      cases hvalue
      rfl
    rw [hleft, hrest]
    show _ = Except.ok ((), (v.encode F ++ rest).drop (v.encode F).length)
    rw [List.drop_left]
  · intro hskip rest
    exact ⟨v.onWire, rest, hread.list_run rest, hskip.list_run rest⟩

end Bond.Java

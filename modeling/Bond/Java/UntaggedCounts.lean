import Bond.Java.TaggedCounts
import Bond.Java.UntaggedRoundTrip
import Bond.Java.UntaggedSkip

set_option autoImplicit false

/-! # Counts of Simple Binary in Java

Each of the readers of a string, a container or a `bonded` of Simple Binary next to the one that
takes as much as the payload announces. A struct may have no bytes, so containers of such structs
may be skipped by doing nothing. -/

namespace Bond.Java

open Bond.Cpp (BondDataType TypeDef)
open Bond.Cpp.CompactBinary (Version)
open Bond.Lib
open Decoder
open BinaryStreamReader VarUIntHelper StringHelper

/-! ## What is used up by skipping -/

namespace SimpleBinary

theorem takesAtLeast_readLength (protocolVersion : Version) :
    TakesAtLeast (readLength protocolVersion) 1 := by
  unfold readLength
  split
  · exact takesAtLeast_decodeVarUInt32
  · exact (((takesAtLeast_readExactly 4).map _).map _).mono (by decide)

theorem takesAtLeast_skipBasic (protocolVersion : Version) (type : Cpp.BasicType) :
    TakesAtLeast (skipBasic protocolVersion type) 1 := by
  have hlength : ∀ f : Int32 → Int,
      TakesAtLeast (readLength protocolVersion >>= fun count => skipBytes (f count)) 1 := fun f =>
    (takesAtLeast_readLength protocolVersion).bind_right fun count =>
      (takesAtLeast_skipBytes (f count)).mono (Nat.zero_le _)
  cases type with
  | bool | uint8 | int8 => exact takesAtLeast_skipBytes 1
  | uint16 | int16 => exact (takesAtLeast_skipBytes 2).mono (by decide)
  | uint32 | int32 | float => exact (takesAtLeast_skipBytes 4).mono (by decide)
  | uint64 | int64 | double => exact (takesAtLeast_skipBytes 8).mono (by decide)
  | string => exact hlength Int32.toInt
  | wstring => exact hlength fun count => (count * 2).toInt

section

variable {n : Nat} {skip : TypeDef n → Reader Unit}

theorem skipStruct_eq (skip : TypeDef n → Reader Unit) (structDef : StructDef n) :
    skipStruct skip structDef = structDef.types.forM skip := by
  unfold skipStruct StructDef.types
  cases structDef.baseDef with
  | none => simp
  | some baseDef => simp

theorem takesAtLeast_forM {types : List (TypeDef n)}
    (h : ∀ type ∈ types, TakesAtLeast (skip type) 0) :
    TakesAtLeast (types.forM skip) 0 := by
  induction types with
  | nil => exact .pure ()
  | cons type types ih =>
      obtain ⟨htype, htypes⟩ := List.forall_mem_cons.1 h
      exact htype.bind_right fun _ => ih htypes

/-- One type with bytes is enough for a struct with bytes. -/
theorem takesAtLeast_forM_of_mem {types : List (TypeDef n)}
    (h : ∀ type ∈ types, TakesAtLeast (skip type) 0) {type : TypeDef n} (hmem : type ∈ types)
    (htype : TakesAtLeast (skip type) 1) : TakesAtLeast (types.forM skip) 1 := by
  induction types with
  | nil => cases hmem
  | cons first types ih =>
      obtain ⟨hfirst, htypes⟩ := List.forall_mem_cons.1 h
      rcases List.mem_cons.1 hmem with rfl | hmem
      · exact htype.bind_right fun _ => takesAtLeast_forM htypes
      · exact hfirst.bind_left fun _ => ih htypes hmem

theorem forM_hollow {types : List (TypeDef n)} {s : List UInt8}
    (h : ∀ type ∈ types, (skip type).run s = .ok ((), s)) :
    (types.forM skip).run s = .ok ((), s) := by
  induction types with
  | nil => rfl
  | cons type types ih =>
      obtain ⟨htype, htypes⟩ := List.forall_mem_cons.1 h
      show (skip type >>= fun _ => types.forM skip).run s = _
      rw [StateT.run_bind, htype]
      exact ih htypes

end

variable (protocolVersion : Version) {n : Nat} (schemaDef : SchemaDef n)

/-- A hollow struct is skipped by doing nothing. -/
theorem skip_hollow {fuel : Nat} {type : TypeDef n} (h : isHollow schemaDef fuel type = true)
    (s : List UInt8) : (skip protocolVersion schemaDef fuel type).run s = .ok ((), s) := by
  induction fuel generalizing type with
  | zero => cases h
  | succ fuel ih =>
      cases type with
      | struct structDef bondedType =>
          rw [isHollow, Bool.and_eq_true, Bool.not_eq_true', List.all_eq_true] at h
          obtain ⟨rfl, htypes⟩ := h
          show (skipStruct _ _).run s = _
          rw [skipStruct_eq]
          exact forM_hollow fun type hmem => ih (htypes type hmem)
      | _ => cases h

theorem takesAtLeast_skip (fuel : Nat) (type : TypeDef n) :
    TakesAtLeast (skip protocolVersion schemaDef fuel type)
      (if isHollow schemaDef fuel type then 0 else 1) := by
  have hlength := takesAtLeast_readLength protocolVersion
  have htimes : ∀ (k : Nat) (op : Reader Unit), TakesAtLeast op 0 → TakesAtLeast (times k op) 0 :=
    fun k op hop => (takesAtLeast_times hop k).mono (Nat.zero_le _)
  induction fuel generalizing type with
  | zero => exact takesAtLeast_throwException _ 1
  | succ fuel ih =>
      have hskip : ∀ type, TakesAtLeast (skip protocolVersion schemaDef fuel type) 0 := fun type =>
        (ih type).mono (Nat.zero_le _)
      have hlist : ∀ element : TypeDef n, TakesAtLeast
          (skipList protocolVersion (skip protocolVersion schemaDef fuel) element) 1 :=
        fun element => hlength.bind_right fun _ => htimes _ _ (hskip element)
      cases type with
      | basic type => exact takesAtLeast_skipBasic protocolVersion type
      | list element => exact hlist element
      | set element => exact hlist element
      | map key element =>
          exact hlength.bind_right fun _ =>
            htimes _ _ ((hskip key).bind_right fun _ => hskip element)
      | struct structDef bondedType =>
          cases bondedType with
          | true =>
              exact hlength.bind_right fun count =>
                (takesAtLeast_skipBytes count.toInt).mono (Nat.zero_le _)
          | false =>
              show TakesAtLeast (skipStruct _ _) _
              rw [skipStruct_eq]
              split
              · exact takesAtLeast_forM fun type _ => hskip type
              · next hsolid =>
                  rw [isHollow, Bool.not_false, Bool.true_and, List.all_eq_true] at hsolid
                  obtain ⟨type, hmem, htype⟩ : ∃ type ∈ (schemaDef.structs structDef).types,
                      ¬ isHollow schemaDef fuel type = true := by
                    by_contra hall
                    exact hsolid fun type hmem => by_contra fun htype => hall ⟨type, hmem, htype⟩
                  have hone := ih type
                  rw [if_neg htype] at hone
                  exact takesAtLeast_forM_of_mem (fun type _ => hskip type) hmem hone

end SimpleBinary

/-! ## Items -/

/-- What a `SimpleBinaryReader` reads or skips by a count or a length. -/
inductive UntaggedItem (n : Nat) where
  | readString (r : Replacement)
  | readWString (r : Replacement)
  | readVector (deserializeElement : Reader Datum)
  /-- a list or a set -/
  | readList (deserializeElement : Reader Datum)
  | readMap (deserializeKey deserializeElement : Reader Datum)
  | readNullable (deserializeElement : Reader Datum)
  | readBlob
  | readBonded
  | skipString
  | skipWString
  | skipBonded
  /-- a list or a set -/
  | skipList (element : TypeDef n)
  | skipMap (key element : TypeDef n)

namespace UntaggedItem

variable {n : Nat}

theorem decodeString_nil (r : Replacement) : decodeString r [] = [] :=
  decodeString_encodeString r (rfl : Utf16.isUnicode [] = true)

theorem decodeWString_nil (r : Replacement) : decodeWString r [] = [] :=
  rfl

/-- What is returned for an item. -/
@[reducible]
def Result : UntaggedItem n → Type
  | readString _ | readWString _ => List UInt16
  | skipString | skipWString | skipBonded | skipList _ | skipMap _ _ => Unit
  | _ => Datum

section

variable (protocolVersion : Version) (schemaDef : SchemaDef n) (fuel : Nat)

/-- An item, as it is taken and as it is announced. -/
def counted : (item : UntaggedItem n) → Counted (List UInt8) Exception Int32 item.Result
  | readString r =>
      { op := SimpleBinary.readString protocolVersion r
        header := SimpleBinary.readLength protocolVersion
        take := fun codeUnitCount =>
          if codeUnitCount = 0 then return [] else return decodeString r (← readBytes codeUnitCount)
        op_eq := rfl
        exactly := fun codeUnitCount => do
          return decodeString r (← readExactly (unsigned codeUnitCount)) }
  | readWString r =>
      { op := SimpleBinary.readWString protocolVersion r
        header := SimpleBinary.readLength protocolVersion
        take := fun codeUnitCount =>
          if codeUnitCount = 0 then
            return []
          else
            return decodeWString r (← readBytes (codeUnitCount * 2))
        op_eq := rfl
        exactly := fun codeUnitCount => do
          return decodeWString r (← readExactly (2 * unsigned codeUnitCount)) }
  | readVector deserializeElement =>
      { op := deserializeUntaggedElements protocolVersion newArrayList deserializeElement
        header := SimpleBinary.readLength protocolVersion
        take := fun count => do
          newArrayList count
          return .collection (← repeatN (turns count) deserializeElement)
        op_eq := rfl
        exactly := fun count => do
          return .collection (← repeatN (unsigned count) deserializeElement) }
  | readList deserializeElement =>
      { op := deserializeUntaggedElements protocolVersion newEmpty deserializeElement
        header := SimpleBinary.readLength protocolVersion
        take := fun count => do
          newEmpty count
          return .collection (← repeatN (turns count) deserializeElement)
        op_eq := rfl
        exactly := fun count => do
          return .collection (← repeatN (unsigned count) deserializeElement) }
  | readMap deserializeKey deserializeElement =>
      { op := deserializeUntaggedMap protocolVersion deserializeKey deserializeElement
        header := SimpleBinary.readLength protocolVersion
        take := fun count => do
          let entries ← repeatN (turns count) do
            let mapEntryKey ← deserializeKey
            let mapEntryValue ← deserializeElement
            return (mapEntryKey, mapEntryValue)
          return .map entries
        op_eq := rfl
        exactly := fun count => do
          let entries ← repeatN (unsigned count) do
            let mapEntryKey ← deserializeKey
            let mapEntryValue ← deserializeElement
            return (mapEntryKey, mapEntryValue)
          return .map entries }
  | readNullable deserializeElement =>
      { op := deserializeUntaggedNullable protocolVersion deserializeElement
        header := SimpleBinary.readLength protocolVersion
        take := fun count =>
          if count = 1 then
            deserializeElement
          else if count > 1 then
            throwException .invalidBondData
          else
            return .null
        op_eq := rfl
        exactly := fun count =>
          match unsigned count with
          | 0 => return .null
          | 1 => deserializeElement
          | _ => throwException .invalidBondData }
  | readBlob =>
      { op := deserializeUntaggedBlob protocolVersion
        header := SimpleBinary.readLength protocolVersion
        take := fun count => do
          return .blob (← readBytes count)
        op_eq := rfl
        exactly := fun count => do
          return .blob (← readExactly (unsigned count)) }
  | readBonded =>
      { op := deserializeUntaggedBonded
        header := (fun n => Int32.ofNat n) <$> readBits 4
        take := fun bondedLength => do
          let clonedInputStream ← get
          StateT.lift (unmarshal clonedInputStream)
          skipBytes bondedLength.toInt
          return .bonded (some (clonedInputStream.take bondedLength.toInt.toNat))
        op_eq := rfl
        exactly := fun bondedLength => do
          let clonedInputStream ← get
          StateT.lift (unmarshal clonedInputStream)
          skipBytes (unsigned bondedLength)
          return .bonded (some (clonedInputStream.take (unsigned bondedLength))) }
  | skipString =>
      { op := SimpleBinary.skipString protocolVersion
        header := SimpleBinary.readLength protocolVersion
        take := fun codeUnitCount => skipBytes codeUnitCount.toInt
        op_eq := rfl
        exactly := fun codeUnitCount => skipBytes (unsigned codeUnitCount) }
  | skipWString =>
      { op := SimpleBinary.skipWString protocolVersion
        header := SimpleBinary.readLength protocolVersion
        take := fun codeUnitCount => skipBytes (codeUnitCount * 2).toInt
        op_eq := rfl
        exactly := fun codeUnitCount => skipBytes (2 * unsigned codeUnitCount : Nat) }
  | skipBonded =>
      { op := SimpleBinary.skipBonded protocolVersion
        header := SimpleBinary.readLength protocolVersion
        take := fun count => skipBytes count.toInt
        op_eq := rfl
        exactly := fun count => skipBytes (unsigned count) }
  | skipList element =>
      { op := SimpleBinary.skipList protocolVersion
          (SimpleBinary.skip protocolVersion schemaDef fuel) element
        header := SimpleBinary.readLength protocolVersion
        take := fun numElems => do
          let _ ← repeatN (turns numElems)
            (SimpleBinary.skip protocolVersion schemaDef fuel element)
          return ()
        op_eq := rfl
        exactly := fun numElems =>
          times (unsigned numElems) (SimpleBinary.skip protocolVersion schemaDef fuel element) }
  | skipMap key element =>
      { op := SimpleBinary.skipMap protocolVersion
          (SimpleBinary.skip protocolVersion schemaDef fuel) key element
        header := SimpleBinary.readLength protocolVersion
        take := fun numElems => do
          let _ ← repeatN (turns numElems) do
            SimpleBinary.skip protocolVersion schemaDef fuel key
            SimpleBinary.skip protocolVersion schemaDef fuel element
          return ()
        op_eq := rfl
        exactly := fun numElems =>
          times (unsigned numElems) do
            SimpleBinary.skip protocolVersion schemaDef fuel key
            SimpleBinary.skip protocolVersion schemaDef fuel element }

end

/-- When an item is taken as it is announced. -/
def fine (schemaDef : SchemaDef n) (fuel : Nat) : UntaggedItem n → Int32 → List UInt8 → Prop
  | readString _, _, _ => True
  | readWString _, codeUnitCount, rest =>
      -- doubled as an `int`, the count may be small again
      ¬ (2 ^ 31 ≤ unsigned codeUnitCount ∧ unsigned codeUnitCount < 2 ^ 31 + 2 ^ 30 ∧
        2 * (unsigned codeUnitCount - 2 ^ 31) ≤ rest.length)
  | readVector _, _, _ => True
  | readList _, count, _ => unsigned count < 2 ^ 31
  | readMap _ _, count, _ => unsigned count < 2 ^ 31
  | readNullable _, count, _ => unsigned count < 2 ^ 31
  | readBlob, _, _ => True
  | readBonded, bondedLength, rest => unmarshal rest = .ok () → unsigned bondedLength < 2 ^ 31
  | skipString, codeUnitCount, _ => unsigned codeUnitCount < 2 ^ 31
  | skipWString, codeUnitCount, rest =>
      -- doubled, the count may be negative, or small again
      unsigned codeUnitCount < 2 ^ 30 ∨
        (2 ^ 31 ≤ unsigned codeUnitCount ∧ unsigned codeUnitCount < 2 ^ 31 + 2 ^ 30 ∧
          rest.length < 2 * (unsigned codeUnitCount - 2 ^ 31))
  | skipBonded, count, _ => unsigned count < 2 ^ 31
  | skipList element, numElems, _ =>
      unsigned numElems < 2 ^ 31 ∨ SimpleBinary.isHollow schemaDef fuel element = true
  | skipMap key element, numElems, _ =>
      unsigned numElems < 2 ^ 31 ∨ (SimpleBinary.isHollow schemaDef fuel key = true ∧
        SimpleBinary.isHollow schemaDef fuel element = true)

theorem bonded_ok_iff {k : Int} {l : Nat} {s s' : List UInt8} {d : Datum} :
    (do
      let clonedInputStream ← get
      StateT.lift (unmarshal clonedInputStream)
      skipBytes k
      return Datum.bonded (some (clonedInputStream.take l)) : Reader Datum).run s = .ok (d, s') ↔
      unmarshal s = .ok () ∧ skipBytes k s = .ok ((), s') ∧ d = .bonded (some (s.take l)) := by
  constructor
  · intro h
    obtain ⟨c, s₁, hget, h⟩ := run_bind_ok h
    cases hget
    obtain ⟨u, s₂, hlift, h⟩ := run_bind_ok h
    obtain ⟨v, s₃, hskip, h⟩ := run_bind_ok h
    cases h
    rw [StateT.run_lift] at hlift
    cases hheader : unmarshal s with
    | error e =>
        rw [hheader] at hlift
        cases hlift
    | ok u =>
        rw [hheader] at hlift
        cases hlift
        exact ⟨rfl, hskip, rfl⟩
  · rintro ⟨hheader, hskip, rfl⟩
    have hlift : (StateT.lift (unmarshal s) : Reader Unit).run s = .ok ((), s) := by
      rw [StateT.run_lift, hheader]
      rfl
    have hskip : (skipBytes k).run s = .ok ((), s') := hskip
    show (StateT.lift (unmarshal s) >>= fun _ => skipBytes k >>= fun _ =>
      pure (Datum.bonded (some (s.take l))) : Reader Datum).run s = _
    rw [StateT.run_bind, hlift]
    show (skipBytes k >>= fun _ =>
      pure (Datum.bonded (some (s.take l))) : Reader Datum).run s = _
    rw [StateT.run_bind, hskip]
    rfl

theorem bonded_exactly_iff (count : Int32) (s : List UInt8) :
    (∀ b s', (do
        let clonedInputStream ← get
        StateT.lift (unmarshal clonedInputStream)
        skipBytes count.toInt
        return Datum.bonded (some (clonedInputStream.take count.toInt.toNat)) :
          Reader Datum).run s = .ok (b, s') →
      (do
        let clonedInputStream ← get
        StateT.lift (unmarshal clonedInputStream)
        skipBytes (unsigned count)
        return Datum.bonded (some (clonedInputStream.take (unsigned count))) :
          Reader Datum).run s = .ok (b, s')) ↔
      (unmarshal s = .ok () → unsigned count < 2 ^ 31) := by
  simp only [bonded_ok_iff]
  constructor
  · intro h hheader
    refine (skipBytes_length_iff count s).1 fun u s' hskip => ?_
    exact (h _ s' ⟨hheader, hskip, rfl⟩).2.1
  · rintro h b s' ⟨hheader, hskip, rfl⟩
    have hlt := h hheader
    have hvalue : count.toInt = unsigned count := by
      rw [toInt_eq_unsigned, if_pos hlt]
    rw [hvalue] at hskip ⊢
    exact ⟨hheader, hskip, rfl⟩

/-- An item of Simple Binary is taken as it is announced in the cases of `fine`, and in no
    others. -/
theorem counted_takesExactly_iff (protocolVersion : Version) (schemaDef : SchemaDef n) (fuel : Nat)
    (item : UntaggedItem n) (s : List UInt8) :
    (item.counted protocolVersion schemaDef fuel).TakesExactly s ↔
      (item.counted protocolVersion schemaDef fuel).Announces (item.fine schemaDef fuel) s := by
  rw [Counted.takesExactly_iff]
  refine Counted.announces_congr _ (fun count s₁ => ?_) s
  have hempty : ∀ type, SimpleBinary.isHollow schemaDef fuel type = true →
      (SimpleBinary.skip protocolVersion schemaDef fuel type).run s₁ = .ok ((), s₁) :=
    fun type h => SimpleBinary.skip_hollow protocolVersion schemaDef h s₁
  have hsolid : ∀ type, ¬ SimpleBinary.isHollow schemaDef fuel type = true →
      TakesAtLeast (SimpleBinary.skip protocolVersion schemaDef fuel type) 1 := fun type h => by
    have hskip := SimpleBinary.takesAtLeast_skip protocolVersion schemaDef fuel type
    rwa [if_neg h] at hskip
  cases item with
  | readString r =>
      refine ⟨fun _ => trivial, fun _ b s' hrun => ?_⟩
      change (if count = 0 then pure [] else
        readBytes (id count) >>= fun bs => pure (decodeString r bs)).run s₁ = _ at hrun
      rw [unless_zero (decodeString_nil r) rfl] at hrun
      obtain ⟨bs, s₂, hread, hrun⟩ := run_bind_ok hrun
      have hexactly : (readExactly (unsigned count)).run s₁ = _ := exactly_of_readBytes hread
      show (readExactly (unsigned count) >>= fun bs => pure (decodeString r bs)).run s₁ = _
      rw [StateT.run_bind, hexactly]
      exact hrun
  | readWString r =>
      have htake := unless_zero (decodeWString_nil r) (g := (· * 2)) rfl count
      change (∀ b s', (if count = 0 then pure [] else
        readBytes (count * 2) >>= fun bs => pure (decodeWString r bs)).run s₁ = _ → _) ↔ _
      rw [htake]
      exact readBytes_double_iff (decodeWString r) count s₁
  | readVector deserializeElement =>
      refine ⟨fun _ => trivial, fun _ b s' hrun => ?_⟩
      exact exactly_of_newArrayList Datum.collection hrun
  | readList deserializeElement =>
      exact repeatN_exactly_iff deserializeElement (fun _ _ => Datum.collection.inj) count s₁
  | readMap deserializeKey deserializeElement =>
      exact repeatN_exactly_iff (do
        let mapEntryKey ← deserializeKey
        let mapEntryValue ← deserializeElement
        return (mapEntryKey, mapEntryValue)) (fun _ _ => Datum.map.inj) count s₁
  | readNullable deserializeElement => exact nullable_exactly_iff deserializeElement .null count s₁
  | readBlob =>
      refine ⟨fun _ => trivial, fun _ b s' hrun => ?_⟩
      obtain ⟨data, s₂, hread, hrun⟩ := run_bind_ok hrun
      have hexactly : (readExactly (unsigned count)).run s₁ = _ := exactly_of_readBytes hread
      show (readExactly (unsigned count) >>= fun data => pure (Datum.blob data)).run s₁ = _
      rw [StateT.run_bind, hexactly]
      exact hrun
  | readBonded => exact bonded_exactly_iff count s₁
  | skipString => exact skipBytes_length_iff count s₁
  | skipWString =>
      refine (skipBytes_exactly_iff (count * 2).toInt (2 * unsigned count) s₁).trans ?_
      have hlt := unsigned_lt count
      have hdouble := unsigned_double count
      have hbytes : (count * 2).toInt.toNat = _ := turns_eq (count * 2)
      rw [hbytes]
      show _ ↔ unsigned count < 2 ^ 30 ∨ (2 ^ 31 ≤ unsigned count ∧
        unsigned count < 2 ^ 31 + 2 ^ 30 ∧ s₁.length < 2 * (unsigned count - 2 ^ 31))
      split <;> omega
  | skipBonded => exact skipBytes_length_iff count s₁
  | skipList element => exact turns_exactly_iff (hempty element) (hsolid element) count
  | skipMap key element =>
      refine turns_exactly_iff (fun hhollow => ?_) (fun hhollow => ?_) count
      · rw [StateT.run_bind, hempty key hhollow.1]
        exact hempty element hhollow.2
      · by_cases hkey : SimpleBinary.isHollow schemaDef fuel key = true
        · have helement := hsolid element fun h => hhollow ⟨hkey, h⟩
          exact (SimpleBinary.takesAtLeast_skip protocolVersion schemaDef fuel key).mono
            (Nat.zero_le _) |>.bind_left fun _ => helement
        · exact (hsolid key hkey).bind_right fun _ =>
            (SimpleBinary.takesAtLeast_skip protocolVersion schemaDef fuel element).mono
              (Nat.zero_le _)

end UntaggedItem

/-! ## All protocols -/

/-- The length of a struct is read and not looked at. -/
theorem readStruct_length (types : Nat → StructBondType) (index fuel : Nat) (length : Int32)
    (rest : List UInt8) :
    (deserializeWithin (CompactBinary.reader .v2) types (fuel + 1) (.struct index)).run
        (encodeVarUInt32 length ++ rest)
      = (deserializeValueAsBase (CompactBinary.reader .v2)
          (deserializeField (CompactBinary.reader .v2)
            (deserializeWithin (CompactBinary.reader .v2) types fuel)) (fuel + 1) (types index)
        >>= fun levels => pure (Object.struct levels)).run rest := by
  have hbegin : (CompactBinary.reader .v2).readStructBegin.run (encodeVarUInt32 length ++ rest)
      = .ok ((), rest) :=
    ((decodes_decodeVarUInt32 length).bind_return fun _ => ()).list_run rest
  show ((CompactBinary.reader .v2).readStructBegin >>= _).run _ = _
  rw [StateT.run_bind, hbegin]
  rfl

/-- Strings, containers, structs and `bonded`s are read and skipped as they are announced, or not
    at all, in the cases of `fine`. How a struct is read does not depend on its length. -/
theorem takesExactly_iff_fine (s : List UInt8) :
    (∀ item : TaggedItem,
      item.counted.TakesExactly s ↔ item.counted.Announces item.fine s) ∧
    (∀ (protocolVersion : Version) (n : Nat) (schemaDef : SchemaDef n) (fuel : Nat)
      (item : UntaggedItem n),
      (item.counted protocolVersion schemaDef fuel).TakesExactly s ↔
        (item.counted protocolVersion schemaDef fuel).Announces (item.fine schemaDef fuel) s) ∧
    ∀ (types : Nat → StructBondType) (index fuel : Nat) (length length' : Int32),
      (deserializeWithin (CompactBinary.reader .v2) types (fuel + 1) (.struct index)).run
          (encodeVarUInt32 length ++ s)
        = (deserializeWithin (CompactBinary.reader .v2) types (fuel + 1) (.struct index)).run
          (encodeVarUInt32 length' ++ s) := by
  refine ⟨fun item => item.counted_takesExactly_iff s, ?_, ?_⟩
  · intro protocolVersion n schemaDef fuel item
    exact item.counted_takesExactly_iff protocolVersion schemaDef fuel s
  · intro types index fuel length length'
    rw [readStruct_length, readStruct_length]

/-- A string of 2^32 - 1 bytes, of which there is none: it is skipped. -/
theorem skipString_negative :
    ¬ ∀ (item : TaggedItem) (s : List UInt8), item.counted.TakesExactly s := by
  intro h
  have hskip := h .skipString [0xFF, 0xFF, 0xFF, 0xFF, 0x0F] (-1) [] () [] (by decide +kernel)
    (by decide +kernel)
  cases hskip

end Bond.Java

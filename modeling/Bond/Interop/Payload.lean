import Bond.Cpp.TaggedProtocol

set_option autoImplicit false

/-! # Payloads that any language reads

A payload of a tagged protocol tells the types of all that is in it, so that a reader goes through
it without a schema. The readers of C# and Java do so by the same calls, on buffers of their own: if
each method reads what C++ writes for it then so does the reader for a whole value. -/

namespace Bond.Interop

open Bond.Cpp (BondDataType BasicType BasicValue Value StructValue Fields ProtocolWriter outputBytes
  stopBytes)
open Decoder

/-- The methods of a tagged reader on a buffer `S`, and what it throws where nothing is left and where
    a type is not one of a value. -/
structure PayloadReader (S : Type) (m : Type → Type) where
  readStructBegin : StateT S m Unit
  readFieldBegin : StateT S m (BondDataType × UInt16)
  readListBegin : StateT S m (BondDataType × Nat)
  readMapBegin : StateT S m (BondDataType × BondDataType × Nat)
  read : BasicType → StateT S m BasicValue
  endOfStream : (α : Type) → StateT S m α
  invalidType : (α : Type) → BondDataType → StateT S m α

variable {S : Type} {m : Type → Type} [Monad m]

/-! ## Reading -/

namespace PayloadReader

section

variable {β : Type} (readFieldBegin : StateT S m (BondDataType × UInt16))
  (onField : UInt16 → BondDataType → StateT S m β) (endOfStream : (α : Type) → StateT S m α)

/-- A field in front of the first of some levels. -/
def consField (b : β) : List (List β) → List (List β)
  | [] => [[b]]
  | fields :: levels => (b :: fields) :: levels

/-- Read the fields of a struct level by level. Every turn takes a byte at least, so the bound on
    the turns is one on the bytes left. -/
def readLevels : Nat → StateT S m (List (List β))
  | 0 => endOfStream _
  | bound + 1 => do
      let (type, id) ← readFieldBegin
      if type = .stop then
        return [[]]
      else if type = .stopBase then
        return [] :: (← readLevels bound)
      else
        let b ← onField id type
        return consField b (← readLevels bound)

end

variable (r : PayloadReader S m)

/-- Read a value of a type by the types in the payload. -/
def readValue : Nat → BondDataType → StateT S m Value
  | 0, _ => r.endOfStream _
  | fuel + 1, type =>
      match type with
      | .basic b => Value.basic <$> r.read b
      | .list => do
          let (element, count) ← r.readListBegin
          return .list .list element (← repeatN count (readValue fuel element))
      | .set => do
          let (element, count) ← r.readListBegin
          return .list .set element (← repeatN count (readValue fuel element))
      | .map => do
          let (key, element, count) ← r.readMapBegin
          let items ← repeatN count do
            let k ← readValue fuel key
            let v ← readValue fuel element
            return (k, v)
          return .map key element items
      | .struct => do
          r.readStructBegin
          let levels ← readLevels r.readFieldBegin
            (fun id type => do return (id, ← readValue fuel type)) r.endOfStream (fuel + 1)
          return .struct (.ofLevels levels)
      | type => r.invalidType _ type

/-- Read a value of a type from what is left. -/
def readPayload [Cursor S UInt8] (type : BondDataType) : StateT S m Value := do
  let s ← get
  r.readValue ((remaining s).length + 1) type

end PayloadReader

/-! ## What C++ writes is read -/

/-- Each method reads what C++ writes for it, as long as numbers are those of an `int`. -/
structure Reads [Cursor S UInt8] (r : PayloadReader S m) (P : ProtocolWriter) : Prop where
  structBegin (length : UInt32) :
    Decodes r.readStructBegin (outputBytes (P.lengthBegin length)) (pure ())
  fieldBegin (type : BondDataType) (id : UInt16) (h : type.isValue = true) :
    Decodes r.readFieldBegin (outputBytes (P.writeFieldBegin type id)) (pure (type, id))
  structEnd (base : Bool) :
    Decodes r.readFieldBegin (stopBytes base) (pure (if base then .stopBase else .stop, 0))
  listBegin (count : Nat) (element : BondDataType) (hcount : count < 2 ^ 31)
    (h : element.isValue = true) :
    Decodes r.readListBegin (outputBytes (P.writeContainerBegin (UInt32.ofNat count) element))
      (pure (element, count))
  mapBegin (count : Nat) (key element : BondDataType) (hcount : count < 2 ^ 31)
    (hkey : key.isValue = true) (h : element.isValue = true) :
    Decodes r.readMapBegin
      (outputBytes (P.writeContainerBeginPair (UInt32.ofNat count) key element))
      (pure (key, element, count))
  read (v : BasicValue) (h : (outputBytes (P.write v)).length < 2 ^ 31) :
    Decodes (r.read v.type) (outputBytes (P.write v)) (pure v)
  write_pos (v : BasicValue) : 0 < (outputBytes (P.write v)).length

section

variable [Cursor S UInt8] {r : PayloadReader S m} {P : ProtocolWriter}

theorem Reads.encode_pos (hr : Reads r P) (v : Value) (hv : v.wellFormed = true) :
    0 < (v.encode P).length := by
  cases v with
  | basic v => exact hr.write_pos v
  | list kind element items =>
      have hpos := P.containerBegin_pos (UInt32.ofNat items.length) element
      rw [Value.encode, List.length_append]
      omega
  | map key element items =>
      have hpos := P.containerBeginPair_pos (UInt32.ofNat items.length) key element
      rw [Value.encode, List.length_append]
      omega
  | struct s =>
      rw [Cpp.encode_struct, List.length_append, List.length_append, Cpp.stopBytes_length]
      omega
  | bonded payload => cases hv

theorem Reads.items_length_le (hr : Reads r P) {items : List Value}
    (h : ∀ v ∈ items, v.wellFormed = true) : items.length ≤ (Cpp.encodeItems P items).length := by
  induction items with
  | nil => exact Nat.le_refl 0
  | cons v vs ih =>
      have hle := ih fun w hw => h w (List.mem_cons_of_mem v hw)
      have hpos := hr.encode_pos v (h v List.mem_cons_self)
      rw [Cpp.encodeItems, List.length_append, List.length_cons]
      omega

theorem Reads.pairs_length_le (hr : Reads r P) {items : List (Value × Value)}
    (h : ∀ kv ∈ items, kv.1.wellFormed = true) :
    items.length ≤ (Cpp.encodePairs P items).length := by
  induction items with
  | nil => exact Nat.le_refl 0
  | cons kv kvs ih =>
      have hle := ih fun w hw => h w (List.mem_cons_of_mem kv hw)
      have hpos := hr.encode_pos kv.1 (h kv List.mem_cons_self)
      rw [Cpp.encodePairs, List.length_append, List.length_append, List.length_cons]
      omega

section

variable [LawfulMonad m] {β : Type} {onField : UInt16 → BondDataType → StateT S m β}
  {g : UInt16 × Value → β}

/-- The fields of one level in front of the levels that `tail` is read as. -/
theorem Reads.decodes_fields (hr : Reads r P) {fs : Fields} {tail : List UInt8} {level : List β}
    {levels : List (List β)}
    (hfields : ∀ f ∈ fs, Decodes (onField f.1 f.2.typeId) (f.2.encode P) (pure (g f)))
    (htail : ∀ bound, tail.length < bound →
      Decodes (PayloadReader.readLevels r.readFieldBegin onField r.endOfStream bound) tail
        (pure (level :: levels)))
    (bound : Nat) (hbound : (Cpp.encodeFields P fs ++ tail).length < bound) :
    Decodes (PayloadReader.readLevels r.readFieldBegin onField r.endOfStream bound)
      (Cpp.encodeFields P fs ++ tail) (pure ((fs.map g ++ level) :: levels)) := by
  induction fs generalizing bound with
  | nil => exact htail bound hbound
  | cons f fs ih =>
      obtain ⟨bound, rfl⟩ : ∃ bound', bound = bound' + 1 := ⟨bound - 1, by omega⟩
      have hpos := P.fieldBegin_pos f.2.typeId f.1
      have hvalue := f.2.typeId_isValue
      have hstop : f.2.typeId ≠ .stop := by
        intro hstop
        rw [hstop] at hvalue
        cases hvalue
      have hbase : f.2.typeId ≠ .stopBase := by
        intro hbase
        rw [hbase] at hvalue
        cases hvalue
      simp only [Cpp.encodeFields, List.length_append] at hbound
      have hrest := ih (fun f' hf' => hfields f' (List.mem_cons_of_mem f hf')) bound (by
        rw [List.length_append]
        omega)
      rw [PayloadReader.readLevels, Cpp.encodeFields, List.append_assoc, List.append_assoc]
      refine (hr.fieldBegin f.2.typeId f.1 hvalue).bind_pure ?_
      simp only [if_neg hstop, if_neg hbase]
      exact (hfields f List.mem_cons_self).bind_pure
        (hrest.bind_return (PayloadReader.consField (g f)))

/-- The levels of a struct up to its end, or up to that of a base. -/
theorem Reads.decodes_body (hr : Reads r P) (s : StructValue)
    (hfields : ∀ fs ∈ s.levels, ∀ f ∈ fs,
      Decodes (onField f.1 f.2.typeId) (f.2.encode P) (pure (g f)))
    {tail : List UInt8} {levels : List (List β)}
    (htail : ∀ bound, tail.length < bound →
      Decodes (PayloadReader.readLevels r.readFieldBegin onField r.endOfStream bound) tail
        (pure ([] :: levels)))
    (bound : Nat) (hbound : (s.encodeBody P ++ tail).length < bound) :
    Decodes (PayloadReader.readLevels r.readFieldBegin onField r.endOfStream bound)
      (s.encodeBody P ++ tail) (pure (s.levels.map (List.map g) ++ levels)) := by
  induction s generalizing tail levels bound with
  | root fields =>
      have hlevel := hr.decodes_fields (hfields fields (by simp [StructValue.levels])) htail bound
        hbound
      rw [List.append_nil] at hlevel
      exact hlevel
  | derived base fields ih =>
      have hlevel (bound : Nat) (hbound : (Cpp.encodeFields P fields ++ tail).length < bound) :=
        hr.decodes_fields (hfields fields (by simp [StructValue.levels])) htail bound hbound
      have hbase : ∀ bound,
          (stopBytes true ++ (Cpp.encodeFields P fields ++ tail)).length < bound →
          Decodes (PayloadReader.readLevels r.readFieldBegin onField r.endOfStream bound)
            (stopBytes true ++ (Cpp.encodeFields P fields ++ tail))
            (pure ([] :: (fields.map g :: levels))) := by
        intro bound hbound
        obtain ⟨bound, rfl⟩ : ∃ bound', bound = bound' + 1 := ⟨bound - 1, by omega⟩
        have hrest := hlevel bound (by
          rw [List.length_append, Cpp.stopBytes_length] at hbound
          omega)
        rw [List.append_nil] at hrest
        rw [PayloadReader.readLevels]
        refine (hr.structEnd true).bind_pure ?_
        simp only [if_true, reduceCtorEq, if_false]
        exact hrest.bind_return fun levels => [] :: levels
      have hall := ih (fun fs hfs => hfields fs (by simp [StructValue.levels, hfs])) hbase bound
        (by simpa [StructValue.encodeBody] using hbound)
      simpa [StructValue.encodeBody, StructValue.levels] using hall

variable (onField g) in
theorem Reads.decodes_readLevels (hr : Reads r P) (s : StructValue)
    (hfields : ∀ fs ∈ s.levels, ∀ f ∈ fs,
      Decodes (onField f.1 f.2.typeId) (f.2.encode P) (pure (g f)))
    (bound : Nat) (hbound : (s.encodeBody P ++ stopBytes false).length < bound) :
    Decodes (PayloadReader.readLevels r.readFieldBegin onField r.endOfStream bound)
      (s.encodeBody P ++ stopBytes false) (pure (s.levels.map (List.map g))) := by
  have hend : ∀ bound, (stopBytes false).length < bound →
      Decodes (PayloadReader.readLevels r.readFieldBegin onField r.endOfStream bound) (stopBytes false)
        (pure [[]]) := by
    intro bound hbound
    obtain ⟨bound, rfl⟩ : ∃ bound', bound = bound' + 1 := ⟨bound - 1, by omega⟩
    rw [PayloadReader.readLevels, ← List.append_nil (stopBytes false)]
    refine (hr.structEnd false).bind_pure ?_
    exact Decodes.pure _
  have hlevels := hr.decodes_body s hfields hend bound hbound
  rwa [List.append_nil] at hlevels

end

variable [LawfulMonad m]

/-- Reading a value consumes what is written for it, and yields it. -/
theorem Reads.decodes_readValue (hr : Reads r P) : ∀ v : Value, v.wellFormed = true →
    (v.encode P).length < 2 ^ 31 → ∀ fuel, (v.encode P).length < fuel →
      Decodes (r.readValue fuel v.typeId) (v.encode P) (pure v) := by
  refine Cpp.wellFormed_induct ?_ ?_ ?_ ?_
  · intro v _ hlength fuel hfuel
    obtain ⟨fuel, rfl⟩ : ∃ fuel', fuel = fuel' + 1 := ⟨fuel - 1, by omega⟩
    rw [Value.encode, Value.typeId, PayloadReader.readValue]
    have hread := (hr.read v hlength).map Value.basic
    rwa [map_pure] at hread
  · intro kind element items _ helement ih hlength fuel hfuel
    obtain ⟨fuel, rfl⟩ : ∃ fuel', fuel = fuel' + 1 := ⟨fuel - 1, by omega⟩
    have hpos := P.containerBegin_pos (UInt32.ofNat items.length) element
    have hcount := hr.items_length_le fun v hv => (ih v hv).2.1
    rw [Value.encode, List.length_append] at hlength hfuel
    have hheader := hr.listBegin items.length element (by omega) helement
    have hitems : Decodes (repeatN items.length (r.readValue fuel element))
        (Cpp.encodeItems P items) (pure items) := by
      rw [Cpp.encodeItems_eq]
      refine Decodes.repeatN_self items fun v hv => ?_
      obtain ⟨rfl, _, hread⟩ := ih v hv
      have hle := Cpp.encode_item_length_le P hv
      exact hread (by omega) fuel (by omega)
    rw [Value.encode, Value.typeId]
    cases kind <;> exact hheader.bind_pure (hitems.bind_return _)
  · intro key element items _ hkey helement ih hlength fuel hfuel
    obtain ⟨fuel, rfl⟩ : ∃ fuel', fuel = fuel' + 1 := ⟨fuel - 1, by omega⟩
    have hpos := P.containerBeginPair_pos (UInt32.ofNat items.length) key element
    have hcount := hr.pairs_length_le fun kv hkv => (ih kv hkv).1.2.1
    rw [Value.encode, List.length_append] at hlength hfuel
    have hheader := hr.mapBegin items.length key element (by omega)
      (BondDataType.isValue_of_isBasic hkey) helement
    have hitems : Decodes (repeatN items.length (do
          let k ← r.readValue fuel key
          let v ← r.readValue fuel element
          return (k, v))) (Cpp.encodePairs P items) (pure items) := by
      rw [Cpp.encodePairs_eq]
      refine Decodes.repeatN_self items fun kv hkv => ?_
      obtain ⟨⟨rfl, _, hkread⟩, rfl, _, hvread⟩ := ih kv hkv
      have hle := Cpp.encode_pair_length_le P hkv
      exact (hkread (by omega) fuel (by omega)).bind_pure
        ((hvread (by omega) fuel (by omega)).bind_return fun v => (kv.1, v))
    rw [Value.encode, Value.typeId, PayloadReader.readValue]
    exact hheader.bind_pure (hitems.bind_return _)
  · intro s _ ih hlength fuel hfuel
    obtain ⟨fuel, rfl⟩ : ∃ fuel', fuel = fuel' + 1 := ⟨fuel - 1, by omega⟩
    have hlen := hfuel
    rw [Cpp.encode_struct, List.length_append, List.length_append, Cpp.stopBytes_length] at hlen
    have hlevels := hr.decodes_readLevels
      (fun id type => do return (id, ← r.readValue fuel type)) id s
      (fun fs hfs f hf => by
        have hlt := Cpp.field_encode_length_lt P hfs hf
        exact ((ih fs hfs f hf).2 (by omega) fuel (by omega)).bind_return fun v => (f.1, v))
      (fuel + 1) (by rw [List.length_append, Cpp.stopBytes_length]; omega)
    have hread := hlevels.bind_return fun levels => Value.struct (.ofLevels levels)
    rw [List.map_id_fun, List.map_id, StructValue.ofLevels_levels] at hread
    rw [Cpp.encode_struct, Value.typeId, PayloadReader.readValue]
    exact (hr.structBegin _).bind_pure hread

theorem Reads.decodes_readPayload (hr : Reads r P) (v : Value) (h : v.wellFormed = true)
    (hlength : (v.encode P).length < 2 ^ 31) :
    Decodes (r.readPayload v.typeId) (v.encode P) (pure v) := by
  intro s rest hs
  have hleft : (v.encode P).length ≤ (remaining s).length := by
    rw [hs, List.length_append]
    omega
  have hread := hr.decodes_readValue v h hlength _ (Nat.lt_succ_of_le hleft) s rest hs
  simpa [PayloadReader.readPayload, StateT.run_bind] using hread

end

end Bond.Interop

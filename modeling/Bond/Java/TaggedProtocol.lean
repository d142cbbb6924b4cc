import Bond.Java.StreamReader

set_option autoImplicit false

/-! # Tagged protocols in Java

`TaggedProtocolReader` (java/core/src/main/java/org/bondlib), what its methods have to do on what a
writer writes, and the reading of a value by these methods. Strings are kept as the code units that
they are decoded from. -/

namespace Bond.Java

open Bond.Cpp (BondDataType BasicType ListKind)
open Bond.Lib Bond.Managed
open Decoder Varint
open StringHelper

/-- The methods of a reader. Those that do nothing in every protocol (`readStructEnd`,
    `readBaseBegin`, `readBaseEnd`, `readFieldEnd`, `readContainerEnd`) are left out. -/
structure TaggedProtocolReader where
  readStructBegin : Reader Unit
  readFieldBegin : Reader (BondDataType × UInt16)
  /-- `readListBegin`: the type of the elements and their count -/
  readListBegin : Reader (BondDataType × Int32)
  /-- `readMapBegin`: the types of the keys and of the elements, and their count -/
  readMapBegin : Reader (BondDataType × BondDataType × Int32)
  /-- `readInt8`, …, `readWString` -/
  read (type : BasicType) : Reader Bond.Cpp.BasicValue
  readBytes (count : Int32) : Reader (List UInt8)
  skip (type : BondDataType) : Reader Unit

/-! ## What is read of a value -/

/-- The 16-bit code units in a sequence of bytes, the low byte first. -/
def units : List UInt8 → List UInt16
  | low :: high :: bytes => (low.toUInt16 ||| (high.toUInt16 <<< 8)) :: units bytes
  | _ => []

end Bond.Java

namespace Bond.Managed

open Bond.Cpp (BondDataType)
open Bond.Java

/-- A value of a basic type as it is read. -/
def BasicValue.onWire : BasicValue → Bond.Cpp.BasicValue
  | .bool v => .bool v
  | .uint8 v => .uint8 v
  | .uint16 v => .uint16 v
  | .uint32 v => .uint32 v
  | .uint64 v => .uint64 v
  | .float bits => .float bits
  | .double bits => .double bits
  | .string chars => .string (StringHelper.encodeString chars)
  | .int8 v => .int8 v
  | .int16 v => .int16 v
  | .int32 v => .int32 v
  | .int64 v => .int64 v
  | .wstring chars => .wstring (units (StringHelper.encodeWString chars))

/-- A byte as an element of a blob. -/
def byteValue (element : BondDataType) (b : UInt8) : BasicValue :=
  if element = .basic .int8 then .int8 b.toInt8 else .uint8 b

mutual

/-- A value as it is read: a blob as the list of its bytes, a `bonded` as the struct in it. -/
def Value.onWire : Value → Bond.Cpp.Value
  | .basic v => .basic v.onWire
  | .list kind element items => .list kind element (itemsOnWire items)
  | .blob element data =>
      .list .list element (data.map fun b => .basic (byteValue element b).onWire)
  | .map key element items => .map key element (pairsOnWire items)
  | .struct s => .struct s.onWire
  | .bonded s => .struct s.onWire

def itemsOnWire : List Value → List Bond.Cpp.Value
  | [] => []
  | v :: vs => v.onWire :: itemsOnWire vs

def pairsOnWire : List (Value × Value) → List (Bond.Cpp.Value × Bond.Cpp.Value)
  | [] => []
  | (k, v) :: kvs => (k.onWire, v.onWire) :: pairsOnWire kvs

def fieldsOnWire : List (UInt16 × Value) → Bond.Cpp.Fields
  | [] => []
  | (id, v) :: fs => (id, v.onWire) :: fieldsOnWire fs

def StructValue.onWire : StructValue → Bond.Cpp.StructValue
  | .root fields => .root (fieldsOnWire fields)
  | .derived base fields => .derived base.onWire (fieldsOnWire fields)

end

theorem itemsOnWire_eq (vs : List Value) : itemsOnWire vs = vs.map Value.onWire := by
  induction vs with
  | nil => rfl
  | cons v vs ih => rw [itemsOnWire, ih, List.map_cons]

theorem pairsOnWire_eq (kvs : List (Value × Value)) :
    pairsOnWire kvs = kvs.map fun kv => (kv.1.onWire, kv.2.onWire) := by
  induction kvs with
  | nil => rfl
  | cons kv kvs ih => rw [pairsOnWire, ih, List.map_cons]

theorem fieldsOnWire_eq (fs : Fields) : fieldsOnWire fs = fs.map fun f => (f.1, f.2.onWire) := by
  induction fs with
  | nil => rfl
  | cons f fs ih => rw [fieldsOnWire, ih, List.map_cons]

theorem StructValue.levels_onWire (s : StructValue) :
    s.onWire.levels = s.levels.map fun fs => fs.map fun f => (f.1, f.2.onWire) := by
  induction s with
  | root fields => simp [onWire, levels, Bond.Cpp.StructValue.levels, fieldsOnWire_eq]
  | derived base fields ih =>
      simp [onWire, levels, Bond.Cpp.StructValue.levels, fieldsOnWire_eq, ih]

end Bond.Managed

namespace Bond.Java

open Bond.Cpp (BondDataType BasicType ListKind)
open Bond.Lib Bond.Managed
open Decoder Varint
open StringHelper

/-! ## A reader for a writer -/

/-- What the methods of a reader have to do on what a writer writes. -/
structure Grammar (reader : TaggedProtocolReader) (F : TwoPass.Format WriterCall Int32) : Prop where
  structBegin (length : Int32) :
    Decodes reader.readStructBegin (F.lengthBytes length) (pure ())
  fieldBegin (type : BondDataType) (id : UInt16) (h : type.isValue = true) :
    Decodes reader.readFieldBegin (F.bytes (.writeFieldBegin type id)) (pure (type, id))
  structEnd : Decodes reader.readFieldBegin (F.bytes .writeStructEnd) (pure (.stop, 0))
  baseEnd : Decodes reader.readFieldBegin (F.bytes .writeBaseEnd) (pure (.stopBase, 0))
  listBegin (count : Nat) (element : BondDataType) (hcount : count < 2 ^ 31)
    (helement : element.isValue = true) :
    Decodes reader.readListBegin (F.bytes (.writeContainerBegin (Int32.ofNat count) element))
      (pure (element, Int32.ofNat count))
  mapBegin (count : Nat) (key element : BondDataType) (hcount : count < 2 ^ 31)
    (hkey : key.isValue = true) (helement : element.isValue = true) :
    Decodes reader.readMapBegin (F.bytes (.writeMapBegin (Int32.ofNat count) key element))
      (pure (key, element, Int32.ofNat count))
  read (v : BasicValue) (h : v.wellFormed encodeString = true) :
    Decodes (reader.read v.type) (F.bytes (.write v)) (pure v.onWire)
  bytes (data : List UInt8) : F.bytes (.writeBytes data) = data
  byte (b : UInt8) (element : BondDataType) (h : element = .basic .int8 ∨ element = .basic .uint8) :
    F.bytes (.write (byteValue element b)) = [b]
  readBytes (count : Int32) : reader.readBytes count = BinaryStreamReader.readBytes count
  structEnd_pos : 0 < (F.bytes .writeStructEnd).length
  baseEnd_pos : 0 < (F.bytes .writeBaseEnd).length
  fieldBegin_pos (type : BondDataType) (id : UInt16) :
    0 < (F.bytes (.writeFieldBegin type id)).length
  listBegin_pos (count : Int32) (element : BondDataType) :
    0 < (F.bytes (.writeContainerBegin count element)).length
  mapBegin_pos (count : Int32) (key element : BondDataType) :
    0 < (F.bytes (.writeMapBegin count key element)).length

/-! ## Reading a value -/

/-- How often `for (int i = 0; i < count; ++i)` turns. -/
def turns (count : Int32) : Nat :=
  count.toInt.toNat

theorem turns_ofNat {n : Nat} (h : n < 2 ^ 31) : turns (Int32.ofNat n) = n := by
  unfold turns
  rw [Int32.toInt_ofNat_of_lt h, Int.toNat_natCast]

section

variable {β : Type} (readFieldBegin : Reader (BondDataType × UInt16))
  (onField : UInt16 → BondDataType → Reader β)

/-- A field in front of the first of some levels. -/
def consField (b : β) : List (List β) → List (List β)
  | [] => [[b]]
  | fields :: levels => (b :: fields) :: levels

/-- Read the fields of a struct level by level up to the end of the last one. Every turn takes a
    byte at least, so the bound on the number of turns is one on the bytes left. -/
def readLevels : Nat → Reader (List (List β))
  | 0 => throwException .endOfFile
  | bound + 1 => do
      let (type, id) ← readFieldBegin
      if type = .stop then
        return [[]]
      else if type = .stopBase then
        return [] :: (← readLevels bound)
      else
        let b ← onField id type
        return consField b (← readLevels bound)

end

namespace TaggedProtocolReader

variable (reader : TaggedProtocolReader)

/-- Read a value of a type by the types in the payload, which makes the calls on the reader that
    `deserializeValue` makes for the type of the value. What a `bonded` holds is read from the clone
    of the reader by the same calls. -/
def readValue : Nat → BondDataType → Reader Bond.Cpp.Value
  | 0, _ => throwException .endOfFile
  | fuel + 1, type =>
      match type with
      | .basic b => Bond.Cpp.Value.basic <$> reader.read b
      | .list => do
          let (element, count) ← reader.readListBegin
          return .list .list element (← repeatN (turns count) (readValue fuel element))
      | .set => do
          let (element, count) ← reader.readListBegin
          return .list .set element (← repeatN (turns count) (readValue fuel element))
      | .map => do
          let (key, element, count) ← reader.readMapBegin
          let items ← repeatN (turns count) do
            let k ← readValue fuel key
            let v ← readValue fuel element
            return (k, v)
          return .map key element items
      | .struct => do
          reader.readStructBegin
          let levels ← readLevels reader.readFieldBegin
            (fun id type => do return (id, ← readValue fuel type)) (fuel + 1)
          return .struct (.ofLevels levels)
      | _ => throwException .invalidBondData

/-- Read a value of a type from what is left. -/
def readPayload (type : BondDataType) : Reader Bond.Cpp.Value := do
  let left ← available
  reader.readValue (left + 1) type

end TaggedProtocolReader

/-! ## A value is read back -/

section

variable {reader : TaggedProtocolReader} {F : TwoPass.Format WriterCall Int32}
  (G : Grammar reader F)

include G

/-- The item of a container is shorter than the container. -/
theorem Grammar.item_lt (kind : ListKind) (element : BondDataType) {items : List Value}
    {v : Value} (hv : v ∈ items) : (v.encode F).length < ((Value.list kind element items).encode F).length := by
  have hle := encode_item_length_le F hv
  have hpos := G.listBegin_pos (Int32.ofNat items.length) element
  rw [Value.encode, List.length_append]
  omega

/-- A blob is written as the list of its bytes. -/
theorem Grammar.encode_blob {element : BondDataType} (data : List UInt8)
    (h : element = .basic .int8 ∨ element = .basic .uint8) :
    (Value.blob element data).encode F
      = (Value.list .list element (data.map fun b => .basic (byteValue element b))).encode F := by
  have hbytes : encodeItems F (data.map fun b => .basic (byteValue element b)) = data := by
    rw [encodeItems_eq, List.flatMap_map]
    have hbyte : ∀ b, Value.encode F (.basic (byteValue element b)) = [b] := fun b =>
      G.byte b element h
    simp only [hbyte, List.flatMap_singleton']
  rw [Value.encode, Value.encode, G.bytes, hbytes, List.length_map]

theorem Grammar.pair_lt (key element : BondDataType) {items : List (Value × Value)}
    {kv : Value × Value} (hkv : kv ∈ items) :
    (kv.1.encode F).length + (kv.2.encode F).length
      < ((Value.map key element items).encode F).length := by
  have hle := encode_pair_length_le F hkv
  have hpos := G.mapBegin_pos (Int32.ofNat items.length) key element
  rw [Value.encode, List.length_append]
  omega

theorem Grammar.field_lt {s : StructValue} {fs : Fields} {f : UInt16 × Value}
    (hfs : fs ∈ s.levels) (hf : f ∈ fs) :
    (f.2.encode F).length < ((Value.struct s).encode F).length := by
  have hle := encode_field_length_le F hf
  have hlevel := encodeFields_length_le F hfs
  have hpos := G.structEnd_pos
  simp only [Value.encode, List.length_append]
  omega

section

variable {β : Type} {onField : UInt16 → BondDataType → Reader β} {g : UInt16 × Value → β}

/-- The fields of one level in front of the levels that `tail` is read as. -/
theorem Grammar.decodes_readLevels_fields {fs : Fields} {tail : List UInt8} {level : List β}
    {levels : List (List β)}
    (hfields : ∀ f ∈ fs, Decodes (onField f.1 f.2.typeId) (f.2.encode F) (pure (g f)))
    (htail : ∀ bound, tail.length < bound →
      Decodes (readLevels reader.readFieldBegin onField bound) tail (pure (level :: levels)))
    (bound : Nat) (hbound : (encodeFields F fs ++ tail).length < bound) :
    Decodes (readLevels reader.readFieldBegin onField bound) (encodeFields F fs ++ tail)
      (pure ((fs.map g ++ level) :: levels)) := by
  induction fs generalizing bound with
  | nil => exact htail bound hbound
  | cons f fs ih =>
      obtain ⟨bound, rfl⟩ : ∃ bound', bound = bound' + 1 := ⟨bound - 1, by omega⟩
      have hpos := G.fieldBegin_pos f.2.typeId f.1
      have hvalue := f.2.typeId_isValue
      have hstop : f.2.typeId ≠ .stop := by
        intro hstop
        rw [hstop] at hvalue
        cases hvalue
      have hbase : f.2.typeId ≠ .stopBase := by
        intro hbase
        rw [hbase] at hvalue
        cases hvalue
      simp only [encodeFields, List.length_append] at hbound
      have hrest := ih (fun f' hf' => hfields f' (List.mem_cons_of_mem f hf')) bound (by
        rw [List.length_append]
        omega)
      rw [readLevels, encodeFields, List.append_assoc, List.append_assoc]
      refine (G.fieldBegin f.2.typeId f.1 hvalue).bind_pure ?_
      simp only [if_neg hstop, if_neg hbase]
      exact (hfields f List.mem_cons_self).bind_pure (hrest.bind_return (consField (g f)))

/-- The levels of a struct up to its end, or up to that of a base. -/
theorem Grammar.decodes_readLevels_body (s : StructValue)
    (hfields : ∀ fs ∈ s.levels, ∀ f ∈ fs,
      Decodes (onField f.1 f.2.typeId) (f.2.encode F) (pure (g f)))
    {tail : List UInt8} {levels : List (List β)}
    (htail : ∀ bound, tail.length < bound →
      Decodes (readLevels reader.readFieldBegin onField bound) tail (pure ([] :: levels)))
    (bound : Nat) (hbound : (s.encodeBody F ++ tail).length < bound) :
    Decodes (readLevels reader.readFieldBegin onField bound) (s.encodeBody F ++ tail)
      (pure (s.levels.map (List.map g) ++ levels)) := by
  induction s generalizing tail levels bound with
  | root fields =>
      have hlevel := G.decodes_readLevels_fields (hfields fields (by simp [StructValue.levels]))
        htail bound hbound
      rw [List.append_nil] at hlevel
      exact hlevel
  | derived base fields ih =>
      have hlevel (bound : Nat) (hbound : (encodeFields F fields ++ tail).length < bound) :=
        G.decodes_readLevels_fields (hfields fields (by simp [StructValue.levels])) htail bound
          hbound
      have hbase : ∀ bound,
          (F.bytes .writeBaseEnd ++ (encodeFields F fields ++ tail)).length < bound →
          Decodes (readLevels reader.readFieldBegin onField bound)
            (F.bytes .writeBaseEnd ++ (encodeFields F fields ++ tail))
            (pure ([] :: (fields.map g :: levels))) := by
        intro bound hbound
        obtain ⟨bound, rfl⟩ : ∃ bound', bound = bound' + 1 := ⟨bound - 1, by omega⟩
        have hpos := G.baseEnd_pos
        have hrest := hlevel bound (by
          rw [List.length_append] at hbound
          omega)
        rw [List.append_nil] at hrest
        rw [readLevels]
        refine G.baseEnd.bind_pure ?_
        simp only [reduceCtorEq, if_false, if_true]
        exact hrest.bind_return fun levels => [] :: levels
      have hall := ih (fun fs hfs => hfields fs (by simp [StructValue.levels, hfs])) hbase bound
        (by simpa [StructValue.encodeBody] using hbound)
      simpa [StructValue.encodeBody, StructValue.levels] using hall

variable (onField g) in
theorem Grammar.decodes_readLevels (s : StructValue)
    (hfields : ∀ fs ∈ s.levels, ∀ f ∈ fs,
      Decodes (onField f.1 f.2.typeId) (f.2.encode F) (pure (g f)))
    (bound : Nat) (hbound : (s.encodeBody F ++ F.bytes .writeStructEnd).length < bound) :
    Decodes (readLevels reader.readFieldBegin onField bound)
      (s.encodeBody F ++ F.bytes .writeStructEnd) (pure (s.levels.map (List.map g))) := by
  have hend : ∀ bound, (F.bytes .writeStructEnd).length < bound →
      Decodes (readLevels reader.readFieldBegin onField bound) (F.bytes .writeStructEnd)
        (pure [[]]) := by
    intro bound hbound
    obtain ⟨bound, rfl⟩ : ∃ bound', bound = bound' + 1 := ⟨bound - 1, by omega⟩
    rw [readLevels, ← List.append_nil (F.bytes .writeStructEnd)]
    refine G.structEnd.bind_pure ?_
    exact Decodes.pure _
  have hlevels := G.decodes_readLevels_body s hfields hend bound hbound
  rwa [List.append_nil] at hlevels

end

theorem Grammar.decodes_readStruct (s : StructValue) (fuel : Nat)
    (hfields : ∀ fs ∈ s.levels, ∀ f ∈ fs,
      Decodes (reader.readValue fuel f.2.typeId) (f.2.encode F) (pure f.2.onWire))
    (hfuel : ((Value.struct s).encode F).length < fuel + 1) :
    Decodes (reader.readValue (fuel + 1) .struct) ((Value.struct s).encode F)
      (pure (.struct s.onWire)) := by
  rw [Value.encode, List.length_append] at hfuel
  have hlevels := G.decodes_readLevels (fun id type => do return (id, ← reader.readValue fuel type))
    (fun f => (f.1, f.2.onWire)) s
    (fun fs hfs f hf => (hfields fs hfs f hf).bind_return fun v => (f.1, v)) (fuel + 1) (by omega)
  have hread := hlevels.bind_return fun levels => Bond.Cpp.Value.struct (.ofLevels levels)
  have hstruct : Bond.Cpp.StructValue.ofLevels
      (s.levels.map (List.map fun f => (f.1, f.2.onWire))) = s.onWire := by
    rw [← s.levels_onWire, Bond.Cpp.StructValue.ofLevels_levels]
  rw [hstruct] at hread
  rw [Value.encode, TaggedProtocolReader.readValue]
  exact (G.structBegin _).bind_pure hread

/-- Reading a value consumes what is written for it, and yields it. -/
theorem Grammar.decodes_readValue : ∀ v : Value, v.wellFormed encodeString = true → ∀ fuel,
    (v.encode F).length < fuel →
      Decodes (reader.readValue fuel v.typeId) (v.encode F) (pure v.onWire) := by
  refine wellFormed_induct ?_ ?_ ?_ ?_ ?_ ?_
  · intro v hv fuel hfuel
    obtain ⟨fuel, rfl⟩ : ∃ fuel', fuel = fuel' + 1 := ⟨fuel - 1, by omega⟩
    exact (G.read v hv).map Bond.Cpp.Value.basic
  · intro kind element items hlen helement ih fuel hfuel
    obtain ⟨fuel, rfl⟩ : ∃ fuel', fuel = fuel' + 1 := ⟨fuel - 1, by omega⟩
    have hheader := G.listBegin items.length element hlen helement
    have hitems : Decodes (repeatN (turns (Int32.ofNat items.length))
        (reader.readValue fuel element)) (encodeItems F items) (pure (itemsOnWire items)) := by
      rw [turns_ofNat hlen, encodeItems_eq, itemsOnWire_eq]
      refine Decodes.repeatN_pure items fun v hv => ?_
      obtain ⟨rfl, -, hread⟩ := ih v hv
      have hlt := G.item_lt kind v.typeId hv
      exact hread fuel (by omega)
    cases kind <;> exact hheader.bind_pure (hitems.bind_return _)
  · intro element data hlen helement fuel hfuel
    obtain ⟨fuel, rfl⟩ : ∃ fuel', fuel = fuel' + 1 := ⟨fuel - 1, by omega⟩
    have hvalue : element.isValue = true := by
      rcases helement with rfl | rfl <;> rfl
    have hheader := G.listBegin data.length element hlen hvalue
    have hpos := G.listBegin_pos (Int32.ofNat data.length) element
    rw [Value.encode, List.length_append] at hfuel
    obtain ⟨fuel, rfl⟩ : ∃ fuel', fuel = fuel' + 1 := ⟨fuel - 1, by omega⟩
    have htype (b : UInt8) : BondDataType.basic (byteValue element b).type = element := by
      rcases helement with rfl | rfl <;> rfl
    have hitems : Decodes (repeatN (turns (Int32.ofNat data.length))
        (reader.readValue (fuel + 1) element)) (data.flatMap fun b => [b])
        (pure (data.map fun b => .basic (byteValue element b).onWire)) := by
      rw [turns_ofNat hlen]
      refine Decodes.repeatN_pure data fun b _ => ?_
      have hread := (G.read (byteValue element b) (by
        rcases helement with rfl | rfl <;> rfl)).map Bond.Cpp.Value.basic
      rw [G.byte b element helement] at hread
      have hbasic : Decodes (reader.readValue (fuel + 1) (.basic (byteValue element b).type)) [b]
          _ := hread
      rwa [htype b] at hbasic
    rw [List.flatMap_singleton'] at hitems
    rw [Value.encode, G.bytes]
    exact hheader.bind_pure (hitems.bind_return _)
  · intro key element items hlen hkey helement ih fuel hfuel
    obtain ⟨fuel, rfl⟩ : ∃ fuel', fuel = fuel' + 1 := ⟨fuel - 1, by omega⟩
    have hheader := G.mapBegin items.length key element hlen
      (BondDataType.isValue_of_isBasic hkey) helement
    have hitems : Decodes (repeatN (turns (Int32.ofNat items.length)) (do
          let k ← reader.readValue fuel key
          let v ← reader.readValue fuel element
          return (k, v))) (encodePairs F items) (pure (pairsOnWire items)) := by
      rw [turns_ofNat hlen, encodePairs_eq, pairsOnWire_eq]
      refine Decodes.repeatN_pure items fun kv hkv => ?_
      obtain ⟨⟨rfl, -, hkread⟩, rfl, -, hvread⟩ := ih kv hkv
      have hlt := G.pair_lt kv.1.typeId kv.2.typeId hkv
      exact (hkread fuel (by omega)).bind_pure
        ((hvread fuel (by omega)).bind_return fun v => (kv.1.onWire, v))
    exact hheader.bind_pure (hitems.bind_return _)
  · intro s hs ih fuel hfuel
    obtain ⟨fuel, rfl⟩ : ∃ fuel', fuel = fuel' + 1 := ⟨fuel - 1, by omega⟩
    refine G.decodes_readStruct s fuel (fun fs hfs f hf => ?_) hfuel
    have hlt := G.field_lt hfs hf
    exact (ih fs hfs f hf).2 fuel (by omega)
  · intro s hs ih fuel hfuel
    obtain ⟨fuel, rfl⟩ : ∃ fuel', fuel = fuel' + 1 := ⟨fuel - 1, by omega⟩
    refine G.decodes_readStruct s fuel (fun fs hfs f hf => ?_) hfuel
    have hlt : _ < ((Value.bonded s).encode F).length := G.field_lt hfs hf
    exact (ih fs hfs f hf).2 fuel (by omega)

theorem Grammar.decodes_readPayload (v : Value) (h : v.wellFormed encodeString = true) :
    Decodes (reader.readPayload v.typeId) (v.encode F) (pure v.onWire) := by
  refine decodes_available fun left hleft => ?_
  exact G.decodes_readValue v h (left + 1) (Nat.lt_succ_of_le hleft)

end

end Bond.Java

import Bond.Cpp.OutputBuffer
import Bond.Cpp.Types

set_option autoImplicit false

/-! # Tagged protocols

What Compact Binary and Fast Binary have in common: a reader and a writer of headers and basic
values, and the grammar that puts these together. `encode` is the grammar; a `TaggedProtocol` is a
reader and a writer that agree on its terminals and a `Skip` that agrees with it as a whole. What
follows from that, the round trip first of all, is shown once for all protocols. -/

namespace Bond.Cpp

open Decoder InputBuffer

/-! ## Writers -/

/-- What a protocol writer asks of its output stream for each of its methods. No header is empty. -/
structure ProtocolWriter where
  /-- what precedes the `length` bytes of a struct that is not a base -/
  lengthBegin (length : UInt32) : List OutputCall
  writeFieldBegin (type : BondDataType) (id : UInt16) : List OutputCall
  writeContainerBegin (size : UInt32) (type : BondDataType) : List OutputCall
  /-- `WriteContainerBegin` for a container of pairs -/
  writeContainerBeginPair (size : UInt32) (key element : BondDataType) : List OutputCall
  write (value : BasicValue) : List OutputCall
  fieldBegin_pos (type : BondDataType) (id : UInt16) :
    0 < (outputBytes (writeFieldBegin type id)).length
  containerBegin_pos (size : UInt32) (type : BondDataType) :
    0 < (outputBytes (writeContainerBegin size type)).length
  containerBeginPair_pos (size : UInt32) (key element : BondDataType) :
    0 < (outputBytes (writeContainerBeginPair size key element)).length

/-- `WriteStructEnd` -/
def writeStructEnd (base : Bool) : List OutputCall :=
  [.write [if base then BondDataType.stopBase.toUInt8 else BondDataType.stop.toUInt8]]

def stopBytes (base : Bool) : List UInt8 :=
  outputBytes (writeStructEnd base)

mutual

/-- The bytes of a value. -/
def Value.encode (P : ProtocolWriter) : Value → List UInt8
  | .basic v => outputBytes (P.write v)
  | .list _ element items =>
      outputBytes (P.writeContainerBegin (UInt32.ofNat items.length) element)
        ++ encodeItems P items
  | .map key element items =>
      outputBytes (P.writeContainerBeginPair (UInt32.ofNat items.length) key element)
        ++ encodePairs P items
  | .struct s =>
      let body := s.encodeBody P ++ stopBytes false
      outputBytes (P.lengthBegin (UInt32.ofNat body.length)) ++ body
  | .bonded payload => payload

def encodeItems (P : ProtocolWriter) : List Value → List UInt8
  | [] => []
  | v :: vs => v.encode P ++ encodeItems P vs

def encodePairs (P : ProtocolWriter) : List (Value × Value) → List UInt8
  | [] => []
  | (k, v) :: kvs => (k.encode P ++ v.encode P) ++ encodePairs P kvs

def encodeFields (P : ProtocolWriter) : List (UInt16 × Value) → List UInt8
  | [] => []
  | (id, v) :: fs =>
      (outputBytes (P.writeFieldBegin v.typeId id) ++ v.encode P) ++ encodeFields P fs

/-- The bytes of a struct's fields, base levels first, up to the marker that ends the last level. -/
def StructValue.encodeBody (P : ProtocolWriter) : StructValue → List UInt8
  | .root fields => encodeFields P fields
  | .derived base fields => base.encodeBody P ++ stopBytes true ++ encodeFields P fields

end

/-- The bytes of a struct that is not a base. -/
def StructValue.encode (P : ProtocolWriter) (s : StructValue) : List UInt8 :=
  (Value.struct s).encode P

@[simp] theorem stopBytes_length (base : Bool) : (stopBytes base).length = 1 := by
  cases base <;> rfl

section

variable (P : ProtocolWriter)

/-- The bytes of a field with its header. -/
def encodeField (f : UInt16 × Value) : List UInt8 :=
  outputBytes (P.writeFieldBegin f.2.typeId f.1) ++ f.2.encode P

theorem encodeItems_eq (vs : List Value) : encodeItems P vs = vs.flatMap (Value.encode P) := by
  induction vs with
  | nil => rfl
  | cons v vs ih => rw [encodeItems, ih, List.flatMap_cons]

theorem encodePairs_eq (kvs : List (Value × Value)) :
    encodePairs P kvs = kvs.flatMap fun kv => kv.1.encode P ++ kv.2.encode P := by
  induction kvs with
  | nil => rfl
  | cons kv kvs ih => rw [encodePairs, ih, List.flatMap_cons]

theorem encodeFields_eq (fs : Fields) : encodeFields P fs = fs.flatMap (encodeField P) := by
  induction fs with
  | nil => rfl
  | cons f fs ih => rw [encodeFields, ih, List.flatMap_cons, encodeField]

theorem encode_struct (s : StructValue) :
    (Value.struct s).encode P
      = outputBytes (P.lengthBegin (UInt32.ofNat (s.encodeBody P ++ stopBytes false).length))
        ++ (s.encodeBody P ++ stopBytes false) := by
  rw [Value.encode]

theorem encodeField_length_le {fs : Fields} {f : UInt16 × Value} (hf : f ∈ fs) :
    (encodeField P f).length ≤ (encodeFields P fs).length := by
  rw [encodeFields_eq]
  exact (List.sublist_flatten_of_mem (List.mem_map_of_mem hf)).length_le

theorem encode_item_length_le {vs : List Value} {v : Value} (hv : v ∈ vs) :
    (v.encode P).length ≤ (encodeItems P vs).length := by
  rw [encodeItems_eq]
  exact (List.sublist_flatten_of_mem (List.mem_map_of_mem hv)).length_le

theorem encode_pair_length_le {kvs : List (Value × Value)} {kv : Value × Value} (hkv : kv ∈ kvs) :
    (kv.1.encode P).length + (kv.2.encode P).length ≤ (encodePairs P kvs).length := by
  rw [encodePairs_eq, ← List.length_append]
  exact (List.sublist_flatten_of_mem
    (List.mem_map_of_mem (f := fun kv => kv.1.encode P ++ kv.2.encode P) hkv)).length_le

theorem fields_length_le (fs : Fields) : fs.length ≤ (encodeFields P fs).length := by
  induction fs with
  | nil => simp
  | cons f fs ih =>
      have hpos := P.fieldBegin_pos f.2.typeId f.1
      rw [encodeFields, List.length_append, List.length_append, List.length_cons]
      omega

theorem encodeFields_length_le {s : StructValue} {fs : Fields} (hfs : fs ∈ s.levels) :
    (encodeFields P fs).length ≤ (s.encodeBody P).length := by
  induction s with
  | root fields =>
      rw [StructValue.levels, List.mem_singleton] at hfs
      rw [hfs, StructValue.encodeBody]
  | derived base fields ih =>
      rw [StructValue.levels, List.mem_append, List.mem_singleton] at hfs
      rw [StructValue.encodeBody, List.length_append, List.length_append]
      rcases hfs with hbase | rfl
      · have hle := ih hbase
        omega
      · omega

/-- The value of a field is shorter than the struct it is in by the stop marker at least. -/
theorem field_encode_length_lt {s : StructValue} {fs : Fields} {f : UInt16 × Value}
    (hfs : fs ∈ s.levels) (hf : f ∈ fs) :
    (f.2.encode P).length < ((Value.struct s).encode P).length := by
  have hfield := encodeField_length_le P hf
  have hlevel := encodeFields_length_le P hfs
  rw [encodeField, List.length_append] at hfield
  rw [encode_struct, List.length_append, List.length_append, stopBytes_length]
  omega

theorem depth_le (s : StructValue) : s.depth ≤ (s.encodeBody P).length + 1 := by
  induction s with
  | root fields => simp [StructValue.depth]
  | derived base fields ih =>
      rw [StructValue.depth, StructValue.encodeBody, List.length_append, List.length_append,
        stopBytes_length]
      omega

end

/-! ## Readers -/

/-- The methods of a protocol reader. Those that do nothing in every protocol (`ReadStructEnd`,
    `ReadFieldEnd`, `ReadContainerEnd`) are left out. -/
structure ProtocolReader where
  readStructBegin (base : Bool) : Reader Unit
  readFieldBegin : Reader (BondDataType × UInt16)
  readContainerBegin : Reader (Nat × BondDataType)
  /-- `ReadContainerBegin` for a container of pairs -/
  readContainerBeginPair : Reader (Nat × BondDataType × BondDataType)
  read (type : BasicType) : Reader BasicValue
  skip (type : BondDataType) : Reader Unit

/-! ### Loops over fields -/

section

variable {β : Type} (readFieldBegin : Reader (BondDataType × UInt16))
  (onField : UInt16 → BondDataType → Reader β)

/-- Read fields up to a stop marker; every turn takes at least a byte, so the bound on the number
    of turns is one on the bytes left. -/
def readFieldsLoop : Nat → Reader (List β × BondDataType)
  | 0 => eofException 1
  | k + 1 => do
      let (type, id) ← readFieldBegin
      if type = .stop ∨ type = .stopBase then
        return ([], type)
      else
        let b ← onField id type
        let (bs, ending) ← readFieldsLoop k
        return (b :: bs, ending)

/-- Read the levels of a struct up to the marker that ends the last one, its root first. -/
def readLevelsLoop (bound : Nat) : Nat → Reader (List (List β))
  | 0 => eofException 1
  | k + 1 => do
      let (fields, ending) ← readFieldsLoop readFieldBegin onField bound
      if ending = .stop then
        return [fields]
      else
        let levels ← readLevelsLoop bound k
        return fields :: levels

end

/-- The terminals of the grammar as far as the loops over fields need them. -/
structure DecodesFields (P : ProtocolWriter) (readFieldBegin : Reader (BondDataType × UInt16)) :
    Prop where
  begin_ (type : BondDataType) (id : UInt16) (h : type.isValue = true) :
    Decodes readFieldBegin (outputBytes (P.writeFieldBegin type id)) (pure (type, id))
  end_ (base : Bool) :
    Decodes readFieldBegin (stopBytes base) (pure (if base then .stopBase else .stop, 0))

section

variable {β : Type} {P : ProtocolWriter} {readFieldBegin : Reader (BondDataType × UInt16)}
  {onField : UInt16 → BondDataType → Reader β} {g : UInt16 × Value → β}

theorem decodes_readFieldsLoop (hP : DecodesFields P readFieldBegin) (fs : Fields)
    (h : ∀ f ∈ fs, Decodes (onField f.1 f.2.typeId) (f.2.encode P) (pure (g f)))
    (base : Bool) (k : Nat) (hk : fs.length < k) :
    Decodes (readFieldsLoop readFieldBegin onField k) (encodeFields P fs ++ stopBytes base)
      (pure (fs.map g, if base then .stopBase else .stop)) := by
  induction fs generalizing k with
  | nil =>
      obtain ⟨k, rfl⟩ : ∃ k', k = k' + 1 := ⟨k - 1, by simp at hk; omega⟩
      rw [readFieldsLoop, encodeFields, List.nil_append, ← List.append_nil (stopBytes base)]
      refine (hP.end_ base).bind_pure ?_
      cases base <;> exact Decodes.pure _
  | cons f fs ih =>
      obtain ⟨k, rfl⟩ : ∃ k', k = k' + 1 := ⟨k - 1, by simp at hk; omega⟩
      have htype : ¬ (f.2.typeId = .stop ∨ f.2.typeId = .stopBase) := by
        have hvalue := f.2.typeId_isValue
        rintro (hstop | hstop) <;> rw [hstop] at hvalue <;> exact absurd hvalue (by decide)
      have hrest := ih (fun f' hf' => h f' (List.mem_cons_of_mem f hf')) k (by simpa using hk)
      rw [readFieldsLoop, encodeFields, List.append_assoc, List.append_assoc]
      refine (hP.begin_ f.2.typeId f.1 f.2.typeId_isValue).bind_pure ?_
      simp only [if_neg htype]
      exact (h f List.mem_cons_self).bind_pure (hrest.bind_return _)

/-- The levels of a hierarchy in front of further levels. -/
theorem decodes_readLevelsLoop_bases (hP : DecodesFields P readFieldBegin) (s : StructValue)
    (h : ∀ fs ∈ s.levels, ∀ f ∈ fs, Decodes (onField f.1 f.2.typeId) (f.2.encode P) (pure (g f)))
    (bound : Nat) (hbound : ∀ fs ∈ s.levels, fs.length < bound)
    (k : Nat) (enc : List UInt8) (levels : List (List β))
    (hrest : Decodes (readLevelsLoop readFieldBegin onField bound k) enc (pure levels)) :
    Decodes (readLevelsLoop readFieldBegin onField bound (k + s.depth))
      (s.encodeBody P ++ stopBytes true ++ enc) (pure (s.levels.map (List.map g) ++ levels)) := by
  induction s generalizing k enc levels with
  | root fs =>
      have hfs := decodes_readFieldsLoop hP fs (h fs (by simp [StructValue.levels])) true bound
        (hbound fs (by simp [StructValue.levels]))
      rw [StructValue.depth, readLevelsLoop, StructValue.encodeBody]
      refine hfs.bind_pure ?_
      simp only [if_true, reduceCtorEq, if_false]
      exact hrest.bind_return _
  | derived base fs ih =>
      have hfs := decodes_readFieldsLoop hP fs (h fs (by simp [StructValue.levels])) true bound
        (hbound fs (by simp [StructValue.levels]))
      have hlevel : Decodes (readLevelsLoop readFieldBegin onField bound (k + 1))
          (encodeFields P fs ++ stopBytes true ++ enc) (pure (fs.map g :: levels)) := by
        rw [readLevelsLoop]
        refine hfs.bind_pure ?_
        simp only [if_true, reduceCtorEq, if_false]
        exact hrest.bind_return _
      have hbase := ih (fun fs' hfs' => h fs' (by simp [StructValue.levels, hfs']))
        (fun fs' hfs' => hbound fs' (by simp [StructValue.levels, hfs'])) (k + 1) _ _ hlevel
      rw [StructValue.depth, StructValue.encodeBody, StructValue.levels, Nat.add_comm base.depth 1,
        ← Nat.add_assoc]
      simpa using hbase

theorem decodes_readLevelsLoop (hP : DecodesFields P readFieldBegin) (s : StructValue)
    (h : ∀ fs ∈ s.levels, ∀ f ∈ fs, Decodes (onField f.1 f.2.typeId) (f.2.encode P) (pure (g f)))
    (bound : Nat) (hbound : ∀ fs ∈ s.levels, fs.length < bound) (k : Nat) (hk : s.depth ≤ k) :
    Decodes (readLevelsLoop readFieldBegin onField bound k) (s.encodeBody P ++ stopBytes false)
      (pure (s.levels.map (List.map g))) := by
  have hlast (fs : Fields) (k : Nat) (hfs : fs ∈ s.levels) :
      Decodes (readLevelsLoop readFieldBegin onField bound (k + 1))
        (encodeFields P fs ++ stopBytes false) (pure [fs.map g]) := by
    rw [readLevelsLoop, ← List.append_nil (encodeFields P fs ++ stopBytes false)]
    refine (decodes_readFieldsLoop hP fs (h fs hfs) false bound (hbound fs hfs)).bind_pure ?_
    exact Decodes.pure _
  cases s with
  | root fs =>
      obtain ⟨k, rfl⟩ : ∃ k', k = k' + 1 := ⟨k - 1, by simp [StructValue.depth] at hk; omega⟩
      exact hlast fs k (by simp [StructValue.levels])
  | derived base fs =>
      obtain ⟨k, rfl⟩ : ∃ k', k = k' + 1 + base.depth :=
        ⟨k - 1 - base.depth, by simp [StructValue.depth] at hk; omega⟩
      have hbase := decodes_readLevelsLoop_bases hP base
        (fun fs' hfs' => h fs' (by simp [StructValue.levels, hfs'])) bound
        (fun fs' hfs' => hbound fs' (by simp [StructValue.levels, hfs'])) (k + 1) _ _
        (hlast fs k (by simp [StructValue.levels]))
      rw [StructValue.encodeBody, StructValue.levels]
      simpa using hbase

end

theorem decodes_nothing : Decodes (pure () : Reader Unit) [] (pure ()) := Decodes.pure ()

/-- A reader and a writer of the same protocol. -/
structure TaggedProtocol where
  reader : ProtocolReader
  writer : ProtocolWriter
  decodes_structBegin (length : UInt32) :
    Decodes (reader.readStructBegin false) (outputBytes (writer.lengthBegin length)) (pure ())
  decodes_structBegin_base : Decodes (reader.readStructBegin true) [] (pure ())
  decodes_fieldBegin (type : BondDataType) (id : UInt16) (h : type.isValue = true) :
    Decodes reader.readFieldBegin (outputBytes (writer.writeFieldBegin type id)) (pure (type, id))
  decodes_structEnd (base : Bool) :
    Decodes reader.readFieldBegin (stopBytes base)
      (pure (if base then .stopBase else .stop, 0))
  decodes_containerBegin (size : UInt32) (type : BondDataType) (h : type.isValue = true) :
    Decodes reader.readContainerBegin (outputBytes (writer.writeContainerBegin size type))
      (pure (size.toNat, type))
  decodes_containerBeginPair (size : UInt32) (key element : BondDataType)
    (hkey : key.isValue = true) (helement : element.isValue = true) :
    Decodes reader.readContainerBeginPair
      (outputBytes (writer.writeContainerBeginPair size key element))
      (pure (size.toNat, key, element))
  decodes_read (value : BasicValue) (h : value.wellFormed = true) :
    Decodes (reader.read value.type) (outputBytes (writer.write value)) (pure value)
  decodes_skip (value : Value) (h : value.wellFormed = true) :
    Decodes (reader.skip value.typeId) (value.encode writer) (pure ())

namespace TaggedProtocol

variable (P : TaggedProtocol)

theorem decodesFields : DecodesFields P.writer P.reader.readFieldBegin where
  begin_ := P.decodes_fieldBegin
  end_ := P.decodes_structEnd

/-! ## Reading a value as the payload describes it -/

/-- Read a value of a given type, guided by the payload alone. Every nested value is behind a
    header, so `fuel` bounds the depth if it exceeds the number of bytes left. -/
def readValue : Nat → BondDataType → Reader Value
  | 0, _ => eofException 1
  | fuel + 1, type =>
      match type with
      | .basic b => Value.basic <$> P.reader.read b
      | .list => do
          let (size, element) ← P.reader.readContainerBegin
          let items ← repeatN size (readValue fuel element)
          return .list .list element items
      | .set => do
          let (size, element) ← P.reader.readContainerBegin
          let items ← repeatN size (readValue fuel element)
          return .list .set element items
      | .map => do
          let (size, key, element) ← P.reader.readContainerBeginPair
          let items ← repeatN size do
            let k ← readValue fuel key
            let v ← readValue fuel element
            return (k, v)
          return .map key element items
      | .struct => do
          P.reader.readStructBegin false
          let levels ← readLevelsLoop P.reader.readFieldBegin
            (fun id type => do return (id, ← readValue fuel type)) (fuel + 1) (fuel + 1)
          return .struct (.ofLevels levels)
      | _ => bondThrow .undefinedBehavior

/-- Read a value of a type from a payload. -/
def readPayload (type : BondDataType) : Reader Value := do
  let left ← remainingLength
  P.readValue (left + 1) type

theorem decodes_readValue : ∀ v : Value, v.wellFormed = true → ∀ fuel,
    (v.encode P.writer).length < fuel →
      Decodes (P.readValue fuel v.typeId) (v.encode P.writer) (pure v) := by
  refine wellFormed_induct ?_ ?_ ?_ ?_
  · intro v hv fuel hfuel
    obtain ⟨fuel, rfl⟩ : ∃ fuel', fuel = fuel' + 1 := ⟨fuel - 1, by omega⟩
    rw [Value.encode, Value.typeId, readValue]
    exact (P.decodes_read v hv).map Value.basic
  · intro kind element items hlen helement ih fuel hfuel
    obtain ⟨fuel, rfl⟩ : ∃ fuel', fuel = fuel' + 1 := ⟨fuel - 1, by omega⟩
    have hpos := P.writer.containerBegin_pos (UInt32.ofNat items.length) element
    rw [Value.encode, List.length_append] at hfuel
    have hheader := P.decodes_containerBegin (UInt32.ofNat items.length) element helement
    rw [UInt32.toNat_ofNat_of_lt' hlen] at hheader
    have hitems : Decodes (repeatN items.length (P.readValue fuel element))
        (encodeItems P.writer items) (pure items) := by
      rw [encodeItems_eq]
      refine Decodes.repeatN_self items fun v hv => ?_
      obtain ⟨rfl, hwf, hread⟩ := ih v hv
      have hle := encode_item_length_le P.writer hv
      exact hread fuel (by omega)
    rw [Value.encode, Value.typeId]
    cases kind <;> exact hheader.bind_pure (hitems.bind_return _)
  · intro key element items hlen hkey helement ih fuel hfuel
    obtain ⟨fuel, rfl⟩ : ∃ fuel', fuel = fuel' + 1 := ⟨fuel - 1, by omega⟩
    have hpos := P.writer.containerBeginPair_pos (UInt32.ofNat items.length) key element
    rw [Value.encode, List.length_append] at hfuel
    have hheader := P.decodes_containerBeginPair (UInt32.ofNat items.length) key element
      (BondDataType.isValue_of_isBasic hkey) helement
    rw [UInt32.toNat_ofNat_of_lt' hlen] at hheader
    have hitems : Decodes (repeatN items.length (do
          let k ← P.readValue fuel key
          let v ← P.readValue fuel element
          return (k, v))) (encodePairs P.writer items) (pure items) := by
      rw [encodePairs_eq]
      refine Decodes.repeatN_self items fun kv hkv => ?_
      obtain ⟨⟨rfl, hkwf, hkread⟩, rfl, hvwf, hvread⟩ := ih kv hkv
      have hle := encode_pair_length_le P.writer hkv
      exact (hkread fuel (by omega)).bind_pure
        ((hvread fuel (by omega)).bind_return fun v => (kv.1, v))
    rw [Value.encode, Value.typeId, readValue]
    exact hheader.bind_pure (hitems.bind_return _)
  · intro s hs ih fuel hfuel
    obtain ⟨fuel, rfl⟩ : ∃ fuel', fuel = fuel' + 1 := ⟨fuel - 1, by omega⟩
    have hlen := hfuel
    rw [encode_struct, List.length_append, List.length_append, stopBytes_length] at hlen
    have hlevels : Decodes (readLevelsLoop P.reader.readFieldBegin
          (fun id type => do return (id, ← P.readValue fuel type)) (fuel + 1) (fuel + 1))
        (s.encodeBody P.writer ++ stopBytes false) (pure (s.levels.map (List.map id))) := by
      refine decodes_readLevelsLoop P.decodesFields s (fun fs hfs f hf => ?_) _
        (fun fs hfs => ?_) _ ?_
      · have hlt := field_encode_length_lt P.writer hfs hf
        exact ((ih fs hfs f hf).2 fuel (by omega)).bind_return fun v => (f.1, v)
      · have hcount := fields_length_le P.writer fs
        have hle := encodeFields_length_le P.writer hfs
        omega
      · have hle := depth_le P.writer s
        omega
    have hread := hlevels.bind_return fun levels => Value.struct (.ofLevels levels)
    rw [List.map_id_fun, List.map_id, StructValue.ofLevels_levels] at hread
    rw [encode_struct, Value.typeId, readValue]
    exact (P.decodes_structBegin _).bind_pure hread

/-- The round trip through any tagged protocol. -/
theorem decodes_readPayload (v : Value) (h : v.wellFormed = true) :
    Decodes (P.readPayload v.typeId) (v.encode P.writer) (pure v) := by
  refine decodes_remainingLength fun left hleft => ?_
  exact P.decodes_readValue v h (left + 1) (Nat.lt_succ_of_le hleft)

end TaggedProtocol

end Bond.Cpp

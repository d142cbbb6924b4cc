import Bond.Cpp.DoublePass
import Bond.Cpp.FieldTransforms

set_option autoImplicit false

/-! # The transform that serializes

`Serializer` (cpp/inc/bond/core/transforms.h), applied to a payload of a tagged protocol: what it calls
on a protocol writer for the values that the parser hands it. -/

namespace Bond.Cpp

open Decoder InputBuffer

/-! ## Unknown values -/

/-- `GetRuntimeSchema<Unknown>()` -/
def unknownSchema : SchemaDef 1 where
  structs _ :=
    { metadata := { name := "Unknown", qualifiedName := "bond.Unknown", modifier := .optional }
      baseDef := none
      fields := []
      increasing := StructDef.increasing_nil }
  root := 0
  size_le := SchemaDef.one_le

/-- The schema of a value of which the payload alone says the type: nothing is known of the elements of
    a container, or of a struct. -/
def unknownType : BondDataType → TypeDef 1
  | .basic T => .basic T
  | .list => .list (.struct 0 false)
  | .set => .set (.struct 0 false)
  | .map => .map (.struct 0 false) (.struct 0 false)
  | _ => .struct 0 false

/-! ## Serializer -/

/-- What `PassThrough` copies of the input: everything that is skipped. -/
def skippedBytes (skip : Reader Unit) : Reader (List UInt8) := do
  let before ← get
  skip
  let after ← get
  return before.remaining.take (after.pointer - before.pointer)

section

variable (R : ProtocolReader) (pass : Bool)
  (write : ∀ n, SchemaDef n → SchemaTime → TypeDef n → Reader (List WriterCall))

/-- `Write` of a value that comes with nothing but its type -/
def writeUnknown (type : BondDataType) : Reader (List WriterCall) :=
  write 1 unknownSchema .runtime (unknownType type)

/-- `Write` of an element of a container, by the type in the payload -/
def writeElement {n : Nat} (S : SchemaDef n) (time : SchemaTime) (element : TypeDef n)
    (type : BondDataType) : Reader (List WriterCall) :=
  match type with
  | .basic T => write n S .compileTime (.basic T)
  | type => if type = element.id then write n S time element else writeUnknown write type

/-- Calls on the writer -/
def emit (calls : List WriterCall) : ParserM (List WriterCall) Unit :=
  modify (· ++ calls)

/-- `WriteField`, and `UnknownField` -/
def writeField (id : UInt16) (type : BondDataType) (write : Reader (List WriterCall)) :
    ParserM (List WriterCall) Unit := do
  emit [.writeFieldBegin type id]
  let calls ← onInput write
  emit calls

/-- `Serializer` for the fields of one level. In the tagged protocols nothing is written where a base
    begins, or for a field that is omitted. -/
def serializerFields {n : Nat} (S : SchemaDef n) (time : SchemaTime) (base : Bool) :
    Transform n (List WriterCall) where
  expectedDepth := 0xffff
  begin_ _ := emit (if base then [] else [.writeStructBegin false])
  end_ := emit [.writeStructEnd base]
  unknownEnd := emit [.writeStructEnd true]
  base _ := return false
  nonBasicTypeField f := writeField f.id f.type.id (write n S time f.type)
  basicTypeField id _ T := writeField id (.basic T) (write n S .compileTime (.basic T))
  unknownField id type := writeField id type (writeUnknown write type)
  omittedField _ := return ()

/-- `Serializer`. The levels of the hierarchy are bounded. -/
def serializer {n : Nat} (S : SchemaDef n) (time : SchemaTime) :
    Nat → Bool → Transform n (List WriterCall)
  | 0, base => (serializerFields write S time base).withBase fun _ =>
      onInput (bondThrow .undefinedBehavior)
  | k + 1, base => (serializerFields write S time base).withBase fun j => do
      let _ ← applyParser R (serializer S time k true) S time true j
      -- whether the struct ended with its base is not looked at
      return false

/-- `Apply` of the serializer to a struct or the base of one. With `pass` the writer is one of the same
    protocol and version as the reader, and the payload goes through as it is (`FastPassThrough`). -/
def serializeStruct {n : Nat} (S : SchemaDef n) (time : SchemaTime) (base : Bool) (i : Fin n) :
    Reader (List WriterCall) :=
  if pass then do
    let bytes ← skippedBytes (R.skip .struct)
    return [.writeRange bytes]
  else do
    let (_, calls) ← (applyParser R (serializer R write S time n base) S time base i).run []
    return calls

end

section

variable (R : ProtocolReader) (pass : Bool)

/-- `Serializer::Write` of a serialized value. `fuel` bounds the depth of the calls. -/
def serializeWithin :
    Nat → ∀ n, SchemaDef n → SchemaTime → TypeDef n → Reader (List WriterCall)
  | 0, _, _, _, _ => bondThrow .undefinedBehavior
  | fuel + 1, _, S, time, type =>
      match type with
      | .basic T => do
          let v ← R.read T
          return [.write v]
      | .list element | .set element => do
          let (size, type) ← R.readContainerBegin
          let items ← repeatN size (writeElement (serializeWithin fuel) S time element type)
          return .writeContainerBegin (UInt32.ofNat size) type :: items.flatten
      | .map _ element => do
          let (size, keyType, type) ← R.readContainerBeginPair
          match keyType with
          | .basic K => do
              let items ← repeatN size do
                let k ← R.read K
                let calls ← writeElement (serializeWithin fuel) S time element type
                return .write k :: calls
              return .writeContainerBeginPair (UInt32.ofNat size) (.basic K) type :: items.flatten
          | _ => return []
      | .struct i _ => serializeStruct R pass (serializeWithin fuel) S time false i

/-- `Serializer::Write` of a serialized value. Every nested value takes at least a byte more, so the
    bytes left bound the depth. -/
def serializeValue {n : Nat} (S : SchemaDef n) (time : SchemaTime) (type : TypeDef n) :
    Reader (List WriterCall) := do
  let left ← remainingLength
  serializeWithin R pass (left + 1) n S time type

end

/-! ## Calls for a value -/

mutual

/-- The calls for a value that is read from a payload of the protocol `W`. -/
def Value.transcoded (W : ProtocolWriter) (pass : Bool) : Value → List WriterCall
  | .basic v => [.write v]
  | .list _ element items =>
      .writeContainerBegin (UInt32.ofNat items.length) element :: itemsTranscoded W pass items
  | .map key element items =>
      .writeContainerBeginPair (UInt32.ofNat items.length) key element ::
        pairsTranscoded W pass items
  | .struct s =>
      if pass then [.writeRange ((Value.struct s).encode W)]
      else .writeStructBegin false :: (s.bodyTranscoded W pass ++ [.writeStructEnd false])
  | .bonded payload => [.writeRange payload]

def itemsTranscoded (W : ProtocolWriter) (pass : Bool) : List Value → List WriterCall
  | [] => []
  | v :: vs => v.transcoded W pass ++ itemsTranscoded W pass vs

def pairsTranscoded (W : ProtocolWriter) (pass : Bool) : List (Value × Value) → List WriterCall
  | [] => []
  | (k, v) :: kvs => (k.transcoded W pass ++ v.transcoded W pass) ++ pairsTranscoded W pass kvs

def fieldsTranscoded (W : ProtocolWriter) (pass : Bool) : List (UInt16 × Value) → List WriterCall
  | [] => []
  | (id, v) :: fs =>
      (.writeFieldBegin v.typeId id :: v.transcoded W pass) ++ fieldsTranscoded W pass fs

/-- The calls between the begin and the end of a struct. -/
def StructValue.bodyTranscoded (W : ProtocolWriter) (pass : Bool) : StructValue → List WriterCall
  | .root fields => fieldsTranscoded W pass fields
  | .derived base fields =>
      base.bodyTranscoded W pass ++ .writeStructEnd true :: fieldsTranscoded W pass fields

end

section

variable (W : ProtocolWriter) (pass : Bool)

theorem itemsTranscoded_eq (vs : List Value) :
    itemsTranscoded W pass vs = vs.flatMap (Value.transcoded W pass) := by
  induction vs with
  | nil => rfl
  | cons v vs ih => rw [itemsTranscoded, ih, List.flatMap_cons]

theorem pairsTranscoded_eq (kvs : List (Value × Value)) :
    pairsTranscoded W pass kvs =
      kvs.flatMap fun kv => kv.1.transcoded W pass ++ kv.2.transcoded W pass := by
  induction kvs with
  | nil => rfl
  | cons kv kvs ih => rw [pairsTranscoded, ih, List.flatMap_cons]

/-- The calls for a field. -/
def fieldTranscoded (p : UInt16 × Value) : List WriterCall :=
  .writeFieldBegin p.2.typeId p.1 :: p.2.transcoded W pass

theorem fieldsTranscoded_eq (fs : Fields) :
    fieldsTranscoded W pass fs = fs.flatMap (fieldTranscoded W pass) := by
  induction fs with
  | nil => rfl
  | cons f fs ih => rw [fieldsTranscoded, ih, List.flatMap_cons, fieldTranscoded]

/-- The calls for the levels in front of another one. -/
def basesTranscoded (levels : List Fields) : List WriterCall :=
  levels.flatMap fun fs => fieldsTranscoded W pass fs ++ [.writeStructEnd true]

/-- The calls for the levels behind another one. -/
def restTranscoded (levels : List Fields) : List WriterCall :=
  levels.flatMap fun fs => .writeStructEnd true :: fieldsTranscoded W pass fs

theorem basesTranscoded_append (front : List Fields) (fs : Fields) :
    basesTranscoded W pass (front ++ [fs]) =
      basesTranscoded W pass front ++ (fieldsTranscoded W pass fs ++ [.writeStructEnd true]) := by
  rw [basesTranscoded, List.flatMap_append, List.flatMap_singleton, basesTranscoded]

theorem bodyTranscoded_levels (s : StructValue) {fs : Fields} {rest : List Fields}
    (h : s.levels = fs :: rest) :
    s.bodyTranscoded W pass = fieldsTranscoded W pass fs ++ restTranscoded W pass rest := by
  induction s generalizing fs rest with
  | root fields =>
      cases h
      rw [StructValue.bodyTranscoded, restTranscoded, List.flatMap_nil, List.append_nil]
  | derived base fields ih =>
      obtain ⟨gs, front, hlevels⟩ := List.exists_cons_of_length_pos
        (Nat.lt_of_lt_of_eq base.depth_pos base.levels_length.symm)
      rw [StructValue.levels, hlevels, List.cons_append, List.cons.injEq] at h
      obtain ⟨rfl, rfl⟩ := h
      rw [StructValue.bodyTranscoded, ih hlevels, restTranscoded, restTranscoded,
        List.flatMap_append, List.flatMap_singleton, List.append_assoc]

/-- The calls for a struct, seen from any of its levels. -/
theorem bodyTranscoded_eq (s : StructValue) {front : List Fields} {fs : Fields}
    {rest : List Fields} (h : s.levels = front ++ fs :: rest) :
    s.bodyTranscoded W pass =
      basesTranscoded W pass front ++ fieldsTranscoded W pass fs ++ restTranscoded W pass rest := by
  have hjoin (g : Fields) (front : List Fields) :
      fieldsTranscoded W pass g ++ restTranscoded W pass (front ++ fs :: rest) =
        basesTranscoded W pass (g :: front) ++ fieldsTranscoded W pass fs
          ++ restTranscoded W pass rest := by
    induction front generalizing g with
    | nil => simp [basesTranscoded, restTranscoded]
    | cons g' front ih =>
        have htail := ih g'
        simp only [basesTranscoded, restTranscoded, List.cons_append, List.flatMap_cons,
          List.append_assoc, List.nil_append] at htail ⊢
        rw [htail]
  cases front with
  | nil => rw [bodyTranscoded_levels W pass s h, basesTranscoded, List.flatMap_nil, List.nil_append]
  | cons g front =>
      rw [List.cons_append] at h
      rw [bodyTranscoded_levels W pass s h, hjoin]

end

end Bond.Cpp

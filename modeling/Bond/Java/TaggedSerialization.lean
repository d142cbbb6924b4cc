import Mathlib.Data.List.ReduceOption
import Bond.Java.Completeness
import Bond.Java.FieldIds

set_option autoImplicit false

/-! # Serialization to a tagged protocol in Java

`serializeValue`, `serializeField` and `serializeSomethingField` of the `BondType`s
(java/core/src/main/java/org/bondlib) to the writer of a protocol with tags, and the object that its
reader fills. A field that is omitted is not in the payload at all, and keeps what the object was
initialized with. -/

namespace Bond.Java

open Bond.Cpp (BondDataType BasicType)
open Bond.Lib Bond.Managed
open StringHelper

/-! ## Struct descriptors -/

namespace StructDescriptor

/-- The fields of each level, the root of the hierarchy first. -/
def levels : StructDescriptor → List (List FieldDescriptor)
  | .root structFields => [structFields]
  | .derived baseStructType structFields => baseStructType.levels ++ [structFields]

/-- The descriptor without what its fields are initialized with. -/
def bondType : StructDescriptor → StructBondType
  | .root structFields => .root (structFields.map FieldDescriptor.toStructField)
  | .derived baseStructType structFields =>
      .derived baseStructType.bondType (structFields.map FieldDescriptor.toStructField)

end StructDescriptor

/-- The keys of maps are of primitive types. -/
def BondType.keysPrimitive : BondType → Bool
  | .vector e => e.keysPrimitive
  | .list e => e.keysPrimitive
  | .set e => e.keysPrimitive
  | .map (.primitive _) e => e.keysPrimitive
  | .map _ _ => false
  | .nullable e => e.keysPrimitive
  | _ => true

/-- What the compiler sees to: defaults are of the types of their fields, and no level has an
    ordinal twice. -/
structure StructDescriptor.Valid (descriptor : StructDescriptor) : Prop where
  wellFormed : ∀ field ∈ descriptor.fields, field.wellFormed = true
  keysPrimitive : ∀ field ∈ descriptor.fields, field.fieldType.keysPrimitive = true
  nodup : ∀ structFields ∈ descriptor.levels,
    (structFields.map fun field : FieldDescriptor => field.id).Nodup

/-! ## Serialization -/

namespace Tagged

/-- `serializeValue` for null -/
def serializeNull : BondType → Except Exception Value
  | .nullable valueType => .ok (.list .list valueType.getBondDataType [])
  | _ => .error .invalidBondData

/-- `serializeValue` of `NullableBondType` for a value other than null, and of the type of the value
    itself -/
def serializeNullable (serializeValue : BondType → Except Exception Value) :
    BondType → Except Exception Value
  | .nullable valueType => do
      let v ← serializeNullable serializeValue valueType
      return .list .list valueType.getBondDataType [v]
  | type => serializeValue type

/-- `serializeField`, with what `serializeValue` does for the value: the field that is written, if
    it is not omitted. `writeFieldOmitted` does nothing. -/
def serializeField (field : FieldDescriptor) (value : Datum) (serialized : Except Exception Value) :
    Except Exception (Option (UInt16 × Value)) :=
  if value.isNull && !field.fieldType.isNullableType then
    .error .invalidBondData
  else if field.omits value then
    .ok none
  else do
    return some (field.id, ← serialized)

/-- The fields that are written, level by level: `serializeValueAsBase` comes before the fields. -/
def arrange : StructDescriptor → List (Option (UInt16 × Value)) → StructValue
  | .root _, written => .root written.reduceOption
  | .derived baseStructType _, written =>
      .derived (arrange baseStructType (written.take baseStructType.fields.length))
        (written.drop baseStructType.fields.length).reduceOption

section

variable (types : Nat → StructDescriptor)

mutual

/-- `serializeValue`, as the value whose calls are made on the writer. No value has another type
    than that of its class, and a `Bonded` is none of the values here. -/
def serializeValue : Datum → BondType → Except Exception Value
  | .null => serializeNull
  | .primitive v => serializeNullable fun
      | .primitive _ => .ok (.basic v)
      | _ => .error .illegalArgument
  | .blob data => serializeNullable fun
      | .blob => .ok (.blob (.basic .int8) data)
      | _ => .error .illegalArgument
  | .collection elements => serializeNullable fun
      | .vector e | .list e => do
          return .list .list e.getBondDataType (← serializeElements elements e)
      | .set e => do
          return .list .set e.getBondDataType (← serializeElements elements e)
      | _ => .error .illegalArgument
  | .map entries => serializeNullable fun
      | .map k e => do
          return .map k.getBondDataType e.getBondDataType (← serializeEntries entries k e)
      | _ => .error .illegalArgument
  | .something _ => fun _ => .error .illegalArgument
  | .struct fields => serializeNullable fun
      | .struct index => do
          return .struct (arrange (types index)
            (← serializeStructFields fields (types index).fields))
      | _ => .error .illegalArgument
  | .bonded _ => fun _ => .error .illegalArgument

def serializeElements : List Datum → BondType → Except Exception (List Value)
  | [], _ => .ok []
  | d :: ds, e => do
      let v ← serializeValue d e
      return v :: (← serializeElements ds e)

def serializeEntries : List (Datum × Datum) → BondType → BondType →
    Except Exception (List (Value × Value))
  | [], _, _ => .ok []
  | (key, value) :: entries, k, e => do
      let mapEntryKey ← serializeValue key k
      let mapEntryValue ← serializeValue value e
      return (mapEntryKey, mapEntryValue) :: (← serializeEntries entries k e)

/-- `serializeStructFields` of a struct and its bases -/
def serializeStructFields : List Datum → List FieldDescriptor →
    Except Exception (List (Option (UInt16 × Value)))
  | .something value :: ds, field :: fields => do
      let written ← serializeField field value (serializeValue value field.fieldType)
      return written :: (← serializeStructFields ds fields)
  | d :: ds, field :: fields => do
      if field.isDefaultNothing then
        -- `serializeSomethingField` of null
        if field.isOptional then
          return none :: (← serializeStructFields ds fields)
        else
          .error .invalidBondData
      else
        let written ← serializeField field d (serializeValue d field.fieldType)
        return written :: (← serializeStructFields ds fields)
  | _, _ => .ok []

end

end

end Tagged

/-! ## The object that is filled -/

/-- A value that is read, with its strings decoded. -/
def decoded (r : Replacement) : Bond.Cpp.BasicValue → BasicValue
  | .string bytes => .string (decodeString r bytes)
  | .wstring units => .wstring
      (decodeWString r (units.flatMap fun unit => Varint.littleEndian 2 unit.toNat))
  | v => SimpleBinary.ofWire v

/-- `initialize` of a `StructField`. What a new instance of a struct is like is left open. -/
def FieldDescriptor.initializeField (newInstance : BondType → Datum) (field : FieldDescriptor) :
    Datum :=
  match field.fieldClass with
  | .something => .null
  | .valued defaultValue => .primitive defaultValue
  | .object =>
      match field.fieldType with
      | .primitive type => .primitive (newDefaultValue type)
      | .blob => .blob []
      | .vector _ | .list _ | .set _ => .collection []
      | .map _ _ => .map []
      | .nullable _ => .null
      | type => newInstance type

/-- What a field is set to: `Something.wrap` of the value if it is nothing by default. -/
def FieldDescriptor.wrap (field : FieldDescriptor) (value : Datum) : Datum :=
  if field.isDefaultNothing then .something value else value

/-- The fields of a level of an object, some of which have been set. -/
def assigned (newInstance : BondType → Datum) (structFields : List FieldDescriptor)
    (set : List (UInt16 × Datum)) : List Datum :=
  structFields.map fun field => (set.lookup field.id).getD (field.initializeField newInstance)

section

variable (r : Replacement) (newInstance : BondType → Datum) (types : Nat → StructDescriptor)

mutual

/-- What is deserialized, as a value of a type. -/
def Object.toDatum : Object → BondType → Datum
  | .primitive v, _ => .primitive (decoded r v)
  | .blob data, _ => .blob data
  | .collection elements, type =>
      match type.core.elementType with
      | some e => .collection (elementsToData elements e)
      | none => .null
  | .map entries, type =>
      match type.core with
      | .map k e => .map (entriesToData entries k e)
      | _ => .null
  | .null, _ => .null
  | .struct levels, type =>
      match type.core with
      | .struct index => .struct (levelsToData levels (types index).levels)
      | _ => .null
  | .bonded payload, _ => .bonded (some payload)

def elementsToData : List Object → BondType → List Datum
  | [], _ => []
  | o :: os, e => o.toDatum e :: elementsToData os e

def entriesToData : List (Object × Object) → BondType → BondType → List (Datum × Datum)
  | [], _, _ => []
  | (key, value) :: os, k, e => (key.toDatum k, value.toDatum e) :: entriesToData os k e

def levelsToData : List (List (UInt16 × Object)) → List (List FieldDescriptor) → List Datum
  | level :: levels, structFields :: descriptors =>
      assigned newInstance structFields (fieldsToData level structFields)
        ++ levelsToData levels descriptors
  | _, _ => []

/-- The fields of a level that are set. -/
def fieldsToData : List (UInt16 × Object) → List FieldDescriptor → List (UInt16 × Datum)
  | [], _ => []
  | (id, o) :: os, structFields =>
      match structFields.find? fun field => field.id = id with
      | some field => (id, field.wrap (o.toDatum field.fieldType)) :: fieldsToData os structFields
      | none => fieldsToData os structFields

end

end

end Bond.Java

import Bond.Java.SkipExact

set_option autoImplicit false

/-! # Deserialization by type descriptors in Java

`deserializeValue` and `deserializeField` of the `BondType`s (java/core/src/main/java/org/bondlib)
from a tagged reader, and the `deserializeStructFields` that the compiler generates for a struct
(compiler/src/Language/Bond/Codegen/Java/Class_java.hs). A reader goes over the levels of a type,
not over those of the payload: one loop over fields for each base and one for the struct itself,
each of them up to the next end marker, whichever it is. -/

namespace Bond.Java

open Bond.Cpp (BondDataType BasicType ListKind)
open Bond.Lib Bond.Managed
open Decoder

/-! ## Type descriptors -/

inductive Modifier where
  | optional
  | required
  | requiredOptional
deriving DecidableEq, Repr

/-- A type descriptor. Structs are given by their index in a table, and an enum is the `int32` that it
    is read from. -/
inductive BondType where
  | primitive (type : BasicType)
  | blob
  | vector (elementType : BondType)
  | list (elementType : BondType)
  | set (elementType : BondType)
  | map (keyType valueType : BondType)
  | nullable (valueType : BondType)
  | struct (index : Nat)
  | bonded (index : Nat)
deriving DecidableEq, Repr

/-- `getBondDataType` -/
def BondType.getBondDataType : BondType → BondDataType
  | .primitive type => .basic type
  | .blob => .list
  | .vector _ => .list
  | .list _ => .list
  | .set _ => .set
  | .map _ _ => .map
  | .nullable _ => .list
  | .struct _ => .struct
  | .bonded _ => .struct

structure StructField where
  fieldType : BondType
  id : UInt16
  modifier : Modifier
deriving DecidableEq, Repr

/-- The descriptor of a struct: its fields, and those of its bases. -/
inductive StructBondType where
  | root (structFields : List StructField)
  | derived (baseStructType : StructBondType) (structFields : List StructField)
deriving DecidableEq, Repr

/-- The fields of each level, the root of the hierarchy first. -/
def StructBondType.levels : StructBondType → List (List StructField)
  | .root structFields => [structFields]
  | .derived baseStructType structFields => baseStructType.levels ++ [structFields]

/-- The field that a `switch` on the id of a field selects. -/
def findField (structFields : List StructField) (id : UInt16) : Option StructField :=
  structFields.find? fun field => field.id = id

/-! ## Objects -/

/-- What is deserialized. A collection is given by the elements in the order in which they were added
    to it, a map likewise, a struct by the fields that were set at each level (all others keep their
    defaults) and a `Bonded` by the bytes that its reader was positioned at. -/
inductive Object where
  | primitive (v : Bond.Cpp.BasicValue)
  | blob (data : List UInt8)
  | collection (elements : List Object)
  | map (entries : List (Object × Object))
  | null
  | struct (levels : List (List (UInt16 × Object)))
  | bonded (payload : List UInt8)

/-! ## Fields of primitive types -/

/-- The other types that a field of a primitive type may be deserialized from. -/
def widened : BasicType → List BasicType
  | .int16 => [.int8]
  | .int32 => [.int16, .int8]
  | .int64 => [.int32, .int16, .int8]
  | .uint16 => [.uint8]
  | .uint32 => [.uint16, .uint8]
  | .uint64 => [.uint32, .uint16, .uint8]
  | .double => [.float]
  | _ => []

/-- The conversion of a value that was read for a field of another type. Unsigned integers are kept
    in signed types, which extend the sign. -/
def widen : BasicType → Bond.Cpp.BasicValue → Bond.Cpp.BasicValue
  | .int16, .int8 v => .int16 v.toInt16
  | .int32, .int16 v => .int32 v.toInt32
  | .int32, .int8 v => .int32 v.toInt32
  | .int64, .int32 v => .int64 v.toInt64
  | .int64, .int16 v => .int64 v.toInt64
  | .int64, .int8 v => .int64 v.toInt64
  | .uint16, .uint8 v => .uint16 v.toInt8.toInt16.toUInt16
  | .uint32, .uint16 v => .uint32 v.toInt16.toInt32.toUInt32
  | .uint32, .uint8 v => .uint32 v.toInt8.toInt32.toUInt32
  | .uint64, .uint32 v => .uint64 v.toInt32.toInt64.toUInt64
  | .uint64, .uint16 v => .uint64 v.toInt16.toInt64.toUInt64
  | .uint64, .uint8 v => .uint64 v.toInt8.toInt64.toUInt64
  | .double, .float bits => .double (Float32.ofBits bits).toFloat.toBits
  | _, v => v

/-! ## Deserialization -/

section

variable (reader : TaggedProtocolReader)

/-- `deserializePrimitiveField` of the primitive types -/
def deserializePrimitiveField (type : BasicType) (wireType : BondDataType) : Reader Object :=
  match wireType with
  | .basic b =>
      if b = type then
        Object.primitive <$> reader.read type
      else if b ∈ widened type then
        (fun v => Object.primitive (widen type v)) <$> reader.read b
      else
        throwException .invalidBondData
  | _ => throwException .invalidBondData

/-- `newDefaultValue(count)` of a vector: `ArrayList` does not take a negative capacity. -/
def newArrayList (count : Int32) : Reader Unit :=
  if count < 0 then throwException .illegalArgument else pure ()

/-- `newDefaultValue` of a list or a set, which do not use the count -/
def newEmpty (_ : Int32) : Reader Unit :=
  pure ()

/-- `deserializeValue` of `VectorBondType`, `ListBondType` and `SetBondType`, given that of the
    elements -/
def deserializeElements (newDefaultValue : Int32 → Reader Unit) (elementType : BondDataType)
    (deserializeElement : Reader Object) : Reader Object := do
  let (wireType, count) ← reader.readListBegin
  if wireType ≠ elementType then
    throwException .invalidBondData
  else do
    newDefaultValue count
    return .collection (← repeatN (turns count) deserializeElement)

/-- `deserializeValue` of `MapBondType` -/
def deserializeMap (keyType valueType : BondDataType)
    (deserializeKey deserializeElement : Reader Object) : Reader Object := do
  let (wireKey, wireValue, count) ← reader.readMapBegin
  if wireKey ≠ keyType then
    throwException .invalidBondData
  else if wireValue ≠ valueType then
    throwException .invalidBondData
  else
    let entries ← repeatN (turns count) do
      let mapEntryKey ← deserializeKey
      let mapEntryValue ← deserializeElement
      return (mapEntryKey, mapEntryValue)
    return .map entries

/-- `deserializeValue` of `NullableBondType` -/
def deserializeNullable (valueType : BondDataType) (deserializeElement : Reader Object) :
    Reader Object := do
  let (wireType, count) ← reader.readListBegin
  if wireType ≠ valueType then
    throwException .invalidBondData
  else if count = 1 then
    deserializeElement
  else if count > 1 then
    throwException .invalidBondData
  else
    return .null

/-- `deserializeValue` of `BlobBondType` -/
def deserializeBlob : Reader Object := do
  let (wireType, count) ← reader.readListBegin
  if wireType ≠ .basic .int8 then
    throwException .invalidBondData
  else
    return .blob (← reader.readBytes count)

/-- `deserializeValue` of `BondedBondType`: the reader is cloned, then skips the struct. -/
def deserializeBonded : Reader Object := do
  let payload ← get
  reader.skip .struct
  let rest ← get
  return .bonded (payload.take (payload.length - rest.length))

/-- The loop of `deserializeStructFields`, given `deserializeField` of the type of a field. `seen`
    holds the ids for which the flag `__has_` is set. Every turn takes a byte at least. -/
def readFields (structFields : List StructField)
    (deserializeField : BondType → BondDataType → Reader Object) :
    Nat → List UInt16 → Reader (List (UInt16 × Object))
  | 0, _ => throwException .endOfFile
  | bound + 1, seen => do
      let (type, id) ← reader.readFieldBegin
      -- `readField` takes the end of the struct and the end of a base alike
      if type = .stop ∨ type = .stopBase then
        return []
      else
        match findField structFields id with
        | some field =>
            if id ∈ seen then
              throwException .invalidBondData
            else
              let o ← deserializeField field.fieldType type
              return (id, o) :: (← readFields structFields deserializeField bound (id :: seen))
        | none => do
            reader.skip type
            readFields structFields deserializeField bound seen

/-- `verifyDeserialized` of all fields -/
def verifyDeserialized (structFields : List StructField) (ids : List UInt16) : Bool :=
  structFields.all fun field => field.modifier ≠ .required || field.id ∈ ids

/-- `deserializeStructFields` -/
def deserializeStructFields (structFields : List StructField)
    (deserializeField : BondType → BondDataType → Reader Object) (bound : Nat) :
    Reader (List (UInt16 × Object)) := do
  let fields ← readFields reader structFields deserializeField bound []
  if verifyDeserialized structFields (fields.map Prod.fst) then
    return fields
  else
    throwException .invalidBondData

/-- `deserializeValueAsBase`, and what `deserializeValue` of a struct does behind `readStructBegin` -/
def deserializeValueAsBase (deserializeField : BondType → BondDataType → Reader Object)
    (bound : Nat) : StructBondType → Reader (List (List (UInt16 × Object)))
  | .root structFields => do
      return [← deserializeStructFields reader structFields deserializeField bound]
  | .derived baseStructType structFields => do
      let levels ← deserializeValueAsBase deserializeField bound baseStructType
      let fields ← deserializeStructFields reader structFields deserializeField bound
      return levels ++ [fields]

/-- `deserializeField`, given `deserializeValue` -/
def deserializeField (deserializeValue : BondType → Reader Object) (fieldType : BondType)
    (wireType : BondDataType) : Reader Object :=
  match fieldType with
  | .primitive type => deserializePrimitiveField reader type wireType
  | _ =>
      if wireType ≠ fieldType.getBondDataType then
        throwException .invalidBondData
      else
        deserializeValue fieldType

variable (types : Nat → StructBondType)

/-- `deserializeValue`. Every nested call comes after at least a byte, so `fuel` bounds the depth if
    it exceeds the number of bytes left. -/
def deserializeWithin : Nat → BondType → Reader Object
  | 0, _ => throwException .endOfFile
  | fuel + 1, type =>
      match type with
      | .primitive b => Object.primitive <$> reader.read b
      | .blob => deserializeBlob reader
      | .vector e =>
          deserializeElements reader newArrayList e.getBondDataType (deserializeWithin fuel e)
      | .list e =>
          deserializeElements reader newEmpty e.getBondDataType (deserializeWithin fuel e)
      | .set e =>
          deserializeElements reader newEmpty e.getBondDataType (deserializeWithin fuel e)
      | .map k e =>
          deserializeMap reader k.getBondDataType e.getBondDataType (deserializeWithin fuel k)
            (deserializeWithin fuel e)
      | .nullable e => deserializeNullable reader e.getBondDataType (deserializeWithin fuel e)
      | .struct index => do
          reader.readStructBegin
          let levels ← deserializeValueAsBase reader
            (deserializeField reader (deserializeWithin fuel)) (fuel + 1) (types index)
          return .struct levels
      | .bonded _ => deserializeBonded reader

/-- `deserializeValue`, and `deserialize` of a struct -/
def deserializeValue (type : BondType) : Reader Object := do
  let left ← available
  deserializeWithin reader types (left + 1) type

end

end Bond.Java

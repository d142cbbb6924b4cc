import Bond.Java.SimpleBinary
import Bond.Java.BondTypes

set_option autoImplicit false

/-! # Serialization by type descriptors in Java

`serializeValue`, `serializeField` and `serializeSomethingField` of the `BondType`s
(java/core/src/main/java/org/bondlib) to a `SimpleBinaryWriter`. Whether a field is omitted is
decided in the same methods for all protocols. -/

namespace Bond.Java

open Bond.Cpp (BondDataType BasicType)
open Bond.Cpp.CompactBinary (Version)
open Bond.Lib Bond.Managed
open SimpleBinary

/-! ## Fields with their defaults -/

/-- The classes of `StructField`s, by what a field is initialized with. -/
inductive FieldClass where
  /-- `ObjectStructField`: with a new default value of its type -/
  | object
  /-- `SomethingObjectStructField`, `SomethingInt32StructField`, …: with nothing -/
  | something
  /-- `Int32StructField`, `StringStructField`, `EnumStructField`, …: with the default in the
      schema -/
  | valued (defaultValue : BasicValue)
deriving DecidableEq, Repr

structure FieldDescriptor extends StructField where
  fieldClass : FieldClass
deriving DecidableEq, Repr

/-- The descriptor of a struct: its fields, and those of its bases. -/
inductive StructDescriptor where
  | root (structFields : List FieldDescriptor)
  | derived (baseStructType : StructDescriptor) (structFields : List FieldDescriptor)
deriving DecidableEq, Repr

/-- All fields, those of the bases first. -/
def StructDescriptor.fields : StructDescriptor → List FieldDescriptor
  | .root structFields => structFields
  | .derived baseStructType structFields => baseStructType.fields ++ structFields

/-- `newDefaultValue` of a primitive type -/
def newDefaultValue : BasicType → BasicValue
  | .bool => .bool false
  | .uint8 => .uint8 0
  | .uint16 => .uint16 0
  | .uint32 => .uint32 0
  | .uint64 => .uint64 0
  | .float => .float 0
  | .double => .double 0
  | .string => .string []
  | .int8 => .int8 0
  | .int16 => .int16 0
  | .int32 => .int32 0
  | .int64 => .int64 0
  | .wstring => .wstring []

namespace FieldDescriptor

def isOptional (field : FieldDescriptor) : Bool :=
  field.modifier = .optional

def isDefaultNothing (field : FieldDescriptor) : Bool :=
  field.fieldClass = .something

/-- `getDefaultValue` of a field of a primitive type; `none` is Java's null. -/
def getDefaultValue (field : FieldDescriptor) (type : BasicType) : Option BasicValue :=
  match field.fieldClass with
  | .object => some (newDefaultValue type)
  | .something => none
  | .valued defaultValue => some defaultValue

end FieldDescriptor

/-- `Metadata.default_value`: the default of a field, which `SchemaHelper` takes back from the
    member of the variant that is for its type. -/
structure Variant where
  nothing : Bool
  value : BasicType → BasicValue

/-- `initializeSchemaVariantWithDefaultValue` -/
def initializeSchemaVariantWithDefaultValue (field : FieldDescriptor) : Variant where
  nothing := field.isDefaultNothing
  value type := (field.getDefaultValue type).getD (newDefaultValue type)

/-! ## Values -/

/-- A value of a field or an element. A nullable value is null or the value itself; a collection is
    given by its elements in the order in which they are iterated, a struct by its fields, those of
    its bases first, and a `Bonded` by what `Marshal.marshal` writes for it, if it does not
    throw. -/
inductive Datum where
  | null
  | primitive (v : BasicValue)
  | blob (data : List UInt8)
  | collection (elements : List Datum)
  | map (entries : List (Datum × Datum))
  | something (value : Datum)
  | struct (fields : List Datum)
  | bonded (marshaled : Option (List UInt8))

def Datum.isNull : Datum → Bool
  | .null => true
  | _ => false

/-- `isNullableType` -/
def BondType.isNullableType : BondType → Bool
  | .nullable _ => true
  | _ => false

/-! ## Omission -/

/-- `Float.floatToIntBits`, which makes all NaNs one -/
def floatToIntBits (bits : UInt32) : UInt32 :=
  if 0x7F800000 < bits &&& 0x7FFFFFFF then 0x7FC00000 else bits

/-- `Double.doubleToLongBits` -/
def doubleToLongBits (bits : UInt64) : UInt64 :=
  if 0x7FF0000000000000 < bits &&& 0x7FFFFFFFFFFFFFFF then 0x7FF8000000000000 else bits

/-- `==`, or `floatEquals` and `doubleEquals` of `FloatingPointHelper` -/
def primitiveEquals : BasicValue → BasicValue → Bool
  | .float a, .float b => floatToIntBits a = floatToIntBits b
  | .double a, .double b => doubleToLongBits a = doubleToLongBits b
  | a, b => a = b

namespace FieldDescriptor

variable (field : FieldDescriptor)

/-- The test in `serializePrimitiveField` of the numbers and of `bool`, and in `serializeField` of
    an enum -/
def omitsPrimitive (v : BasicValue) : Bool :=
  !field.isDefaultNothing && field.isOptional
    && (field.getDefaultValue v.type).any fun defaultValue => primitiveEquals v defaultValue

/-- The test in `serializeField` of `StringBondType` and `WStringBondType` -/
def omitsString (v : BasicValue) : Bool :=
  field.isOptional && field.getDefaultValue v.type = some v

/-- The test in `serializeField` of `BlobBondType` -/
def omitsBlob (data : List UInt8) : Bool :=
  data.length = 0 && field.isOptional

/-- The test in `serializeField` of `VectorBondType`, `ListBondType`, `SetBondType` and
    `MapBondType` -/
def omitsContainer (count : Nat) : Bool :=
  !field.isDefaultNothing && count = 0 && field.isOptional

/-- The test in `serializeField` of `NullableBondType` -/
def omitsNullable (value : Datum) : Bool :=
  !field.isDefaultNothing && value.isNull && field.isOptional

/-- Whether `serializeField` of the type of the field omits a value. Structs and `bonded`s are never
    omitted. -/
def omits (value : Datum) : Bool :=
  match field.fieldType, value with
  | .nullable _, value => field.omitsNullable value
  | .primitive _, .primitive (.string chars) => field.omitsString (.string chars)
  | .primitive _, .primitive (.wstring chars) => field.omitsString (.wstring chars)
  | .primitive _, .primitive v => field.omitsPrimitive v
  | .blob, .blob data => field.omitsBlob data
  | .vector _, .collection elements => field.omitsContainer elements.length
  | .list _, .collection elements => field.omitsContainer elements.length
  | .set _, .collection elements => field.omitsContainer elements.length
  | .map _ _, .map entries => field.omitsContainer entries.length
  | _, _ => false

end FieldDescriptor

/-! ## Serialization -/

section

variable (protocolVersion : Version)

/-- `writeFieldOmitted` of `SimpleBinaryWriter`: the default is written instead. -/
def writeFieldOmitted (type : BondDataType) (default : Variant) :
    Except Exception (List UInt8) :=
  if default.nothing then
    .error .illegalArgument
  else
    match type with
    | .basic b => .ok (write protocolVersion (default.value b))
    | .list => .ok (writeLength protocolVersion 0)
    | .set => .ok (writeLength protocolVersion 0)
    | .map => .ok (writeLength protocolVersion 0)
    | _ => .error .illegalArgument

/-- `serializeValue` for null: all types but `NullableBondType` verify that it is not. -/
def serializeNull : BondType → Except Exception (List UInt8)
  | .nullable _ => .ok (writeLength protocolVersion 0)
  | _ => .error .invalidBondData

/-- `serializeValue` of `NullableBondType` for a value other than null, and of the type of the value
    itself -/
def serializeNullable (serializeValue : BondType → Except Exception (List UInt8)) :
    BondType → Except Exception (List UInt8)
  | .nullable valueType => do
      let bytes ← serializeNullable serializeValue valueType
      return writeLength protocolVersion 1 ++ bytes
  | type => serializeValue type

/-- `serializeField`, with what `serializeValue` does for the value -/
def serializeField (field : FieldDescriptor) (value : Datum)
    (serialized : Except Exception (List UInt8)) : Except Exception (List UInt8) :=
  if value.isNull && !field.fieldType.isNullableType then
    .error .invalidBondData
  else if field.omits value then
    writeFieldOmitted protocolVersion field.fieldType.getBondDataType
      (initializeSchemaVariantWithDefaultValue field)
  else
    serialized

/-- `serializeValue` of `BondedBondType`: the payload is marshaled, and its length goes first. -/
def serializeBonded : Option (List UInt8) → Except Exception (List UInt8)
  | none => .error .invalidBondData
  | some marshaled =>
      .ok (write protocolVersion (.uint32 (UInt32.ofNat marshaled.length)) ++ marshaled)

variable (types : Nat → StructDescriptor)

mutual

/-- `serializeValue`. No value has another type than that of its class. -/
def serializeValue : Datum → BondType → Except Exception (List UInt8)
  | .null => serializeNull protocolVersion
  | .primitive v => serializeNullable protocolVersion fun
      | .primitive _ => .ok (write protocolVersion v)
      | _ => .error .illegalArgument
  | .blob data => serializeNullable protocolVersion fun
      | .blob => .ok (writeLength protocolVersion (Int32.ofNat data.length) ++ data)
      | _ => .error .illegalArgument
  | .collection elements => serializeNullable protocolVersion fun
      | .vector e | .list e | .set e => do
          let bytes ← serializeElements elements e
          return writeLength protocolVersion (Int32.ofNat elements.length) ++ bytes
      | _ => .error .illegalArgument
  | .map entries => serializeNullable protocolVersion fun
      | .map k e => do
          let bytes ← serializeEntries entries k e
          return writeLength protocolVersion (Int32.ofNat entries.length) ++ bytes
      | _ => .error .illegalArgument
  | .something _ => fun _ => .error .illegalArgument
  | .struct fields => serializeNullable protocolVersion fun
      | .struct index => serializeStructFields fields (types index).fields
      | _ => .error .illegalArgument
  | .bonded marshaled => serializeNullable protocolVersion fun
      | .bonded _ => serializeBonded protocolVersion marshaled
      | _ => .error .illegalArgument

def serializeElements : List Datum → BondType → Except Exception (List UInt8)
  | [], _ => .ok []
  | d :: ds, e => do
      let bytes ← serializeValue d e
      return bytes ++ (← serializeElements ds e)

def serializeEntries : List (Datum × Datum) → BondType → BondType →
    Except Exception (List UInt8)
  | [], _, _ => .ok []
  | (key, value) :: entries, k, e => do
      let keyBytes ← serializeValue key k
      let valueBytes ← serializeValue value e
      return keyBytes ++ valueBytes ++ (← serializeEntries entries k e)

/-- `serializeStructFields` of a struct and its bases -/
def serializeStructFields : List Datum → List FieldDescriptor → Except Exception (List UInt8)
  | .something value :: ds, field :: fields => do
      let bytes ← serializeField protocolVersion field value (serializeValue value field.fieldType)
      return bytes ++ (← serializeStructFields ds fields)
  | d :: ds, field :: fields => do
      if field.isDefaultNothing then
        -- `serializeSomethingField` of null
        if field.isOptional then
          serializeStructFields ds fields
        else
          .error .invalidBondData
      else
        let bytes ← serializeField protocolVersion field d (serializeValue d field.fieldType)
        return bytes ++ (← serializeStructFields ds fields)
  | _, _ => .ok []

end

end

end Bond.Java

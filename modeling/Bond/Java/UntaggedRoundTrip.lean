import Bond.Java.Completeness
import Bond.Java.Slicing

set_option autoImplicit false

/-! # Untagged round trips in Java

`deserializeValue` of the `BondType`s from a `SimpleBinaryReader` with the schema of the type
itself, and what of a value it brings back. All fields are read one after the other, so a field that
is not written takes its value from the bytes of the next one. -/

namespace Bond.Java

open Bond.Cpp (BondDataType BasicType)
open Bond.Cpp.CompactBinary (Version)
open Bond.Lib Bond.Managed
open Decoder
open SimpleBinary StringHelper BinaryStreamReader

/-! ## Deserialization -/

/-- `Unmarshal.unmarshal`: the protocol and the version that a payload begins with. -/
def unmarshal (payload : List UInt8) : Except Exception Unit :=
  match payload with
  | p₀ :: p₁ :: v₀ :: v₁ :: _ =>
      let protocol := Varint.ofLittleEndian [p₀, p₁]
      let version := Varint.ofLittleEndian [v₀, v₁]
      -- `ProtocolType` of Compact, Simple and Fast Binary
      if protocol = 0x4243 ∨ protocol = 0x5053 then
        if version = 1 ∨ version = 2 then .ok () else .error .illegalArgument
      else if protocol = 0x4D46 then
        if version = 1 then .ok () else .error .illegalArgument
      else
        .error .invalidBondData
  | _ => .error .endOfFile

section

variable (protocolVersion : Version) (r : Replacement)

/-- `deserializeValue` of `VectorBondType`, `ListBondType` and `SetBondType`, given that of the
    elements -/
def deserializeUntaggedElements (newDefaultValue : Int32 → Reader Unit)
    (deserializeElement : Reader Datum) : Reader Datum := do
  let count ← readLength protocolVersion
  newDefaultValue count
  return .collection (← repeatN (turns count) deserializeElement)

/-- `deserializeValue` of `MapBondType` -/
def deserializeUntaggedMap (deserializeKey deserializeElement : Reader Datum) : Reader Datum := do
  let count ← readLength protocolVersion
  let entries ← repeatN (turns count) do
    let mapEntryKey ← deserializeKey
    let mapEntryValue ← deserializeElement
    return (mapEntryKey, mapEntryValue)
  return .map entries

/-- `deserializeValue` of `NullableBondType` -/
def deserializeUntaggedNullable (deserializeElement : Reader Datum) : Reader Datum := do
  let count ← readLength protocolVersion
  if count = 1 then
    deserializeElement
  else if count > 1 then
    throwException .invalidBondData
  else
    return .null

/-- `deserializeValue` of `BlobBondType` -/
def deserializeUntaggedBlob : Reader Datum := do
  let count ← readLength protocolVersion
  return .blob (← readBytes count)

/-- `deserializeValue` of `BondedBondType`: the struct is unmarshaled from a clone of the stream. It
    ends within its length. -/
def deserializeUntaggedBonded : Reader Datum := do
  let bondedLength ← (fun n => Int32.ofNat n) <$> readBits 4
  let clonedInputStream ← get
  StateT.lift (unmarshal clonedInputStream)
  skipBytes bondedLength.toInt
  return .bonded (some (clonedInputStream.take bondedLength.toInt.toNat))

variable (types : Nat → StructDescriptor)

end

/-! ## What is deserialized -/

section

variable {protocolVersion : Version} {r : Replacement} {types : Nat → StructDescriptor}

variable {check : Check}

end

/-! ## What comes back -/

section

variable {protocolVersion : Version} {r : Replacement} {types : Nat → StructDescriptor}

end

/-! ## Structs -/

/-- `struct Pair { 0: int32 first = nothing; 1: int32 second; }` -/
def pair (_ : Nat) : StructDescriptor :=
  .root [⟨⟨.primitive .int32, 0, .optional⟩, .something⟩,
    ⟨⟨.primitive .int32, 1, .optional⟩, .valued (.int32 0)⟩]

end Bond.Java

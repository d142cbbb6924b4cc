import Bond.Managed.VarUInt
import Bond.Managed.Encoding
import Bond.Cpp.CompactBinary

set_option autoImplicit false

/-! # The binary writers of Java

`CompactBinaryWriter` and `FastBinaryWriter` (java/core/src/main/java/org/bondlib), with the helpers
that they write integers and strings with. Java has no unsigned integers: an unsigned value is kept
in the signed type of its width. -/

namespace Bond.Java

open Bond.Cpp (BondDataType)
open Bond.Cpp.CompactBinary (Version)
open Bond.Lib Bond.Managed
open Varint

/-- The `int`s with their addition, which wraps around. -/
instance instAddCommMonoidInt32 : AddCommMonoid Int32 where
  add_assoc := Int32.add_assoc
  add_comm := Int32.add_comm
  zero_add := Int32.zero_add
  add_zero := Int32.add_zero
  nsmul := nsmulRec

namespace VarUIntHelper

def encodeVarUInt16 (unsignedValue : Int16) : List UInt8 :=
  encodeVarUInt 2 unsignedValue.toUInt16.toNat

/-- The first test, `unsignedValue >= 0x80 || unsignedValue < 0`, is that of the unsigned value. -/
def encodeVarUInt32 (unsignedValue : Int32) : List UInt8 :=
  encodeVarUInt 4 unsignedValue.toUInt32.toNat

def encodeVarUInt64 (unsignedValue : Int64) : List UInt8 :=
  encodeVarUInt 9 unsignedValue.toUInt64.toNat

def getVarUInt16Length (unsignedValue : Int16) : Nat :=
  if unsignedValue < 0 then 3 else getVarUIntLength 1 2 unsignedValue.toInt.toNat

def getVarUInt32Length (unsignedValue : Int32) : Nat :=
  if unsignedValue < 0 then 5 else getVarUIntLength 1 4 unsignedValue.toInt.toNat

/-- The tests go up to `1L << 56` only. -/
def getVarUInt64Length (unsignedValue : Int64) : Nat :=
  if unsignedValue < 0 then 10 else getVarUIntLength 1 8 unsignedValue.toInt.toNat

end VarUIntHelper

namespace ZigzagHelper

/-- `(short) ((signedValue << 1) ^ (signedValue >> 15))`, where the shifts are those of an `int`. -/
def encodeZigzag16 (signedValue : Int16) : Int16 :=
  ((signedValue.toInt32 <<< 1) ^^^ (signedValue.toInt32 >>> 15)).toInt16

def encodeZigzag32 (signedValue : Int32) : Int32 :=
  (signedValue <<< 1) ^^^ (signedValue >>> 31)

def encodeZigzag64 (signedValue : Int64) : Int64 :=
  (signedValue <<< 1) ^^^ (signedValue >>> 63)

end ZigzagHelper

namespace StringHelper

/-- `str.getBytes(UTF8)`: a lone surrogate becomes a question mark. -/
def encodeString (str : List UInt16) : List UInt8 :=
  Utf16.utf8 [0x3F] str

/-- `str.getBytes(UTF16LE)`: a lone surrogate becomes U+FFFD. -/
def encodeWString (str : List UInt16) : List UInt8 :=
  Utf16.utf16le [0xFD, 0xFF] str

end StringHelper

open VarUIntHelper ZigzagHelper StringHelper

/-- `writeString`, the same in both writers -/
def writeString (value : List UInt16) : List UInt8 :=
  if value.isEmpty then
    encodeVarUInt32 0
  else
    let bytes := encodeString value
    encodeVarUInt32 (Int32.ofNat bytes.length) ++ bytes

/-- `writeWString`, the same in both writers -/
def writeWString (value : List UInt16) : List UInt8 :=
  if value.isEmpty then
    encodeVarUInt32 0
  else
    let bytes := encodeWString value
    encodeVarUInt32 (Int32.ofNat bytes.length / 2) ++ bytes

/-- `writeContainerBegin(count, keyType, valueType)`, the same in both writers -/
def writeMapBegin (count : Int32) (keyType valueType : BondDataType) : List UInt8 :=
  keyType.toUInt8 :: valueType.toUInt8 :: encodeVarUInt32 count

/-! ## Compact Binary -/

namespace CompactBinary

def writeFieldBegin (type : BondDataType) (id : UInt16) : List UInt8 :=
  let value := type.toUInt8.toUInt32
  if id ≤ 5 then
    [(value ||| (id.toUInt32 <<< 5)).toUInt8]
  else if id ≤ 0xFF then
    [(value ||| 0xC0).toUInt8, id.toUInt8]
  else
    (value ||| 0xE0).toUInt8 :: littleEndian 2 id.toNat

def writeContainerBegin (protocolVersion : Version) (count : Int32) (elementType : BondDataType) :
    List UInt8 :=
  if protocolVersion = .v2 ∧ count < 7 then
    [(elementType.toUInt8.toUInt32 ||| ((count + 1) <<< 5).toUInt32).toUInt8]
  else
    elementType.toUInt8 :: encodeVarUInt32 count

/-- `writeInt8`, …, `writeWString` -/
def write : BasicValue → List UInt8
  | .bool value => [if value then 1 else 0]
  | .uint8 value => [value]
  | .uint16 value => encodeVarUInt16 value.toInt16
  | .uint32 value => encodeVarUInt32 value.toInt32
  | .uint64 value => encodeVarUInt64 value.toInt64
  | .float bits => littleEndian 4 bits.toNat
  | .double bits => littleEndian 8 bits.toNat
  | .string value => writeString value
  | .int8 value => [value.toUInt8]
  | .int16 value => encodeVarUInt16 (encodeZigzag16 value)
  | .int32 value => encodeVarUInt32 (encodeZigzag32 value)
  | .int64 value => encodeVarUInt64 (encodeZigzag64 value)
  | .wstring value => writeWString value

/-- What a method writes, the length of a struct apart. -/
def callBytes (protocolVersion : Version) : WriterCall → List UInt8
  | .writeStructBegin => []
  | .writeStructEnd => [BondDataType.stop.toUInt8]
  | .writeBaseBegin => []
  | .writeBaseEnd => [BondDataType.stopBase.toUInt8]
  | .writeFieldBegin type id => writeFieldBegin type id
  | .writeContainerBegin count elementType =>
      writeContainerBegin protocolVersion count elementType
  | .writeMapBegin count keyType valueType => writeMapBegin count keyType valueType
  | .writeBytes value => value
  | .write value => write value

/-- What `writeStructBegin` writes for a length. -/
def lengthBytes (protocolVersion : Version) (length : Int32) : List UInt8 :=
  if protocolVersion = .v2 then encodeVarUInt32 length else []

/-- A `CompactBinaryWriter`: its output and `structLengths`. -/
abbrev Writer := TwoPass.Pass2 Int32

/-- A call on the writer. `removeFirst()` of an empty list is an error. -/
def Writer.step (protocolVersion : Version) (writer : Writer) (call : WriterCall) :
    Option Writer :=
  match call with
  | .writeStructBegin =>
      if protocolVersion = .v2 then
        match writer.lengths with
        | [] => none
        | length :: structLengths => some ⟨writer.output ++ encodeVarUInt32 length, structLengths⟩
      else
        some writer
  | call => some { writer with output := writer.output ++ callBytes protocolVersion call }

end CompactBinary

/-! ## Fast Binary -/

namespace FastBinary

def writeFieldBegin (type : BondDataType) (id : UInt16) : List UInt8 :=
  type.toUInt8 :: littleEndian 2 id.toNat

def writeContainerBegin (count : Int32) (elementType : BondDataType) : List UInt8 :=
  elementType.toUInt8 :: encodeVarUInt32 count

/-- `writeInt8`, …, `writeWString` -/
def write : BasicValue → List UInt8
  | .bool value => [if value then 1 else 0]
  | .uint8 value => [value]
  | .uint16 value => littleEndian 2 value.toNat
  | .uint32 value => littleEndian 4 value.toNat
  | .uint64 value => littleEndian 8 value.toNat
  | .float bits => littleEndian 4 bits.toNat
  | .double bits => littleEndian 8 bits.toNat
  | .string value => writeString value
  | .int8 value => [value.toUInt8]
  | .int16 value => littleEndian 2 value.toUInt16.toNat
  | .int32 value => littleEndian 4 value.toUInt32.toNat
  | .int64 value => littleEndian 8 value.toUInt64.toNat
  | .wstring value => writeWString value

/-- What a method writes. -/
def callBytes : WriterCall → List UInt8
  | .writeStructBegin => []
  | .writeStructEnd => [BondDataType.stop.toUInt8]
  | .writeBaseBegin => []
  | .writeBaseEnd => [BondDataType.stopBase.toUInt8]
  | .writeFieldBegin type id => writeFieldBegin type id
  | .writeContainerBegin count elementType => writeContainerBegin count elementType
  | .writeMapBegin count keyType valueType => writeMapBegin count keyType valueType
  | .writeBytes value => value
  | .write value => write value

end FastBinary

/-! ## What the helpers write -/

namespace VarUIntHelper

theorem encodeVarUInt16_eq (value : Int16) :
    encodeVarUInt16 value = varint value.toUInt16.toNat :=
  encodeVarUInt_eq 2 _ (Nat.lt_of_lt_of_le value.toUInt16.toNat_lt (by decide))

theorem encodeVarUInt32_eq (value : Int32) :
    encodeVarUInt32 value = varint value.toUInt32.toNat :=
  encodeVarUInt_eq 4 _ (Nat.lt_of_lt_of_le value.toUInt32.toNat_lt (by decide))

theorem encodeVarUInt64_eq (value : Int64) :
    encodeVarUInt64 value = varint value.toUInt64.toNat :=
  encodeVarUInt_eq 9 _ (Nat.lt_of_lt_of_le value.toUInt64.toNat_lt (by decide))

/-- A negative value has the high bit of the unsigned one, so it takes the most bytes. -/
theorem getVarUIntLength_signed {w more more' unsigned : Nat} {signed : Int}
    (hsigned : signed = if 2 * unsigned < 2 ^ w then (unsigned : Int) else unsigned - 2 ^ w)
    (hunsigned : unsigned < 2 ^ w) (hhigh : 2 * 128 ^ more ≤ 2 ^ w)
    (hfit : 2 ^ w ≤ 128 ^ (more + 1)) (hlow : 2 ^ w ≤ 2 * 128 ^ (more' + 1)) :
    (if signed < 0 then more + 1 else getVarUIntLength 1 more' signed.toNat)
      = (varint unsigned).length := by
  have hpower : ((2 ^ w : Nat) : Int) = 2 ^ w := by push_cast; rfl
  split at hsigned
  · next hlt =>
      have hvalue : signed.toNat = unsigned := by omega
      have hsmall : unsigned < 128 ^ (more' + 1) := by omega
      rw [if_neg (by omega), hvalue, getVarUIntLength_encode more' unsigned hsmall,
        encodeVarUInt_eq more' unsigned hsmall]
  · next hge =>
      have hlength := lt_varint_length more unsigned (by omega)
      have hle := varint_length_le (more + 1) unsigned (by omega) (by omega)
      rw [if_pos (by omega)]
      omega

theorem getVarUInt16Length_eq (value : Int16) :
    getVarUInt16Length value = (encodeVarUInt16 value).length := by
  rw [encodeVarUInt16_eq, getVarUInt16Length]
  simp only [Int16.lt_iff_toInt_lt]
  exact getVarUIntLength_signed (w := 16) (BitVec.toInt_eq_toNat_cond _) value.toUInt16.toNat_lt
    (by decide) (by decide) (by decide)

theorem getVarUInt32Length_eq (value : Int32) :
    getVarUInt32Length value = (encodeVarUInt32 value).length := by
  rw [encodeVarUInt32_eq, getVarUInt32Length]
  simp only [Int32.lt_iff_toInt_lt]
  exact getVarUIntLength_signed (w := 32) (BitVec.toInt_eq_toNat_cond _) value.toUInt32.toNat_lt
    (by decide) (by decide) (by decide)

theorem getVarUInt64Length_eq (value : Int64) :
    getVarUInt64Length value = (encodeVarUInt64 value).length := by
  rw [encodeVarUInt64_eq, getVarUInt64Length]
  simp only [Int64.lt_iff_toInt_lt]
  exact getVarUIntLength_signed (w := 64) (BitVec.toInt_eq_toNat_cond _) value.toUInt64.toNat_lt
    (by decide) (by decide) (by decide)

end VarUIntHelper

end Bond.Java

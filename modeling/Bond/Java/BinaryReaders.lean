import Bond.Java.Skip
import Bond.Java.StructLengths

set_option autoImplicit false

/-! # The binary readers of Java

`CompactBinaryReader` and `FastBinaryReader` (java/core/src/main/java/org/bondlib). The types in the
headers of fields and lists of Compact Binary are five bits wide, all others a byte. -/

namespace Bond.Java

open Bond.Cpp (BondDataType BasicType)
open Bond.Cpp.CompactBinary (Version packed)
open Bond.Lib Bond.Managed
open Decoder Varint
open VarUIntHelper ZigzagHelper StringHelper BinaryStreamReader

/-- `readString`, the same in both readers, up to the decoding of the bytes -/
def readString : Reader (List UInt8) := do
  let codeUnitCount ← decodeVarUInt32
  if codeUnitCount = 0 then
    return []
  else
    readBytes codeUnitCount

/-- `readWString`, the same in both readers, up to the decoding of the bytes -/
def readWString : Reader (List UInt8) := do
  let codeUnitCount ← decodeVarUInt32
  if codeUnitCount = 0 then
    return []
  else
    readBytes (codeUnitCount * 2)

/-- `readType` -/
def readType : Reader BondDataType :=
  BondDataType.ofUInt8 <$> readInt8

/-- `readMapBegin`, the same in both readers -/
def readMapBegin : Reader (BondDataType × BondDataType × Int32) := do
  let keyType ← readType
  let elementType ← readType
  let count ← decodeVarUInt32
  return (keyType, elementType, count)

/-- `skip` of a string -/
def skipString : Reader Unit := do
  let count ← decodeVarUInt32
  skipBytes count.toInt

/-- `skip` of a wide string: the count is doubled as a `long`. -/
def skipWString : Reader Unit := do
  let count ← decodeVarUInt32
  skipBytes (count.toInt * 2)

/-! ## Compact Binary -/

namespace CompactBinary

def readStructBegin (protocolVersion : Version) : Reader Unit := do
  if protocolVersion = .v2 then
    let _ ← decodeVarUInt32
    return ()
  else
    return ()

def readFieldBegin : Reader (BondDataType × UInt16) := do
  let raw ← readInt8
  let embeddedId := raw >>> 5
  let type := BondDataType.ofUInt8 (raw &&& 0x1F)
  if embeddedId = 6 then
    let id ← readInt8
    return (type, id.toUInt16)
  else if embeddedId = 7 then
    let id ← readBits 2
    return (type, UInt16.ofNat id)
  else
    return (type, embeddedId.toUInt16)

def readListBegin (protocolVersion : Version) : Reader (BondDataType × Int32) := do
  let raw ← readInt8
  let elementType := BondDataType.ofUInt8 (raw &&& 0x1F)
  if protocolVersion = .v2 ∧ raw &&& 0xE0 ≠ 0 then
    return (elementType, Int32.ofNat (raw >>> 5).toNat - 1)
  else
    let count ← decodeVarUInt32
    return (elementType, count)

/-- `readInt8`, …, `readWString` -/
def read : BasicType → Reader Bond.Cpp.BasicValue
  | .bool => .bool <$> readBool
  | .uint8 => .uint8 <$> readInt8
  | .uint16 => (fun v : Int16 => .uint16 v.toUInt16) <$> decodeVarUInt16
  | .uint32 => (fun v : Int32 => .uint32 v.toUInt32) <$> decodeVarUInt32
  | .uint64 => (fun v : Int64 => .uint64 v.toUInt64) <$> decodeVarUInt64
  | .float => (fun n => .float (UInt32.ofNat n)) <$> readBits 4
  | .double => (fun n => .double (UInt64.ofNat n)) <$> readBits 8
  | .string => .string <$> readString
  | .int8 => (fun b : UInt8 => .int8 b.toInt8) <$> readInt8
  | .int16 => (fun v => .int16 (decodeZigzag16 v)) <$> decodeVarUInt16
  | .int32 => (fun v => .int32 (decodeZigzag32 v)) <$> decodeVarUInt32
  | .int64 => (fun v => .int64 (decodeZigzag64 v)) <$> decodeVarUInt64
  | .wstring => (fun bytes => .wstring (units bytes)) <$> readWString

/-- `skip` of a value of a basic type -/
def skipBasic : BasicType → Reader Unit
  | .bool | .uint8 | .int8 => skipBytes 1
  | .float => skipBytes 4
  | .double => skipBytes 8
  | .int16 | .uint16 => (fun _ => ()) <$> decodeVarUInt16
  | .int32 | .uint32 => (fun _ => ()) <$> decodeVarUInt32
  | .int64 | .uint64 => (fun _ => ()) <$> decodeVarUInt64
  | .string => skipString
  | .wstring => skipWString

def getFixedTypeWidth : BondDataType → Nat
  | .basic .bool | .basic .uint8 | .basic .int8 => 1
  | .basic .float => 4
  | .basic .double => 8
  | _ => 0

/-- The header of a field in `skipStruct`, whose id is skipped. -/
def skipFieldBegin : Reader BondDataType := do
  let raw ← readInt8
  let fieldType := BondDataType.ofUInt8 (raw &&& 0x1F)
  let embeddedId := raw >>> 5
  if embeddedId = 6 then
    skipBytes 1
    return fieldType
  else if embeddedId = 7 then
    skipBytes 2
    return fieldType
  else
    return fieldType

/-- `skipStruct`: version 2 goes by the length of the struct. -/
def skipStruct (protocolVersion : Version) (skip : BondDataType → Reader Unit) (bound : Nat) :
    Reader Unit :=
  if protocolVersion = .v2 then do
    let length ← decodeVarUInt32
    skipBytes length.toInt
  else
    skipFields skipFieldBegin skip bound

def skipParts (protocolVersion : Version) : SkipParts where
  skipBasic := skipBasic
  getFixedTypeWidth := getFixedTypeWidth
  readListBegin := readListBegin protocolVersion
  readMapBegin := readMapBegin
  skipStruct := skipStruct protocolVersion

/-- A `CompactBinaryReader` -/
def reader (protocolVersion : Version) : TaggedProtocolReader where
  readStructBegin := readStructBegin protocolVersion
  readFieldBegin := readFieldBegin
  readListBegin := readListBegin protocolVersion
  readMapBegin := readMapBegin
  read := read
  readBytes := readBytes
  skip := (skipParts protocolVersion).skip

end CompactBinary

/-! ## Fast Binary -/

namespace FastBinary

def readFieldBegin : Reader (BondDataType × UInt16) := do
  let type ← readType
  if type ≠ .stop ∧ type ≠ .stopBase then
    let id ← readBits 2
    return (type, UInt16.ofNat id)
  else
    return (type, 0)

def readListBegin : Reader (BondDataType × Int32) := do
  let elementType ← readType
  let count ← decodeVarUInt32
  return (elementType, count)

/-- `readInt8`, …, `readWString` -/
def read : BasicType → Reader Bond.Cpp.BasicValue
  | .bool => .bool <$> readBool
  | .uint8 => .uint8 <$> readInt8
  | .uint16 => (fun n => .uint16 (UInt16.ofNat n)) <$> readBits 2
  | .uint32 => (fun n => .uint32 (UInt32.ofNat n)) <$> readBits 4
  | .uint64 => (fun n => .uint64 (UInt64.ofNat n)) <$> readBits 8
  | .float => (fun n => .float (UInt32.ofNat n)) <$> readBits 4
  | .double => (fun n => .double (UInt64.ofNat n)) <$> readBits 8
  | .string => .string <$> readString
  | .int8 => (fun b : UInt8 => .int8 b.toInt8) <$> readInt8
  | .int16 => (fun n => .int16 (Int16.ofNat n)) <$> readBits 2
  | .int32 => (fun n => .int32 (Int32.ofNat n)) <$> readBits 4
  | .int64 => (fun n => .int64 (Int64.ofNat n)) <$> readBits 8
  | .wstring => (fun bytes => .wstring (units bytes)) <$> readWString

/-- `skip` of a value of a basic type -/
def skipBasic : BasicType → Reader Unit
  | .bool | .uint8 | .int8 => skipBytes 1
  | .uint16 | .int16 => skipBytes 2
  | .uint32 | .int32 | .float => skipBytes 4
  | .uint64 | .int64 | .double => skipBytes 8
  | .string => skipString
  | .wstring => skipWString

def getFixedTypeWidth : BondDataType → Nat
  | .basic .bool | .basic .uint8 | .basic .int8 => 1
  | .basic .uint16 | .basic .int16 => 2
  | .basic .uint32 | .basic .int32 | .basic .float => 4
  | .basic .uint64 | .basic .int64 | .basic .double => 8
  | _ => 0

/-- The header of a field in `skipStruct`, whose id is skipped. -/
def skipFieldBegin : Reader BondDataType := do
  let fieldType ← readType
  if fieldType = .stopBase ∨ fieldType = .stop then
    return fieldType
  else
    skipBytes 2
    return fieldType

def skipStruct (skip : BondDataType → Reader Unit) (bound : Nat) : Reader Unit :=
  skipFields skipFieldBegin skip bound

def skipParts : SkipParts where
  skipBasic := skipBasic
  getFixedTypeWidth := getFixedTypeWidth
  readListBegin := readListBegin
  readMapBegin := readMapBegin
  skipStruct := skipStruct

/-- A `FastBinaryReader` -/
def reader : TaggedProtocolReader where
  readStructBegin := pure ()
  readFieldBegin := readFieldBegin
  readListBegin := readListBegin
  readMapBegin := readMapBegin
  read := read
  readBytes := readBytes
  skip := skipParts.skip

/-- What a `FastBinaryWriter` writes; it makes one pass only. -/
def format : TwoPass.Format WriterCall Int32 where
  kind := WriterCall.kind
  count _ := 0
  lengthCount _ := 0
  bytes := callBytes
  lengthBytes _ := []

end FastBinary

/-! ## Strings -/

theorem ofNat_ne_zero {n : Nat} (hpos : 0 < n) (h : n < 2 ^ 31) : Int32.ofNat n ≠ 0 := by
  intro hzero
  have hvalue := congrArg Int32.toInt hzero
  rw [Int32.toInt_ofNat_of_lt h] at hvalue
  have hzero : (0 : Int32).toInt = 0 := rfl
  omega

theorem encodeString_pos {value : List UInt16} (h : value ≠ []) :
    0 < (encodeString value).length := by
  have hle := CompactBinary.length_le_encodeString_length value
  have hpos := List.length_pos_iff.2 h
  omega

theorem encodeWString_length (value : List UInt16) :
    (encodeWString value).length = 2 * value.length :=
  Utf16.utf16le_length rfl value

/-- The count of a wide string is that of its `char`s. -/
theorem half_length {n : Nat} (h : 2 * n < 2 ^ 31) : Int32.ofNat (2 * n) / 2 = Int32.ofNat n := by
  apply Int32.toInt_inj.1
  rw [Int32.toInt_div, Int32.toInt_ofNat_of_lt h, Int32.toInt_ofNat_of_lt (by omega)]
  show Int.bmod (Int.tdiv ((2 * n : Nat) : Int) 2) _ = _
  rw [Int.tdiv_eq_ediv_of_nonneg (by omega), show ((2 * n : Nat) : Int) / 2 = n by omega]
  exact Int.bmod_eq_of_le (by omega) (by omega)

theorem double_count (n : Nat) : Int32.ofNat n * 2 = Int32.ofNat (2 * n) := by
  rw [Nat.mul_comm, Int32.ofNat_mul]
  rfl

theorem decodes_readString {value : List UInt16} (h : (encodeString value).length < 2 ^ 31) :
    Decodes readString (writeString value) (pure (encodeString value)) := by
  unfold readString writeString
  cases value with
  | nil =>
      rw [if_pos List.isEmpty_nil, ← List.append_nil (encodeVarUInt32 0)]
      exact (decodes_decodeVarUInt32 0).bind_pure (Decodes.pure _)
  | cons c cs =>
      have hpos := encodeString_pos (List.cons_ne_nil c cs)
      rw [if_neg (by simp)]
      refine (decodes_decodeVarUInt32 _).bind_pure ?_
      rw [if_neg (ofNat_ne_zero hpos h)]
      exact decodes_readBytes h

theorem decodes_skipString {value : List UInt16} (h : (encodeString value).length < 2 ^ 31) :
    Decodes skipString (writeString value) (pure ()) := by
  unfold skipString writeString
  cases value with
  | nil =>
      rw [if_pos List.isEmpty_nil, ← List.append_nil (encodeVarUInt32 0)]
      exact (decodes_decodeVarUInt32 0).bind_pure (decodes_skipBytes [])
  | cons c cs =>
      rw [if_neg (by simp)]
      refine (decodes_decodeVarUInt32 _).bind_pure ?_
      rw [Int32.toInt_ofNat_of_lt h]
      exact decodes_skipBytes _

theorem decodes_readWString {value : List UInt16} (h : 2 * value.length < 2 ^ 31) :
    Decodes readWString (writeWString value) (pure (encodeWString value)) := by
  have hlen := encodeWString_length value
  unfold readWString writeWString
  cases value with
  | nil =>
      rw [if_pos List.isEmpty_nil, ← List.append_nil (encodeVarUInt32 0)]
      exact (decodes_decodeVarUInt32 0).bind_pure (Decodes.pure _)
  | cons c cs =>
      rw [if_neg (by simp)]
      refine (decodes_decodeVarUInt32 _).bind_pure ?_
      rw [hlen, half_length h, if_neg (ofNat_ne_zero (by simp) (by omega)), double_count, ← hlen]
      exact decodes_readBytes (by omega)

theorem decodes_skipWString {value : List UInt16} (h : 2 * value.length < 2 ^ 31) :
    Decodes skipWString (writeWString value) (pure ()) := by
  have hlen := encodeWString_length value
  unfold skipWString writeWString
  cases value with
  | nil =>
      rw [if_pos List.isEmpty_nil, ← List.append_nil (encodeVarUInt32 0)]
      exact (decodes_decodeVarUInt32 0).bind_pure (decodes_skipBytes [])
  | cons c cs =>
      rw [if_neg (by simp)]
      refine (decodes_decodeVarUInt32 _).bind_pure ?_
      rw [hlen, half_length h, Int32.toInt_ofNat_of_lt (by omega), decodes_skipBytes_iff, hlen]
      omega

/-! ## Types and maps -/

theorem decodes_readType {type : BondDataType} (h : type.isValue = true) :
    Decodes readType [type.toUInt8] (pure type) := by
  have hread := (decodes_readInt8 type.toUInt8).map BondDataType.ofUInt8
  rwa [map_pure, BondDataType.ofUInt8_toUInt8 h] at hread

theorem decodes_readMapBegin (count : Int32) {key element : BondDataType}
    (hkey : key.isValue = true) (helement : element.isValue = true) :
    Decodes readMapBegin (writeMapBegin count key element) (pure (key, element, count)) := by
  unfold readMapBegin writeMapBegin
  rw [← List.singleton_append, ← List.singleton_append (x := element.toUInt8)]
  refine (decodes_readType hkey).bind_pure ((decodes_readType helement).bind_pure ?_)
  exact (decodes_decodeVarUInt32 count).bind_return fun count => (key, element, count)

end Bond.Java

import Bond.Java.ChunkedStreams

set_option autoImplicit false

/-! # The binary readers on streams that deliver in portions

The methods of `CompactBinaryReader`, `FastBinaryReader` and `SimpleBinaryReader`
(java/core/src/main/java/org/bondlib) as programs that make requests to a `java.io.InputStream`, and
when calls of them return on a stream what they return on its bytes. -/

namespace Bond.Java

open Bond.Cpp (BondDataType BasicType BasicValue TypeDef)
open Bond.Cpp.CompactBinary (Version)
open Bond.Lib
open Decoder
open ZigzagHelper StringHelper Streams

/-! ## Tagged protocols -/

namespace Streams

def readString : Program (List UInt8) := do
  let codeUnitCount ← decodeVarUInt32
  if codeUnitCount = 0 then
    return []
  else
    readBytes codeUnitCount

def readWString : Program (List UInt8) := do
  let codeUnitCount ← decodeVarUInt32
  if codeUnitCount = 0 then
    return []
  else
    readBytes (codeUnitCount * 2)

def readType : Program BondDataType :=
  BondDataType.ofUInt8 <$> readInt8

def readMapBegin : Program (BondDataType × BondDataType × Int32) := do
  let keyType ← readType
  let elementType ← readType
  let count ← decodeVarUInt32
  return (keyType, elementType, count)

def skipString : Program Unit := do
  let count ← decodeVarUInt32
  skipBytes count.toInt

def skipWString : Program Unit := do
  let count ← decodeVarUInt32
  skipBytes (count.toInt * 2)

@[simp]
theorem reader_readString : readString.reader = Java.readString := by
  simp [readString, Java.readString]

@[simp]
theorem reader_readWString : readWString.reader = Java.readWString := by
  simp [readWString, Java.readWString]

@[simp]
theorem reader_readType : readType.reader = Java.readType := by
  simp [readType, Java.readType]

@[simp]
theorem reader_readMapBegin : readMapBegin.reader = Java.readMapBegin := by
  simp [readMapBegin, Java.readMapBegin]

@[simp]
theorem reader_skipString : skipString.reader = Java.skipString := by
  simp [skipString, Java.skipString]

@[simp]
theorem reader_skipWString : skipWString.reader = Java.skipWString := by
  simp [skipWString, Java.skipWString]

/-- The loop of `skipStruct`, as in `Skip` -/
def skipFields (readHeader : Program BondDataType) (skip : BondDataType → Program Unit) :
    Nat → Program Unit
  | 0 => .throw .endOfFile
  | bound + 1 => do
      let fieldType ← readHeader
      if fieldType = .stopBase then
        skipFields readHeader skip bound
      else if fieldType = .stop then
        return ()
      else do
        skip fieldType
        skipFields readHeader skip bound

@[simp]
theorem reader_skipFields (readHeader : Program BondDataType)
    (skip : BondDataType → Program Unit) (bound : Nat) :
    (skipFields readHeader skip bound).reader
      = Java.skipFields readHeader.reader (fun type => (skip type).reader) bound := by
  induction bound with
  | zero => rfl
  | succ bound ih => simp [skipFields, Java.skipFields, ih]

end Streams

/-- The methods of a reader as programs. -/
structure TaggedPrograms where
  readStructBegin : Program Unit
  readFieldBegin : Program (BondDataType × UInt16)
  readListBegin : Program (BondDataType × Int32)
  read (type : BasicType) : Program BasicValue
  skipBasic (type : BasicType) : Program Unit
  getFixedTypeWidth (type : BondDataType) : Nat
  /-- `skipStruct`, given `skip` and a bound on the number of fields and levels -/
  skipStruct (skip : BondDataType → Program Unit) (bound : Nat) : Program Unit

namespace TaggedPrograms

variable (programs : TaggedPrograms)

def skipListContainer (skip : BondDataType → Program Unit) : Program Unit := do
  let (elementType, count) ← programs.readListBegin
  let elementTypeFixedWidth := programs.getFixedTypeWidth elementType
  if elementTypeFixedWidth > 0 then
    skipBytes (count.toInt * elementTypeFixedWidth)
  else
    let _ ← Requests.repeatN (countdown count) (skip elementType)
    return ()

/-- `skipMapContainer`: the width of the keys is taken from the type of the values. -/
def skipMapContainer (skip : BondDataType → Program Unit) : Program Unit := do
  let (keyType, elementType, count) ← Streams.readMapBegin
  let keyTypeFixedWidth := programs.getFixedTypeWidth elementType
  let elementTypeFixedWidth := programs.getFixedTypeWidth elementType
  if keyTypeFixedWidth > 0 ∧ elementTypeFixedWidth > 0 then
    skipBytes (count.toInt * ((keyTypeFixedWidth + elementTypeFixedWidth : Nat) : Int))
  else
    let _ ← Requests.repeatN (countdown count) do
      skip keyType
      skip elementType
    return ()

/-- `skip`, where `fuel` bounds the depth -/
def skipWithin : Nat → BondDataType → Program Unit
  | 0, _ => .throw .endOfFile
  | fuel + 1, type =>
      match type with
      | .basic b => programs.skipBasic b
      | .list | .set => programs.skipListContainer (skipWithin fuel)
      | .map => programs.skipMapContainer (skipWithin fuel)
      | .struct => programs.skipStruct (skipWithin fuel) (fuel + 1)
      | _ => .throw .invalidBondData

/-- What the programs are on bytes that are all there. -/
structure Models (reader : TaggedProtocolReader) (parts : SkipParts) : Prop where
  readStructBegin : programs.readStructBegin.reader = reader.readStructBegin
  readFieldBegin : programs.readFieldBegin.reader = reader.readFieldBegin
  readListBegin : programs.readListBegin.reader = reader.readListBegin
  readMapBegin : Java.readMapBegin = reader.readMapBegin
  read (type : BasicType) : (programs.read type).reader = reader.read type
  readBytes (count : Int32) : BinaryStreamReader.readBytes count = reader.readBytes count
  skip : parts.skip = reader.skip
  skipBasic (type : BasicType) : (programs.skipBasic type).reader = parts.skipBasic type
  getFixedTypeWidth (type : BondDataType) :
    programs.getFixedTypeWidth type = parts.getFixedTypeWidth type
  partsListBegin : parts.readListBegin = reader.readListBegin
  partsMapBegin : parts.readMapBegin = reader.readMapBegin
  skipStruct (skip : BondDataType → Program Unit) (bound : Nat) :
    (programs.skipStruct skip bound).reader
      = parts.skipStruct (fun type => (skip type).reader) bound

namespace Models

variable {programs : TaggedPrograms} {reader : TaggedProtocolReader} {parts : SkipParts}
  (h : programs.Models reader parts)

include h

theorem skipListContainer (skip : BondDataType → Program Unit) :
    (programs.skipListContainer skip).reader
      = parts.skipListContainer fun type => (skip type).reader := by
  simp [TaggedPrograms.skipListContainer, SkipParts.skipListContainer, h.readListBegin,
    h.partsListBegin, h.getFixedTypeWidth]

theorem skipMapContainer (skip : BondDataType → Program Unit) :
    (programs.skipMapContainer skip).reader
      = parts.skipMapContainer fun type => (skip type).reader := by
  simp [TaggedPrograms.skipMapContainer, SkipParts.skipMapContainer, h.readMapBegin,
    h.partsMapBegin, h.getFixedTypeWidth]

theorem skipWithin (fuel : Nat) (type : BondDataType) :
    (programs.skipWithin fuel type).reader = parts.skipWithin fuel type := by
  induction fuel generalizing type with
  | zero => rfl
  | succ fuel ih =>
      have hskip : (fun type => (programs.skipWithin fuel type).reader) = parts.skipWithin fuel :=
        funext ih
      cases type with
      | basic b => exact h.skipBasic b
      | list => exact (h.skipListContainer _).trans (by rw [hskip, SkipParts.skipWithin])
      | set => exact (h.skipListContainer _).trans (by rw [hskip, SkipParts.skipWithin])
      | map => exact (h.skipMapContainer _).trans (by rw [hskip, SkipParts.skipWithin])
      | struct => exact (h.skipStruct _ _).trans (by rw [hskip, SkipParts.skipWithin])
      | _ => rfl

end Models

end TaggedPrograms

/-! ### Compact Binary -/

namespace CompactBinary.Streamed

def readStructBegin (protocolVersion : Version) : Program Unit := do
  if protocolVersion = .v2 then
    let _ ← decodeVarUInt32
    return ()
  else
    return ()

def readFieldBegin : Program (BondDataType × UInt16) := do
  let raw ← readInt8
  let embeddedId := raw >>> 5
  let type := BondDataType.ofUInt8 (raw &&& 0x1F)
  if embeddedId = 6 then
    let id ← readInt8
    return (type, id.toUInt16)
  else if embeddedId = 7 then
    let id ← readBits 2
    return (type, UInt16.ofNat id)
  else
    return (type, embeddedId.toUInt16)

def readListBegin (protocolVersion : Version) : Program (BondDataType × Int32) := do
  let raw ← readInt8
  let elementType := BondDataType.ofUInt8 (raw &&& 0x1F)
  if protocolVersion = .v2 ∧ raw &&& 0xE0 ≠ 0 then
    return (elementType, Int32.ofNat (raw >>> 5).toNat - 1)
  else
    let count ← decodeVarUInt32
    return (elementType, count)

/-- `readInt8`, …, `readWString` -/
def read : BasicType → Program BasicValue
  | .bool => .bool <$> readBool
  | .uint8 => .uint8 <$> readInt8
  | .uint16 => (fun v : Int16 => .uint16 v.toUInt16) <$> decodeVarUInt16
  | .uint32 => (fun v : Int32 => .uint32 v.toUInt32) <$> decodeVarUInt32
  | .uint64 => (fun v : Int64 => .uint64 v.toUInt64) <$> decodeVarUInt64
  | .float => (fun n => .float (UInt32.ofNat n)) <$> readBits 4
  | .double => (fun n => .double (UInt64.ofNat n)) <$> readBits 8
  | .string => .string <$> Streams.readString
  | .int8 => (fun b : UInt8 => .int8 b.toInt8) <$> readInt8
  | .int16 => (fun v => .int16 (decodeZigzag16 v)) <$> decodeVarUInt16
  | .int32 => (fun v => .int32 (decodeZigzag32 v)) <$> decodeVarUInt32
  | .int64 => (fun v => .int64 (decodeZigzag64 v)) <$> decodeVarUInt64
  | .wstring => (fun bytes => .wstring (units bytes)) <$> Streams.readWString

def skipBasic : BasicType → Program Unit
  | .bool | .uint8 | .int8 => skipBytes 1
  | .float => skipBytes 4
  | .double => skipBytes 8
  | .int16 | .uint16 => (fun _ => ()) <$> decodeVarUInt16
  | .int32 | .uint32 => (fun _ => ()) <$> decodeVarUInt32
  | .int64 | .uint64 => (fun _ => ()) <$> decodeVarUInt64
  | .string => Streams.skipString
  | .wstring => Streams.skipWString

/-- The header of a field in `skipStruct`, whose id is skipped. -/
def skipFieldBegin : Program BondDataType := do
  let raw ← readInt8
  let fieldType := BondDataType.ofUInt8 (raw &&& 0x1F)
  let embeddedId := raw >>> 5
  if embeddedId = 6 then
    skipBytes 1
    return fieldType
  else if embeddedId = 7 then
    skipBytes 2
    return fieldType
  else
    return fieldType

/-- `skipStruct`: version 2 goes by the length of the struct. -/
def skipStruct (protocolVersion : Version) (skip : BondDataType → Program Unit) (bound : Nat) :
    Program Unit :=
  if protocolVersion = .v2 then do
    let length ← decodeVarUInt32
    skipBytes length.toInt
  else
    Streams.skipFields skipFieldBegin skip bound

def programs (protocolVersion : Version) : TaggedPrograms where
  readStructBegin := readStructBegin protocolVersion
  readFieldBegin := readFieldBegin
  readListBegin := readListBegin protocolVersion
  read := read
  skipBasic := skipBasic
  getFixedTypeWidth := CompactBinary.getFixedTypeWidth
  skipStruct := skipStruct protocolVersion

theorem reader_skipFieldBegin : skipFieldBegin.reader = CompactBinary.skipFieldBegin := by
  simp [skipFieldBegin, CompactBinary.skipFieldBegin]

theorem models (protocolVersion : Version) :
    (programs protocolVersion).Models (CompactBinary.reader protocolVersion)
      (CompactBinary.skipParts protocolVersion) where
  readStructBegin := by
    simp [programs, readStructBegin, CompactBinary.reader, CompactBinary.readStructBegin]
  readFieldBegin := by
    simp [programs, readFieldBegin, CompactBinary.reader, CompactBinary.readFieldBegin]
  readListBegin := by
    simp [programs, readListBegin, CompactBinary.reader, CompactBinary.readListBegin]
  readMapBegin := rfl
  read type := by
    cases type <;> simp [programs, read, CompactBinary.reader, CompactBinary.read]
  readBytes count := rfl
  skip := rfl
  skipBasic type := by
    cases type <;> simp [programs, skipBasic, CompactBinary.skipParts, CompactBinary.skipBasic]
  getFixedTypeWidth type := rfl
  partsListBegin := rfl
  partsMapBegin := rfl
  skipStruct skip bound := by
    simp [programs, skipStruct, CompactBinary.skipParts, CompactBinary.skipStruct,
      reader_skipFieldBegin]

end CompactBinary.Streamed

/-! ### Fast Binary -/

namespace FastBinary.Streamed

def readFieldBegin : Program (BondDataType × UInt16) := do
  let type ← Streams.readType
  if type ≠ .stop ∧ type ≠ .stopBase then
    let id ← readBits 2
    return (type, UInt16.ofNat id)
  else
    return (type, 0)

def readListBegin : Program (BondDataType × Int32) := do
  let elementType ← Streams.readType
  let count ← decodeVarUInt32
  return (elementType, count)

/-- `readInt8`, …, `readWString` -/
def read : BasicType → Program BasicValue
  | .bool => .bool <$> readBool
  | .uint8 => .uint8 <$> readInt8
  | .uint16 => (fun n => .uint16 (UInt16.ofNat n)) <$> readBits 2
  | .uint32 => (fun n => .uint32 (UInt32.ofNat n)) <$> readBits 4
  | .uint64 => (fun n => .uint64 (UInt64.ofNat n)) <$> readBits 8
  | .float => (fun n => .float (UInt32.ofNat n)) <$> readBits 4
  | .double => (fun n => .double (UInt64.ofNat n)) <$> readBits 8
  | .string => .string <$> Streams.readString
  | .int8 => (fun b : UInt8 => .int8 b.toInt8) <$> readInt8
  | .int16 => (fun n => .int16 (Int16.ofNat n)) <$> readBits 2
  | .int32 => (fun n => .int32 (Int32.ofNat n)) <$> readBits 4
  | .int64 => (fun n => .int64 (Int64.ofNat n)) <$> readBits 8
  | .wstring => (fun bytes => .wstring (units bytes)) <$> Streams.readWString

def skipBasic : BasicType → Program Unit
  | .bool | .uint8 | .int8 => skipBytes 1
  | .uint16 | .int16 => skipBytes 2
  | .uint32 | .int32 | .float => skipBytes 4
  | .uint64 | .int64 | .double => skipBytes 8
  | .string => Streams.skipString
  | .wstring => Streams.skipWString

/-- The header of a field in `skipStruct`, whose id is skipped. -/
def skipFieldBegin : Program BondDataType := do
  let fieldType ← Streams.readType
  if fieldType = .stopBase ∨ fieldType = .stop then
    return fieldType
  else
    skipBytes 2
    return fieldType

def programs : TaggedPrograms where
  readStructBegin := pure ()
  readFieldBegin := readFieldBegin
  readListBegin := readListBegin
  read := read
  skipBasic := skipBasic
  getFixedTypeWidth := FastBinary.getFixedTypeWidth
  skipStruct := Streams.skipFields skipFieldBegin

theorem reader_skipFieldBegin : skipFieldBegin.reader = FastBinary.skipFieldBegin := by
  simp [skipFieldBegin, FastBinary.skipFieldBegin]

theorem models : programs.Models FastBinary.reader FastBinary.skipParts where
  readStructBegin := rfl
  readFieldBegin := by
    simp [programs, readFieldBegin, FastBinary.reader, FastBinary.readFieldBegin]
  readListBegin := by
    simp [programs, readListBegin, FastBinary.reader, FastBinary.readListBegin]
  readMapBegin := rfl
  read type := by
    cases type <;> simp [programs, read, FastBinary.reader, FastBinary.read]
  readBytes count := rfl
  skip := rfl
  skipBasic type := by
    cases type <;> simp [programs, skipBasic, FastBinary.skipParts, FastBinary.skipBasic]
  getFixedTypeWidth type := rfl
  partsListBegin := rfl
  partsMapBegin := rfl
  skipStruct skip bound := by
    simp [programs, FastBinary.skipParts, FastBinary.skipStruct, reader_skipFieldBegin]

end FastBinary.Streamed

/-! ## Simple Binary -/

namespace SimpleBinary.Streamed

section

variable (protocolVersion : Version)

def readLength : Program Int32 :=
  if protocolVersion = .v2 then decodeVarUInt32 else (fun n => Int32.ofNat n) <$> readBits 4

def readString (r : Replacement) : Program (List UInt16) := do
  let codeUnitCount ← readLength protocolVersion
  if codeUnitCount = 0 then
    return []
  else
    return decodeString r (← readBytes codeUnitCount)

def readWString (r : Replacement) : Program (List UInt16) := do
  let codeUnitCount ← readLength protocolVersion
  if codeUnitCount = 0 then
    return []
  else
    return decodeWString r (← readBytes (codeUnitCount * 2))

/-- `readInt8`, …, `readWString` -/
def read (r : Replacement) : BasicType → Program Managed.BasicValue
  | .bool => .bool <$> readBool
  | .uint8 => .uint8 <$> readInt8
  | .uint16 => (fun n => .uint16 (UInt16.ofNat n)) <$> readBits 2
  | .uint32 => (fun n => .uint32 (UInt32.ofNat n)) <$> readBits 4
  | .uint64 => (fun n => .uint64 (UInt64.ofNat n)) <$> readBits 8
  | .float => (fun n => .float (UInt32.ofNat n)) <$> readBits 4
  | .double => (fun n => .double (UInt64.ofNat n)) <$> readBits 8
  | .string => .string <$> readString protocolVersion r
  | .int8 => (fun b : UInt8 => .int8 b.toInt8) <$> readInt8
  | .int16 => (fun n => .int16 (Int16.ofNat n)) <$> readBits 2
  | .int32 => (fun n => .int32 (Int32.ofNat n)) <$> readBits 4
  | .int64 => (fun n => .int64 (Int64.ofNat n)) <$> readBits 8
  | .wstring => .wstring <$> readWString protocolVersion r

def skipString : Program Unit := do
  let codeUnitCount ← readLength protocolVersion
  skipBytes codeUnitCount.toInt

/-- `skipWString`: the count is doubled as an `int`. -/
def skipWString : Program Unit := do
  let codeUnitCount ← readLength protocolVersion
  skipBytes (codeUnitCount * 2).toInt

/-- `skipInt8`, …, `skipWString` -/
def skipBasic : BasicType → Program Unit
  | .bool | .uint8 | .int8 => skipBytes 1
  | .uint16 | .int16 => skipBytes 2
  | .uint32 | .int32 | .float => skipBytes 4
  | .uint64 | .int64 | .double => skipBytes 8
  | .string => skipString protocolVersion
  | .wstring => skipWString protocolVersion

def skipBonded : Program Unit := do
  let count ← readLength protocolVersion
  skipBytes count.toInt

variable {n : Nat}

def skipList (skip : TypeDef n → Program Unit) (element : TypeDef n) : Program Unit := do
  let numElems ← readLength protocolVersion
  let _ ← Requests.repeatN (turns numElems) (skip element)
  return ()

def skipMap (skip : TypeDef n → Program Unit) (key element : TypeDef n) : Program Unit := do
  let numElems ← readLength protocolVersion
  let _ ← Requests.repeatN (turns numElems) do
    skip key
    skip element
  return ()

/-- `skip` of a struct: its base, then its fields -/
def skipStruct (skip : TypeDef n → Program Unit) (structDef : StructDef n) : Program Unit := do
  match structDef.baseDef with
  | some baseDef => skip baseDef
  | none => pure ()
  structDef.fields.forM fun field => skip field.type

/-- `skip`, where `fuel` bounds the depth -/
def skip (schemaDef : SchemaDef n) : Nat → TypeDef n → Program Unit
  | 0, _ => .throw .endOfFile
  | fuel + 1, type =>
      match type with
      | .basic type => skipBasic protocolVersion type
      | .struct structDef bondedType =>
          if bondedType then
            skipBonded protocolVersion
          else
            skipStruct (skip schemaDef fuel) (schemaDef.structs structDef)
      | .list element | .set element => skipList protocolVersion (skip schemaDef fuel) element
      | .map key element => skipMap protocolVersion (skip schemaDef fuel) key element

@[simp]
theorem reader_readLength :
    (readLength protocolVersion).reader = SimpleBinary.readLength protocolVersion := by
  simp [readLength, SimpleBinary.readLength]

theorem reader_read (r : Replacement) (type : BasicType) :
    (read protocolVersion r type).reader = SimpleBinary.read protocolVersion r type := by
  cases type <;> simp [read, SimpleBinary.read, readString, SimpleBinary.readString, readWString,
    SimpleBinary.readWString]

theorem reader_skipBasic (type : BasicType) :
    (skipBasic protocolVersion type).reader = SimpleBinary.skipBasic protocolVersion type := by
  cases type <;> simp [skipBasic, SimpleBinary.skipBasic, skipString, SimpleBinary.skipString,
    skipWString, SimpleBinary.skipWString]

theorem reader_skipBonded :
    (skipBonded protocolVersion).reader = SimpleBinary.skipBonded protocolVersion := by
  simp [skipBonded, SimpleBinary.skipBonded]

theorem reader_skipList (skip : TypeDef n → Program Unit) (element : TypeDef n) :
    (skipList protocolVersion skip element).reader
      = SimpleBinary.skipList protocolVersion (fun type => (skip type).reader) element := by
  simp [skipList, SimpleBinary.skipList]

theorem reader_skipMap (skip : TypeDef n → Program Unit) (key element : TypeDef n) :
    (skipMap protocolVersion skip key element).reader
      = SimpleBinary.skipMap protocolVersion (fun type => (skip type).reader) key element := by
  simp [skipMap, SimpleBinary.skipMap]

theorem reader_skipStruct (skip : TypeDef n → Program Unit) (structDef : StructDef n) :
    (skipStruct skip structDef).reader
      = SimpleBinary.skipStruct (fun type => (skip type).reader) structDef := by
  unfold skipStruct SimpleBinary.skipStruct
  cases structDef.baseDef with
  | none => simp
  | some baseDef => simp

theorem reader_skip (schemaDef : SchemaDef n) (fuel : Nat) (type : TypeDef n) :
    (skip protocolVersion schemaDef fuel type).reader
      = SimpleBinary.skip protocolVersion schemaDef fuel type := by
  induction fuel generalizing type with
  | zero => rfl
  | succ fuel ih =>
      have hskip : (fun type => (skip protocolVersion schemaDef fuel type).reader)
          = SimpleBinary.skip protocolVersion schemaDef fuel := funext ih
      cases type with
      | basic type => exact reader_skipBasic protocolVersion type
      | struct structDef bondedType =>
          rw [skip, SimpleBinary.skip, Program.reader_ite, reader_skipBonded, reader_skipStruct,
            hskip]
      | list element => exact (reader_skipList _ _ _).trans (by rw [hskip, SimpleBinary.skip])
      | set element => exact (reader_skipList _ _ _).trans (by rw [hskip, SimpleBinary.skip])
      | map key element => exact (reader_skipMap _ _ _ _).trans (by rw [hskip, SimpleBinary.skip])

end

end SimpleBinary.Streamed

/-! ## Calls of the readers -/

def Protocol.programs : Protocol → TaggedPrograms
  | .compactBinary version => CompactBinary.Streamed.programs version
  | .fastBinary => FastBinary.Streamed.programs

theorem Protocol.models (p : Protocol) : p.programs.Models p.reader p.skipParts := by
  cases p with
  | compactBinary version => exact CompactBinary.Streamed.models version
  | fastBinary => exact FastBinary.Streamed.models

/-- A call of a method of a reader, with what it returns. `readBits` is for the integers that are
    read of the header of a marshaled payload. -/
inductive Call : Type → Type
  | readBits (size : Nat) : Call Nat
  | readBytes (count : Int32) : Call (List UInt8)
  | readStructBegin (p : Protocol) : Call Unit
  | readFieldBegin (p : Protocol) : Call (BondDataType × UInt16)
  | readListBegin (p : Protocol) : Call (BondDataType × Int32)
  | readMapBegin (p : Protocol) : Call (BondDataType × BondDataType × Int32)
  | read (p : Protocol) (type : BasicType) : Call BasicValue
  | skip (p : Protocol) (fuel : Nat) (type : BondDataType) : Call Unit
  | readContainerBegin (version : Version) : Call Int32
  | readUntagged (version : Version) (r : Replacement) (type : BasicType) : Call Managed.BasicValue
  | skipUntagged {n : Nat} (version : Version) (schemaDef : SchemaDef n) (fuel : Nat)
      (type : TypeDef n) : Call Unit

namespace Call

def program : {β : Type} → Call β → Program β
  | _, readBits size => Streams.readBits size
  | _, readBytes count => Streams.readBytes count
  | _, readStructBegin p => p.programs.readStructBegin
  | _, readFieldBegin p => p.programs.readFieldBegin
  | _, readListBegin p => p.programs.readListBegin
  | _, readMapBegin _ => Streams.readMapBegin
  | _, read p type => p.programs.read type
  | _, skip p fuel type => p.programs.skipWithin fuel type
  | _, readContainerBegin version => SimpleBinary.Streamed.readLength version
  | _, readUntagged version r type => SimpleBinary.Streamed.read version r type
  | _, skipUntagged version schemaDef fuel type =>
      SimpleBinary.Streamed.skip version schemaDef fuel type

/-- What the call reads of bytes that are all there. -/
def reader : {β : Type} → Call β → Reader β
  | _, readBits size => BinaryStreamReader.readBits size
  | _, readBytes count => BinaryStreamReader.readBytes count
  | _, readStructBegin p => p.reader.readStructBegin
  | _, readFieldBegin p => p.reader.readFieldBegin
  | _, readListBegin p => p.reader.readListBegin
  | _, readMapBegin p => p.reader.readMapBegin
  | _, read p type => p.reader.read type
  | _, skip p fuel type => p.skipParts.skipWithin fuel type
  | _, readContainerBegin version => SimpleBinary.readLength version
  | _, readUntagged version r type => SimpleBinary.read version r type
  | _, skipUntagged version schemaDef fuel type => SimpleBinary.skip version schemaDef fuel type

theorem reader_program {β : Type} (call : Call β) : call.program.reader = call.reader := by
  cases call with
  | readBits size => exact Streams.reader_readBits size
  | readBytes count => exact Streams.reader_readBytes count
  | readStructBegin p => exact p.models.readStructBegin
  | readFieldBegin p => exact p.models.readFieldBegin
  | readListBegin p => exact p.models.readListBegin
  | readMapBegin p => exact Streams.reader_readMapBegin.trans p.models.readMapBegin
  | read p type => exact p.models.read type
  | skip p fuel type => exact p.models.skipWithin fuel type
  | readContainerBegin version => exact SimpleBinary.Streamed.reader_readLength version
  | readUntagged version r type => exact SimpleBinary.Streamed.reader_read version r type
  | skipUntagged version schemaDef fuel type =>
      exact SimpleBinary.Streamed.reader_skip version schemaDef fuel type

end Call

/-- What is read of a payload: calls, each chosen by what the ones in front of it have returned. -/
inductive Session (β : Type) : Type 1
  | done (value : β)
  | fail (e : Exception)
  | call {γ : Type} (c : Call γ) (next : γ → Session β)

namespace Session

variable {β : Type}

def program : Session β → Program β
  | done value => pure value
  | fail e => .throw e
  | call c next => c.program >>= fun value => (next value).program

/-- What is read of bytes that are all there. -/
def reader : Session β → Reader β
  | done value => pure value
  | fail e => throwException e
  | call c next => c.reader >>= fun value => (next value).reader

theorem reader_program (session : Session β) : session.program.reader = session.reader := by
  induction session with
  | done value => exact Program.reader_pure value
  | fail e => rfl
  | call c next ih =>
      rw [program, reader, Program.reader_bind, c.reader_program]
      exact congrArg _ (funext ih)

/-- On a stream the session returns what it returns on the bytes themselves, or throws the same, and
    leaves the same bytes; if it throws, the last request that it has been granted is the same. -/
def ReadsAlike (session : Session β) (delivery : Requests.Delivery) (payload : List UInt8) : Prop :=
  session.program.onStream .endOfFile delivery 0 payload = session.program.onList .endOfFile payload

/-- On a stream a session reads what it reads on the bytes of the stream if and only if every one of
    its requests that the bytes left can meet is met by one call of `read` or `skip`. -/
theorem readsAlike_iff (session : Session β) (delivery : Requests.Delivery)
    (payload : List UInt8) :
    session.ReadsAlike delivery payload ↔ session.program.Delivered delivery 0 payload :=
  Requests.onStream_eq_onList_iff Exception.endOfFile delivery session.program 0 payload

/-- On an array of bytes, which delivers as much as it has, every session reads alike. -/
theorem readsAlike_of_whole (session : Session β) {delivery : Requests.Delivery}
    (h : ∀ call request left, delivery.amount call request left = min request left)
    (payload : List UInt8) : session.ReadsAlike delivery payload :=
  (Requests.onStream_eq_onList_iff _ delivery _ 0 payload).2
    (Requests.delivered_of_whole delivery h session.program 0 payload)

/-- One byte at a time. -/
def byteByByte : Requests.Delivery where
  amount _ request left := min 1 (min request left)
  amount_le _ _ _ := Nat.min_le_right _ _
  amount_pos call request left hrequest hleft := by omega

/-- An integer of two bytes that come one at a time. -/
theorem readInt16_not_readsAlike :
    ¬ ∀ (session : Session BasicValue) (delivery : Requests.Delivery) (payload : List UInt8),
      session.ReadsAlike delivery payload := by
  intro h
  have hread := congrArg Prod.fst
    (h (.call (.read .fastBinary .int16) .done) byteByByte [1, 2])
  cases hread

end Session

end Bond.Java

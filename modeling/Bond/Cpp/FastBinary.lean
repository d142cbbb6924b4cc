import Bond.Cpp.Scalars
import Bond.Cpp.Skip

set_option autoImplicit false

/-! # Fast Binary

`FastBinaryReader` and `FastBinaryWriter` (cpp/inc/bond/protocol/fast_binary.h). -/

namespace Bond.Cpp

open Decoder Varint InputBuffer

namespace FastBinary

/-! ## Writer -/

/-- `WriteType` -/
def writeType (type : BondDataType) : List OutputCall :=
  [.write [type.toUInt8]]

def writeFieldBegin (type : BondDataType) (id : UInt16) : List OutputCall :=
  writeType type ++ [.write (littleEndian 2 id.toNat)]

def writeContainerBegin (size : UInt32) (type : BondDataType) : List OutputCall :=
  writeType type ++ [.writeVariableUnsigned (.uint32 size)]

/-- `WriteContainerBegin` for a container of pairs -/
def writeContainerBeginPair (size : UInt32) (key element : BondDataType) : List OutputCall :=
  writeType key ++ writeType element ++ [.writeVariableUnsigned (.uint32 size)]

def write (value : BasicValue) : List OutputCall :=
  if value.type.isString then writeString value else writeFixed value

def writer : ProtocolWriter where
  lengthBegin _ := []
  writeFieldBegin := writeFieldBegin
  writeContainerBegin := writeContainerBegin
  writeContainerBeginPair := writeContainerBeginPair
  write := write
  fieldBegin_pos type id := by simp [outputBytes, writeFieldBegin, writeType]
  containerBegin_pos size type := by simp [outputBytes, writeContainerBegin, writeType]
  containerBeginPair_pos size key element := by
    simp [outputBytes, writeContainerBeginPair, writeType]

/-! ## Reader -/

/-- `ReadType` -/
def readType : Reader BondDataType :=
  BondDataType.ofUInt8 <$> readUInt8

def readFieldBegin : Reader (BondDataType × UInt16) := do
  let type ← readType
  if type ≠ .stop ∧ type ≠ .stopBase then
    let id ← readUnsigned 2
    return (type, UInt16.ofNat id)
  else
    return (type, 0)

def readContainerBegin : Reader (Nat × BondDataType) := do
  let type ← readType
  let size ← readVariableUnsigned .w32
  return (size, type)

/-- `ReadContainerBegin` for a container of pairs -/
def readContainerBeginPair : Reader (Nat × BondDataType × BondDataType) := do
  let key ← readType
  let element ← readType
  let size ← readVariableUnsigned .w32
  return (size, key, element)

def read (type : BasicType) : Reader BasicValue :=
  if type.isString then readString type else readFixed type

theorem decodes_readType (type : BondDataType) (h : type.isValue = true) :
    Decodes readType (outputBytes (writeType type)) (pure type) := by
  have hread := (decodes_readUInt8 type.toUInt8).map BondDataType.ofUInt8
  rwa [map_pure, BondDataType.ofUInt8_toUInt8 h] at hread

theorem decodes_readFieldBegin (type : BondDataType) (id : UInt16) (h : type.isValue = true) :
    Decodes readFieldBegin (outputBytes (writeFieldBegin type id)) (pure (type, id)) := by
  have htype : type ≠ .stop ∧ type ≠ .stopBase := by
    constructor <;> rintro rfl <;> exact absurd h (by decide)
  have hid := (decodes_readUnsigned 2 id.toNat id.toNat_lt).bind_return
    fun id => (type, UInt16.ofNat id)
  rw [UInt16.ofNat_toNat] at hid
  rw [writeFieldBegin, outputBytes_append, readFieldBegin]
  refine (decodes_readType type h).bind_pure ?_
  rw [if_pos htype, outputBytes_cons, outputBytes_nil, List.append_nil, bytes_write]
  exact hid

theorem decodes_structEnd (base : Bool) :
    Decodes readFieldBegin (stopBytes base) (pure (if base then .stopBase else .stop, 0)) := by
  rw [readFieldBegin, ← List.append_nil (stopBytes base)]
  cases base with
  | false => exact ((decodes_readUInt8 0).map BondDataType.ofUInt8).bind_pure (Decodes.pure _)
  | true => exact ((decodes_readUInt8 1).map BondDataType.ofUInt8).bind_pure (Decodes.pure _)

theorem decodes_readContainerBegin (size : UInt32) (type : BondDataType)
    (h : type.isValue = true) :
    Decodes readContainerBegin (outputBytes (writeContainerBegin size type))
      (pure (size.toNat, type)) := by
  have hsize := (decodes_readVariableUnsigned .w32 size.toNat size.toNat_lt).bind_return
    fun size => (size, type)
  rw [writeContainerBegin, outputBytes_append, readContainerBegin]
  refine (decodes_readType type h).bind_pure ?_
  simpa [VarUnsigned.toNat] using hsize

theorem decodes_readContainerBeginPair (size : UInt32) (key element : BondDataType)
    (hkey : key.isValue = true) (helement : element.isValue = true) :
    Decodes readContainerBeginPair (outputBytes (writeContainerBeginPair size key element))
      (pure (size.toNat, key, element)) := by
  have hsize := (decodes_readVariableUnsigned .w32 size.toNat size.toNat_lt).bind_return
    fun size => (size, key, element)
  rw [writeContainerBeginPair, outputBytes_append, outputBytes_append, List.append_assoc,
    readContainerBeginPair]
  refine (decodes_readType key hkey).bind_pure ((decodes_readType element helement).bind_pure ?_)
  simpa [VarUnsigned.toNat] using hsize

theorem decodes_read (value : BasicValue) (h : value.wellFormed = true) :
    Decodes (read value.type) (outputBytes (write value)) (pure value) := by
  rw [read, write]
  cases hstring : value.type.isString with
  | true => exact decodes_readString value hstring h
  | false => exact decodes_readFixed value hstring

/-! ## Skipping -/

/-- `SkipType<T>(size)` for a basic type -/
def skipBasic (type : BasicType) (size : Nat) : Reader Unit :=
  if type.isString then do
    let _ ← repeatN size (skipString type)
    return ()
  else
    checkedMultiply size type.sizeof >>= InputBuffer.skip

/-- `SkipType<BT_STRUCT>()` -/
def skipStruct (skipType : BondDataType → Reader Unit) (bound : Nat) : Reader Unit := do
  let _ ← readLevelsLoop readFieldBegin (fun _ type => skipType type) bound bound
  return ()

theorem decodes_skipBasic (type : BasicType) (vs : List BasicValue)
    (h : ∀ v ∈ vs, v.type = type ∧ v.wellFormed = true) :
    Decodes (skipBasic type vs.length) (vs.flatMap fun v => outputBytes (write v)) (pure ()) := by
  rw [skipBasic]
  cases hstring : type.isString with
  | true =>
      refine Decodes.repeatN_discard vs fun v hv => ?_
      obtain ⟨rfl, hwf⟩ := h v hv
      rw [write, if_pos hstring]
      exact decodes_skipString v hstring hwf
  | false =>
      have hfixed : ∀ v ∈ vs, outputBytes (write v) = outputBytes (writeFixed v) := by
        intro v hv
        obtain ⟨rfl, -⟩ := h v hv
        rw [write, if_neg (by simp [hstring])]
      rw [List.flatMap_congr hfixed]
      exact decodes_checkedMultiply_skip (writeFixed_length type vs fun v hv => (h v hv).1)

theorem decodesFields : DecodesFields writer readFieldBegin where
  begin_ := decodes_readFieldBegin
  end_ := decodes_structEnd

theorem decodes_skipStruct (s : StructValue) (skipType : BondDataType → Reader Unit) (bound : Nat)
    (hfields : ∀ fs ∈ s.levels, ∀ f ∈ fs,
      Decodes (skipType f.2.typeId) (f.2.encode writer) (pure ()))
    (hbound : (s.encode writer).length < bound) :
    Decodes (skipStruct skipType bound) (s.encode writer) (pure ()) := by
  have hbody : s.encode writer = s.encodeBody writer ++ stopBytes false := encode_struct writer s
  rw [hbody, List.length_append, stopBytes_length] at hbound
  rw [hbody]
  exact decodes_skipLevels decodesFields s skipType bound hfields hbound

def skipRules : SkipRules writer where
  readContainerBegin := readContainerBegin
  readContainerBeginPair := readContainerBeginPair
  skipBasic := skipBasic
  skipStruct := skipStruct
  decodes_containerBegin := decodes_readContainerBegin
  decodes_containerBeginPair := decodes_readContainerBeginPair
  decodes_skipBasic := decodes_skipBasic
  decodes_skipStruct := decodes_skipStruct

def reader : ProtocolReader where
  readStructBegin _ := return ()
  readFieldBegin := readFieldBegin
  readContainerBegin := readContainerBegin
  readContainerBeginPair := readContainerBeginPair
  read := read
  skip := skipRules.skip

end FastBinary

def fastBinary : TaggedProtocol where
  reader := FastBinary.reader
  writer := FastBinary.writer
  decodes_structBegin _ := decodes_nothing
  decodes_structBegin_base := decodes_nothing
  decodes_fieldBegin := FastBinary.decodes_readFieldBegin
  decodes_structEnd := FastBinary.decodes_structEnd
  decodes_containerBegin := FastBinary.decodes_readContainerBegin
  decodes_containerBeginPair := FastBinary.decodes_readContainerBeginPair
  decodes_read := FastBinary.decodes_read
  decodes_skip := FastBinary.skipRules.decodes_skip

end Bond.Cpp

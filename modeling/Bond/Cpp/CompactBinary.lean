import Bond.Cpp.Scalars
import Bond.Cpp.Skip

set_option autoImplicit false

/-! # Compact Binary

`CompactBinaryReader` and `CompactBinaryWriter` (cpp/inc/bond/protocol/compact_binary.h), in both
versions. Where a header packs two numbers into a byte, the type id takes the five low bits and
the field id or the count of items the three high ones. -/

namespace Bond.Cpp

open Decoder Varint InputBuffer

namespace CompactBinary

inductive Version where
  | v1 | v2
deriving DecidableEq, Repr

/-! ## Writer -/

def writeFieldBegin (type : BondDataType) (id : UInt16) : List OutputCall :=
  if id ≤ 5 then
    [.write [type.toUInt8 ||| (id.toUInt8 <<< 5)]]
  else if id ≤ 0xff then
    [.write [type.toUInt8 ||| ((0x06 : UInt8) <<< 5)], .write [id.toUInt8]]
  else
    [.write [type.toUInt8 ||| ((0x07 : UInt8) <<< 5)], .write (littleEndian 2 id.toNat)]

def writeContainerBegin (version : Version) (size : UInt32) (type : BondDataType) :
    List OutputCall :=
  if version = .v2 ∧ size < 7 then
    [.write [type.toUInt8 ||| ((size + 1).toUInt8 <<< 5)]]
  else
    [.write [type.toUInt8], .writeVariableUnsigned (.uint32 size)]

/-- `WriteContainerBegin` for a container of pairs -/
def writeContainerBeginPair (size : UInt32) (key element : BondDataType) : List OutputCall :=
  [.write [key.toUInt8], .write [element.toUInt8], .writeVariableUnsigned (.uint32 size)]

/-- `Write`, by the overload for the type of the value -/
def write : BasicValue → List OutputCall
  | .uint16 v => [.writeVariableUnsigned (.uint16 v)]
  | .uint32 v => [.writeVariableUnsigned (.uint32 v)]
  | .uint64 v => [.writeVariableUnsigned (.uint64 v)]
  | .int16 v => [.writeVariableUnsigned (.uint16 (.ofBitVec (encodeZigZag v.toBitVec)))]
  | .int32 v => [.writeVariableUnsigned (.uint32 (.ofBitVec (encodeZigZag v.toBitVec)))]
  | .int64 v => [.writeVariableUnsigned (.uint64 (.ofBitVec (encodeZigZag v.toBitVec)))]
  | .string units => writeString (.string units)
  | .wstring units => writeString (.wstring units)
  | v => writeFixed v

/-- `LengthBegin` of the second pass -/
def lengthBegin (version : Version) (length : UInt32) : List OutputCall :=
  if version = .v2 then [.writeVariableUnsigned (.uint32 length)] else []

def writer (version : Version) : ProtocolWriter where
  lengthBegin := lengthBegin version
  writeFieldBegin := writeFieldBegin
  writeContainerBegin := writeContainerBegin version
  writeContainerBeginPair := writeContainerBeginPair
  write := write
  fieldBegin_pos type id := by
    rw [writeFieldBegin]
    split_ifs <;> simp
  containerBegin_pos size type := by
    rw [writeContainerBegin]
    split_ifs <;> simp
  containerBeginPair_pos size key element := by simp [writeContainerBeginPair]

/-! ## Reader -/

def readStructBegin (version : Version) (base : Bool) : Reader Unit :=
  if base = false ∧ version = .v2 then do
    let _ ← readVariableUnsigned .w32
    return ()
  else
    return ()

def readFieldBegin : Reader (BondDataType × UInt16) := do
  let raw ← readUInt8
  let type := BondDataType.ofUInt8 (raw &&& 0x1f)
  let id := raw &&& ((0x07 : UInt8) <<< 5)
  if id = (0x07 : UInt8) <<< 5 then
    -- the id is in the next two bytes
    let id ← readUnsigned 2
    return (type, UInt16.ofNat id)
  else if id = (0x06 : UInt8) <<< 5 then
    -- the id is in the next byte
    let raw ← readUInt8
    return (type, raw.toUInt16)
  else
    return (type, (id >>> 5).toUInt16)

def readContainerBegin (version : Version) : Reader (Nat × BondDataType) := do
  let raw ← readUInt8
  let type := BondDataType.ofUInt8 (raw &&& 0x1f)
  if version = .v2 ∧ raw &&& ((0x07 : UInt8) <<< 5) ≠ 0 then
    return ((raw >>> 5).toNat - 1, type)
  else
    let size ← readVariableUnsigned .w32
    return (size, type)

/-- `ReadContainerBegin` for a container of pairs; here the type bytes are not masked. -/
def readContainerBeginPair : Reader (Nat × BondDataType × BondDataType) := do
  let raw ← readUInt8
  let key := BondDataType.ofUInt8 raw
  let raw ← readUInt8
  let element := BondDataType.ofUInt8 raw
  let size ← readVariableUnsigned .w32
  return (size, key, element)

/-- `Read`, by the overload for the type of the value -/
def read : BasicType → Reader BasicValue
  | .uint16 => do return .uint16 (UInt16.ofNat (← readVariableUnsigned .w16))
  | .uint32 => do return .uint32 (UInt32.ofNat (← readVariableUnsigned .w32))
  | .uint64 => do return .uint64 (UInt64.ofNat (← readVariableUnsigned .w64))
  | .int16 => do
      return .int16 (.ofBitVec (decodeZigZag (BitVec.ofNat 16 (← readVariableUnsigned .w16))))
  | .int32 => do
      return .int32 (.ofBitVec (decodeZigZag (BitVec.ofNat 32 (← readVariableUnsigned .w32))))
  | .int64 => do
      return .int64 (.ofBitVec (decodeZigZag (BitVec.ofNat 64 (← readVariableUnsigned .w64))))
  | .string => readString .string
  | .wstring => readString .wstring
  | type => readFixed type

/-! ### Packed bytes -/

/-- What a header byte's low and high bits are. -/
theorem packed (type high : UInt8) (htype : type.toNat < 32) (hhigh : high.toNat < 8) :
    (type ||| (high <<< 5)) &&& 0x1f = type ∧
      (type ||| (high <<< 5)) &&& ((0x07 : UInt8) <<< 5) = high <<< 5 ∧
      (type ||| (high <<< 5)) >>> 5 = high ∧ (high <<< 5) >>> 5 = high := by
  have hall : ∀ t < 32, ∀ h < 8,
      (UInt8.ofNat t ||| (UInt8.ofNat h <<< 5)) &&& 0x1f = UInt8.ofNat t ∧
        (UInt8.ofNat t ||| (UInt8.ofNat h <<< 5)) &&& ((0x07 : UInt8) <<< 5) = UInt8.ofNat h <<< 5 ∧
        (UInt8.ofNat t ||| (UInt8.ofNat h <<< 5)) >>> 5 = UInt8.ofNat h ∧
        (UInt8.ofNat h <<< 5) >>> 5 = UInt8.ofNat h := by decide +kernel
  have hboth := hall type.toNat htype high.toNat hhigh
  rwa [UInt8.ofNat_toNat, UInt8.ofNat_toNat] at hboth

theorem shift_ne {high high' : UInt8} (hhigh : high.toNat < 8) (hhigh' : high'.toNat < 8)
    (hne : high ≠ high') : high <<< 5 ≠ high' <<< 5 := by
  intro heq
  have h := (packed 0 high (by decide) hhigh).2.2.2
  have h' := (packed 0 high' (by decide) hhigh').2.2.2
  rw [heq, h'] at h
  exact hne h.symm

theorem toUInt8_toUInt16 {id : UInt16} (h : id.toNat < 256) : id.toUInt8.toUInt16 = id := by
  apply UInt16.toNat_inj.1
  rw [UInt8.toNat_toUInt16, UInt16.toNat_toUInt8]
  omega

theorem decodes_readFieldBegin (type : BondDataType) (id : UInt16) (h : type.isValue = true) :
    Decodes readFieldBegin (outputBytes (writeFieldBegin type id)) (pure (type, id)) := by
  have htype := BondDataType.toUInt8_lt h
  have hself := BondDataType.ofUInt8_toUInt8 h
  rw [writeFieldBegin, readFieldBegin]
  split_ifs with h5 hff
  · -- one byte
    have hid : id.toNat ≤ 5 := UInt16.le_iff_toNat_le.1 h5
    have hid8 : id.toUInt8.toNat = id.toNat := by
      rw [UInt16.toNat_toUInt8]
      omega
    have hne : id.toUInt8 ≠ 7 ∧ id.toUInt8 ≠ 6 := by
      constructor <;> intro heq <;> rw [heq] at hid8 <;> simp at hid8 <;> omega
    obtain ⟨hlow, hhigh, -, hshift⟩ := packed type.toUInt8 id.toUInt8 htype (by omega)
    rw [outputBytes_cons, outputBytes_nil, bytes_write]
    refine (decodes_readUInt8 _).bind_pure ?_
    simp only [hlow, hhigh, hself, hshift]
    rw [if_neg (shift_ne (by omega) (by decide) hne.1),
      if_neg (shift_ne (by omega) (by decide) hne.2), toUInt8_toUInt16 (by omega)]
    exact Decodes.pure _
  · -- the id in a byte of its own
    have hid : id.toNat ≤ 0xff := UInt16.le_iff_toNat_le.1 hff
    obtain ⟨hlow, hhigh, -, -⟩ := packed type.toUInt8 6 htype (by decide)
    rw [outputBytes_cons, outputBytes_cons, outputBytes_nil, List.append_nil, bytes_write,
      bytes_write]
    refine (decodes_readUInt8 _).bind_pure ?_
    simp only [hlow, hhigh, hself]
    rw [if_neg (shift_ne (by decide) (by decide) (by decide)), if_pos trivial]
    have hread := (decodes_readUInt8 id.toUInt8).bind_return fun raw => (type, raw.toUInt16)
    rwa [toUInt8_toUInt16 (by omega)] at hread
  · -- the id in two bytes
    obtain ⟨hlow, hhigh, -, -⟩ := packed type.toUInt8 7 htype (by decide)
    rw [outputBytes_cons, outputBytes_cons, outputBytes_nil, List.append_nil, bytes_write,
      bytes_write]
    refine (decodes_readUInt8 _).bind_pure ?_
    simp only [hlow, hhigh, hself]
    rw [if_pos trivial]
    have hread := (decodes_readUnsigned 2 id.toNat id.toNat_lt).bind_return
      fun id => (type, UInt16.ofNat id)
    rwa [UInt16.ofNat_toNat] at hread

theorem decodes_structEnd (base : Bool) :
    Decodes readFieldBegin (stopBytes base) (pure (if base then .stopBase else .stop, 0)) := by
  rw [readFieldBegin, ← List.append_nil (stopBytes base)]
  cases base with
  | false => exact (decodes_readUInt8 0).bind_pure (Decodes.pure _)
  | true => exact (decodes_readUInt8 1).bind_pure (Decodes.pure _)

theorem decodes_readStructBegin (version : Version) (length : UInt32) :
    Decodes (readStructBegin version false) (outputBytes (lengthBegin version length))
      (pure ()) := by
  cases version with
  | v1 => exact Decodes.pure _
  | v2 =>
      have hread := (decodes_readVariableUnsigned .w32 length.toNat length.toNat_lt).bind_return
        fun _ => ()
      simpa [readStructBegin, lengthBegin, VarUnsigned.toNat] using hread

theorem decodes_readContainerBegin (version : Version) (size : UInt32) (type : BondDataType)
    (h : type.isValue = true) :
    Decodes (readContainerBegin version) (outputBytes (writeContainerBegin version size type))
      (pure (size.toNat, type)) := by
  have htype := BondDataType.toUInt8_lt h
  have hself := BondDataType.ofUInt8_toUInt8 h
  rw [writeContainerBegin, readContainerBegin]
  split_ifs with hshort
  · -- the count is packed into the type byte
    obtain ⟨hversion, hlt⟩ := hshort
    have hsize : size.toNat < 7 := UInt32.lt_iff_toNat_lt.1 hlt
    have hcount : (size + 1).toUInt8.toNat = size.toNat + 1 := by
      rw [UInt32.toNat_toUInt8, UInt32.toNat_add]
      simp
      omega
    obtain ⟨hlow, hhigh, hshift, hback⟩ := packed type.toUInt8 (size + 1).toUInt8 htype (by omega)
    have hnonzero : (size + 1).toUInt8 <<< 5 ≠ 0 := by
      intro hzero
      rw [hzero] at hback
      rw [← hback] at hcount
      simp at hcount
    rw [outputBytes_cons, outputBytes_nil, bytes_write]
    refine (decodes_readUInt8 _).bind_pure ?_
    simp only [hlow, hhigh, hself, hshift]
    rw [if_pos ⟨hversion, hnonzero⟩, hcount]
    exact Decodes.pure _
  · -- the count follows
    obtain ⟨hlow, hhigh, -, -⟩ := packed type.toUInt8 0 htype (by decide)
    have hzero : type.toUInt8 ||| ((0 : UInt8) <<< 5) = type.toUInt8 := by simp
    rw [hzero] at hlow hhigh
    have hread := (decodes_readVariableUnsigned .w32 size.toNat size.toNat_lt).bind_return
      fun size => (size, type)
    rw [outputBytes_cons, outputBytes_cons, outputBytes_nil, List.append_nil, bytes_write,
      bytes_writeVariableUnsigned, VarUnsigned.toNat]
    refine (decodes_readUInt8 _).bind_pure ?_
    simp only [hlow, hhigh, hself]
    rw [if_neg (by simp)]
    exact hread

theorem decodes_readContainerBeginPair (size : UInt32) (key element : BondDataType)
    (hkey : key.isValue = true) (helement : element.isValue = true) :
    Decodes readContainerBeginPair (outputBytes (writeContainerBeginPair size key element))
      (pure (size.toNat, key, element)) := by
  have hread := (decodes_readVariableUnsigned .w32 size.toNat size.toNat_lt).bind_return
    fun size => (size, key, element)
  rw [writeContainerBeginPair, readContainerBeginPair, outputBytes_cons, outputBytes_cons,
    outputBytes_cons, outputBytes_nil, List.append_nil, bytes_write, bytes_write,
    bytes_writeVariableUnsigned, VarUnsigned.toNat]
  refine (decodes_readUInt8 _).bind_pure ((decodes_readUInt8 _).bind_pure ?_)
  simp only [BondDataType.ofUInt8_toUInt8 hkey, BondDataType.ofUInt8_toUInt8 helement]
  exact hread

/-- The variable-length integer behind a value, if it is written as one. -/
def varUnsigned : BasicValue → Option VarUnsigned
  | .uint16 v => some (.uint16 v)
  | .uint32 v => some (.uint32 v)
  | .uint64 v => some (.uint64 v)
  | .int16 v => some (.uint16 (.ofBitVec (encodeZigZag v.toBitVec)))
  | .int32 v => some (.uint32 (.ofBitVec (encodeZigZag v.toBitVec)))
  | .int64 v => some (.uint64 (.ofBitVec (encodeZigZag v.toBitVec)))
  | _ => none

theorem outputBytes_write {v : BasicValue} {u : VarUnsigned} (h : varUnsigned v = some u) :
    outputBytes (write v) = varint u.toNat := by
  cases v <;> simp only [varUnsigned, Option.some.injEq, reduceCtorEq] at h <;> subst h <;>
    rw [write, outputBytes_cons, outputBytes_nil, List.append_nil, bytes_writeVariableUnsigned]

theorem ofNat_zigZag {w : Nat} (v : BitVec w) :
    decodeZigZag (BitVec.ofNat w (encodeZigZag v).toNat) = v := by
  rw [BitVec.ofNat_toNat, BitVec.setWidth_eq, decodeZigZag_encodeZigZag]

/-- A reader that converts a variable-length integer back. -/
theorem decodes_readVarUnsigned (u : VarUnsigned) (convert : Nat → BasicValue) {v : BasicValue}
    (h : convert u.toNat = v) :
    Decodes (readVariableUnsigned u.width >>= fun n => pure (convert n)) (varint u.toNat)
      (pure v) := by
  rw [← h]
  exact (decodes_readVariableUnsigned u.width u.toNat u.toNat_lt).bind_return convert

theorem decodes_read (value : BasicValue) (h : value.wellFormed = true) :
    Decodes (read value.type) (outputBytes (write value)) (pure value) := by
  cases value with
  | uint16 v =>
      rw [outputBytes_write rfl]
      refine decodes_readVarUnsigned (.uint16 v) (fun n => .uint16 (UInt16.ofNat n)) ?_
      rw [VarUnsigned.toNat, UInt16.ofNat_toNat]
  | uint32 v =>
      rw [outputBytes_write rfl]
      refine decodes_readVarUnsigned (.uint32 v) (fun n => .uint32 (UInt32.ofNat n)) ?_
      rw [VarUnsigned.toNat, UInt32.ofNat_toNat]
  | uint64 v =>
      rw [outputBytes_write rfl]
      refine decodes_readVarUnsigned (.uint64 v) (fun n => .uint64 (UInt64.ofNat n)) ?_
      rw [VarUnsigned.toNat, UInt64.ofNat_toNat]
  | int16 v =>
      rw [outputBytes_write rfl]
      exact decodes_readVarUnsigned (.uint16 (.ofBitVec (encodeZigZag v.toBitVec)))
        (fun n => .int16 (.ofBitVec (decodeZigZag (BitVec.ofNat 16 n))))
        (congrArg (BasicValue.int16 ∘ Int16.ofBitVec) (ofNat_zigZag v.toBitVec))
  | int32 v =>
      rw [outputBytes_write rfl]
      exact decodes_readVarUnsigned (.uint32 (.ofBitVec (encodeZigZag v.toBitVec)))
        (fun n => .int32 (.ofBitVec (decodeZigZag (BitVec.ofNat 32 n))))
        (congrArg (BasicValue.int32 ∘ Int32.ofBitVec) (ofNat_zigZag v.toBitVec))
  | int64 v =>
      rw [outputBytes_write rfl]
      exact decodes_readVarUnsigned (.uint64 (.ofBitVec (encodeZigZag v.toBitVec)))
        (fun n => .int64 (.ofBitVec (decodeZigZag (BitVec.ofNat 64 n))))
        (congrArg (BasicValue.int64 ∘ Int64.ofBitVec) (ofNat_zigZag v.toBitVec))
  | string units => exact decodes_readString (.string units) rfl h
  | wstring units => exact decodes_readString (.wstring units) rfl h
  | bool v => exact decodes_readFixed (.bool v) rfl
  | uint8 v => exact decodes_readFixed (.uint8 v) rfl
  | int8 v => exact decodes_readFixed (.int8 v) rfl
  | float bits => exact decodes_readFixed (.float bits) rfl
  | double bits => exact decodes_readFixed (.double bits) rfl

/-! ## Skipping -/

/-- `SkipType<T>(size)` for a basic type; every integer is read as a `uint64_t`. -/
def skipBasic (type : BasicType) (size : Nat) : Reader Unit :=
  match type with
  | .bool | .uint8 | .int8 => checkedMultiply size 1 >>= InputBuffer.skip
  | .uint16 | .uint32 | .uint64 | .int16 | .int32 | .int64 => do
      let _ ← repeatN size do
        let _ ← readVariableUnsigned .w64
        return ()
      return ()
  | .float => checkedMultiply size 4 >>= InputBuffer.skip
  | .double => checkedMultiply size 8 >>= InputBuffer.skip
  | .string | .wstring => do
      let _ ← repeatN size (skipString type)
      return ()

/-- `SkipStructV1` -/
def skipStructV1 (skipType : BondDataType → Reader Unit) (bound : Nat) : Reader Unit := do
  let _ ← readLevelsLoop readFieldBegin (fun _ type => skipType type) bound bound
  return ()

/-- `SkipStructV2` -/
def skipStructV2 : Reader Unit := do
  let length ← readVariableUnsigned .w32
  InputBuffer.skip length

/-- `SkipType<BT_STRUCT>()` -/
def skipStruct (version : Version) (skipType : BondDataType → Reader Unit) (bound : Nat) :
    Reader Unit :=
  if version = .v2 then skipStructV2 else skipStructV1 skipType bound

theorem decodes_skipVarUnsigned (u : VarUnsigned) :
    Decodes (readVariableUnsigned .w64 >>= fun _ => pure ()) (varint u.toNat) (pure ()) := by
  have hlt : u.toNat < 2 ^ VarWidth.w64.bits :=
    Nat.lt_of_lt_of_le u.toNat_lt (by cases u.width <;> decide)
  exact (decodes_readVariableUnsigned .w64 u.toNat hlt).bind_return fun _ => ()

theorem decodes_skipBasic (type : BasicType) (vs : List BasicValue)
    (h : ∀ v ∈ vs, v.type = type ∧ v.wellFormed = true) :
    Decodes (skipBasic type vs.length) (vs.flatMap fun v => outputBytes (write v)) (pure ()) := by
  have hfixed (hwrite : ∀ v ∈ vs, outputBytes (write v) = outputBytes (writeFixed v)) :
      Decodes (checkedMultiply vs.length type.sizeof >>= InputBuffer.skip)
        (vs.flatMap fun v => outputBytes (write v)) (pure ()) := by
    rw [List.flatMap_congr hwrite]
    exact decodes_checkedMultiply_skip (writeFixed_length type vs fun v hv => (h v hv).1)
  have hvar (hwrite : ∀ v ∈ vs, ∃ u, varUnsigned v = some u) :
      Decodes (repeatN vs.length (readVariableUnsigned .w64 >>= fun _ => pure ())
        >>= fun _ => pure ()) (vs.flatMap fun v => outputBytes (write v)) (pure ()) := by
    refine Decodes.repeatN_discard vs fun v hv => ?_
    obtain ⟨u, hu⟩ := hwrite v hv
    rw [outputBytes_write hu]
    exact decodes_skipVarUnsigned u
  have hstring (hwrite : ∀ v ∈ vs, outputBytes (write v) = outputBytes (writeString v))
      (htype : type.isString = true) :
      Decodes (repeatN vs.length (skipString type) >>= fun _ => pure ())
        (vs.flatMap fun v => outputBytes (write v)) (pure ()) := by
    refine Decodes.repeatN_discard vs fun v hv => ?_
    obtain ⟨rfl, hwf⟩ := h v hv
    rw [hwrite v hv]
    exact decodes_skipString v htype hwf
  cases type with
  | bool | uint8 | int8 | float | double =>
      refine hfixed fun v hv => ?_
      have hv := (h v hv).1
      cases v <;> simp [BasicValue.type] at hv
      rfl
  | uint16 | uint32 | uint64 | int16 | int32 | int64 =>
      refine hvar fun v hv => ?_
      have hv := (h v hv).1
      cases v <;> simp [BasicValue.type] at hv
      exact ⟨_, rfl⟩
  | string | wstring =>
      refine hstring (fun v hv => ?_) rfl
      have hv := (h v hv).1
      cases v <;> simp [BasicValue.type] at hv
      rfl

theorem decodesFields (version : Version) : DecodesFields (writer version) readFieldBegin where
  begin_ := decodes_readFieldBegin
  end_ := decodes_structEnd

theorem outputBytes_lengthBegin (length : UInt32) :
    outputBytes ((writer .v2).lengthBegin length) = varint length.toNat := by
  simp [writer, lengthBegin, VarUnsigned.toNat]

/-- The length a struct starts with takes the reader to its end: what fits a buffer has a length
    that fits a `uint32_t`. -/
theorem decodes_skipStructV2 (s : StructValue) :
    Decodes skipStructV2 (s.encode (writer .v2)) (pure ()) := by
  intro b rest hb
  have hencode : s.encode (writer .v2) = _ := encode_struct (writer .v2) s
  rw [hencode] at hb ⊢
  generalize hbody : s.encodeBody (writer .v2) ++ stopBytes false = body at hb ⊢
  have hfits : body.length < 2 ^ 32 := by
    have hlt := InputBuffer.remaining_length_lt b
    rw [hb, List.length_append, List.length_append] at hlt
    omega
  have hlength : (UInt32.ofNat body.length).toNat = body.length :=
    UInt32.toNat_ofNat_of_lt' hfits
  have hread := decodes_readVariableUnsigned .w32 body.length hfits
  rw [outputBytes_lengthBegin, hlength] at hb ⊢
  exact (hread.bind_pure (decodes_skip body)) b rest hb

theorem decodes_skipStruct (version : Version) (s : StructValue)
    (skipType : BondDataType → Reader Unit) (bound : Nat)
    (hfields : ∀ fs ∈ s.levels, ∀ f ∈ fs,
      Decodes (skipType f.2.typeId) (f.2.encode (writer version)) (pure ()))
    (hbound : (s.encode (writer version)).length < bound) :
    Decodes (skipStruct version skipType bound) (s.encode (writer version)) (pure ()) := by
  cases version with
  | v2 => exact decodes_skipStructV2 s
  | v1 =>
      have hbody : s.encode (writer .v1) = s.encodeBody (writer .v1) ++ stopBytes false :=
        encode_struct (writer .v1) s
      rw [hbody, List.length_append, stopBytes_length] at hbound
      rw [hbody]
      exact decodes_skipLevels (decodesFields .v1) s skipType bound hfields hbound

def skipRules (version : Version) : SkipRules (writer version) where
  readContainerBegin := readContainerBegin version
  readContainerBeginPair := readContainerBeginPair
  skipBasic := skipBasic
  skipStruct := skipStruct version
  decodes_containerBegin := decodes_readContainerBegin version
  decodes_containerBeginPair := decodes_readContainerBeginPair
  decodes_skipBasic := decodes_skipBasic
  decodes_skipStruct := decodes_skipStruct version

def reader (version : Version) : ProtocolReader where
  readStructBegin := readStructBegin version
  readFieldBegin := readFieldBegin
  readContainerBegin := readContainerBegin version
  readContainerBeginPair := readContainerBeginPair
  read := read
  skip := (skipRules version).skip

end CompactBinary

def compactBinary (version : CompactBinary.Version) : TaggedProtocol where
  reader := CompactBinary.reader version
  writer := CompactBinary.writer version
  decodes_structBegin := CompactBinary.decodes_readStructBegin version
  decodes_structBegin_base := decodes_nothing
  decodes_fieldBegin := CompactBinary.decodes_readFieldBegin
  decodes_structEnd := CompactBinary.decodes_structEnd
  decodes_containerBegin := CompactBinary.decodes_readContainerBegin version
  decodes_containerBeginPair := CompactBinary.decodes_readContainerBeginPair
  decodes_read := CompactBinary.decodes_read
  decodes_skip := (CompactBinary.skipRules version).decodes_skip

end Bond.Cpp

import Bond.Interop.Payload
import Bond.Interop.Writers
import Bond.Cs.Skip
import Bond.Cs.VarintPaths
import Bond.Java.ReaderGrammar
import Bond.Java.SimpleBinary
import Bond.Cs.SimpleBinary

set_option autoImplicit false

/-! # The tagged readers of C#

`CompactBinaryReader` and `FastBinaryReader` (cs/src/core/protocols/CompactBinary.cs,
FastBinary.cs) read what is written in any language. Strings are given by the code units that they
are decoded from. -/

namespace Bond.Cs

open Bond.Cpp (BondDataType BasicType outputBytes stopBytes)
open Bond.Interop (PayloadReader Reads)
open Bond.Lib
open Decoder Varint
open InputBuffer

/-! ## Zigzag -/

namespace IntegerHelper

/-- The shift and the negation are those of an `int`. -/
def decodeZigzag16 (value : UInt16) : Int16 :=
  ((value.toUInt32 >>> 1).toInt32 ^^^ -(value.toUInt32 &&& 1).toInt32).toInt16

/-- The negation is that of a `long`. -/
def decodeZigzag32 (value : UInt32) : Int32 :=
  ((value >>> 1).toUInt64.toInt64 ^^^ -(value &&& 1).toUInt64.toInt64).toInt32

def decodeZigzag64 (value : UInt64) : Int64 :=
  ((value >>> 1) ^^^ (-(value &&& 1).toInt64).toUInt64).toInt64

/-- A shift in a wider type. -/
theorem setWidth_shiftRight {w k : Nat} (value : BitVec w) (h : w ≤ k) :
    (value.setWidth k >>> 1).setWidth w = value >>> 1 := by
  apply BitVec.eq_of_getLsbD_eq
  intro i hi
  rw [BitVec.getLsbD_setWidth, BitVec.getLsbD_ushiftRight, BitVec.getLsbD_ushiftRight,
    BitVec.getLsbD_setWidth]
  grind

theorem toBitVec_decodeZigzag16 (value : UInt16) :
    (decodeZigzag16 value).toBitVec = Cpp.decodeZigZag value.toBitVec := by
  unfold decodeZigzag16 Cpp.decodeZigZag
  rw [Int32.toBitVec_toInt16, BitVec.signExtend_eq_setWidth_of_le _ (by decide),
    Int32.toBitVec_xor, Int32.toBitVec_neg, BitVec.setWidth_xor,
    BitVec.setWidth_neg_of_le (by decide)]
  simp [setWidth_shiftRight]

theorem toBitVec_decodeZigzag32 (value : UInt32) :
    (decodeZigzag32 value).toBitVec = Cpp.decodeZigZag value.toBitVec := by
  unfold decodeZigzag32 Cpp.decodeZigZag
  rw [Int64.toBitVec_toInt32, BitVec.signExtend_eq_setWidth_of_le _ (by decide),
    Int64.toBitVec_xor, Int64.toBitVec_neg, BitVec.setWidth_xor,
    BitVec.setWidth_neg_of_le (by decide)]
  simp [setWidth_shiftRight]

theorem toBitVec_decodeZigzag64 (value : UInt64) :
    (decodeZigzag64 value).toBitVec = Cpp.decodeZigZag value.toBitVec := rfl

end IntegerHelper

open IntegerHelper

/-! ## Strings -/

/-- `ReadString`, the same in both readers, up to the decoding of the bytes -/
def readString : Reader (List UInt8) := do
  let length := (← readVarUInt32).toInt32
  if length = 0 then
    return []
  else
    readBytes length

/-- `ReadWString`, the same in both readers, up to the decoding of the code units -/
def readWString : Reader (List UInt16) := do
  let length := (← readVarUInt32).toInt32
  if length = 0 then
    return []
  else
    return Java.units (← readBytes (length <<< 1))

namespace CompactBinary

def readStructBegin (version : UInt16) : Reader Unit := do
  if 2 == version then
    let _ ← readVarUInt32
    return ()
  else
    return ()

/-- `ReadBool`, `ReadUInt8`, …, `ReadWString` -/
def read : BasicType → Reader Cpp.BasicValue
  | .bool => do return .bool ((← readUInt8) ≠ 0)
  | .uint8 => do return .uint8 (← readUInt8)
  | .uint16 => do return .uint16 (← readVarUInt16)
  | .uint32 => do return .uint32 (← readVarUInt32)
  | .uint64 => do return .uint64 (← readVarUInt64)
  | .float => do return .float (UInt32.ofNat (← readBits 4))
  | .double => do return .double (UInt64.ofNat (← readBits 8))
  | .string => do return .string (← readString)
  | .int8 => do return .int8 (← readUInt8).toInt8
  | .int16 => do return .int16 (decodeZigzag16 (← readVarUInt16))
  | .int32 => do return .int32 (decodeZigzag32 (← readVarUInt32))
  | .int64 => do return .int64 (decodeZigzag64 (← readVarUInt64))
  | .wstring => do return .wstring (← readWString)

end CompactBinary

namespace FastBinary

/-- `ReadBool`, `ReadUInt8`, …, `ReadWString` -/
def read : BasicType → Reader Cpp.BasicValue
  | .bool => do return .bool ((← readUInt8) ≠ 0)
  | .uint8 => do return .uint8 (← readUInt8)
  | .uint16 => do return .uint16 (← readUInt16)
  | .uint32 => do return .uint32 (← readUInt32)
  | .uint64 => do return .uint64 (UInt64.ofNat (← readBits 8))
  | .float => do return .float (UInt32.ofNat (← readBits 4))
  | .double => do return .double (UInt64.ofNat (← readBits 8))
  | .string => do return .string (← readString)
  | .int8 => do return .int8 (← readUInt8).toInt8
  | .int16 => do return .int16 (← readUInt16).toInt16
  | .int32 => do return .int32 (← readUInt32).toInt32
  | .int64 => do return .int64 (UInt64.ofNat (← readBits 8)).toInt64
  | .wstring => do return .wstring (← readWString)

end FastBinary

/-! ## The readers -/

/-- The count of a container as often as `while (count-- > 0)` turns. -/
def listBegin (readContainerBegin : Reader (Int32 × BondDataType)) :
    Reader (BondDataType × Nat) := do
  let (count, elementType) ← readContainerBegin
  return (elementType, count.toInt.toNat)

def mapBegin : Reader (BondDataType × BondDataType × Nat) := do
  let (count, keyType, valueType) ← readMapBegin
  return (keyType, valueType, count.toInt.toNat)

def CompactBinary.payloadReader (version : UInt16) :
    PayloadReader InputBuffer (Except (Exception × InputBuffer)) where
  readStructBegin := CompactBinary.readStructBegin version
  readFieldBegin := CompactBinary.readFieldBegin
  readListBegin := listBegin (CompactBinary.readContainerBegin version)
  readMapBegin := mapBegin
  read := CompactBinary.read
  endOfStream _ := throwException .endOfStream
  invalidType _ type := throwException (.invalidBondDataType type)

def FastBinary.payloadReader : PayloadReader InputBuffer (Except (Exception × InputBuffer)) where
  readStructBegin := pure ()
  readFieldBegin := FastBinary.readFieldBegin
  readListBegin := listBegin FastBinary.readContainerBegin
  readMapBegin := mapBegin
  read := FastBinary.read
  endOfStream _ := throwException .endOfStream
  invalidType _ type := throwException (.invalidBondDataType type)

def Protocol.payloadReader :
    Protocol → PayloadReader InputBuffer (Except (Exception × InputBuffer))
  | .compactBinaryV1 => CompactBinary.payloadReader 1
  | .compactBinaryV2 => CompactBinary.payloadReader 2
  | .fastBinary => FastBinary.payloadReader

/-! ## What C++ writes -/

theorem decodes_of_readsBack {α : Type} {read checked : Reader α} {encode : α → List UInt8}
    {length : α → Nat} (h : ReadsBack read checked encode length) (value : α)
    (hlength : length value = (encode value).length) (hne : encode value ≠ []) :
    Decodes read (encode value) (pure value) := by
  intro b rest hb
  obtain ⟨hinside, hle, -⟩ := drop_of_remaining hb hne
  have hend := b.end_toInt
  have hcount : (Int32.ofNat (encode value).length).toInt = (encode value).length :=
    Int32.toInt_ofNat_of_lt (by unfold Inside at hinside; omega)
  rw [(h value b rest hb).1, hlength, position_add hinside hcount hle]
  rfl

theorem decodes_readVarUInt16 (value : UInt16) :
    Decodes readVarUInt16 (varint value.toNat) (pure value) := by
  have hencode : encodeVarUInt16 value = varint value.toNat :=
    Managed.encodeVarUInt_eq 2 _ (Nat.lt_of_lt_of_le value.toNat_lt (by decide))
  rw [← hencode]
  refine decodes_of_readsBack readsBack_varUInt16 value (getVarUInt16Length_eq value) ?_
  rw [hencode]
  exact List.ne_nil_of_length_pos (varint_length_pos _)

theorem decodes_readVarUInt64 (value : UInt64) :
    Decodes readVarUInt64 (varint value.toNat) (pure value) := by
  have hencode : encodeVarUInt64 value = varint value.toNat :=
    Managed.encodeVarUInt_eq 9 _ (Nat.lt_of_lt_of_le value.toNat_lt (by decide))
  rw [← hencode]
  refine decodes_of_readsBack readsBack_varUInt64 value (getVarUInt64Length_eq value) ?_
  rw [hencode]
  exact List.ne_nil_of_length_pos (varint_length_pos _)

theorem decodes_readVarUInt32_toUInt32 (value : UInt32) :
    Decodes readVarUInt32 (varint value.toNat) (pure value) := by
  have hread := decodes_readVarUInt32 value.toNat_lt
  rwa [UInt32.ofNat_toNat] at hread

/-- A length in front of as many bytes. -/
theorem decodes_readString {bytes : List UInt8} (h : bytes.length < 2 ^ 31) :
    Decodes readString (varint (UInt32.ofNat bytes.length).toNat ++ bytes) (pure bytes) := by
  refine (decodes_readVarUInt32_toUInt32 _).bind_pure ?_
  have hlength : (UInt32.ofNat bytes.length).toInt32 = Int32.ofNat bytes.length := rfl
  dsimp only
  rw [hlength]
  split
  · next hzero =>
      have hcount := congrArg Int32.toInt hzero
      rw [Int32.toInt_ofNat_of_lt h] at hcount
      obtain rfl : bytes = [] := List.length_eq_zero_iff.1 (Int.ofNat_eq_zero.1 hcount)
      exact Decodes.pure _
  · next hne =>
      exact decodes_readBytes h fun hnil => hne (by rw [hnil]; rfl)

theorem decodes_readWString {units : List UInt16} (h : 2 * units.length < 2 ^ 31) :
    Decodes readWString (varint (UInt32.ofNat units.length).toNat
      ++ units.flatMap fun unit => littleEndian 2 unit.toNat) (pure units) := by
  refine (decodes_readVarUInt32_toUInt32 _).bind_pure ?_
  have hlength : (UInt32.ofNat units.length).toInt32 = Int32.ofNat units.length := rfl
  have hbytes : (units.flatMap fun unit => littleEndian 2 unit.toNat).length
      = 2 * units.length := by
    simp [List.length_flatMap, Nat.mul_comm]
  dsimp only
  rw [hlength]
  split
  · next hzero =>
      have hcount := congrArg Int32.toInt hzero
      rw [Int32.toInt_ofNat_of_lt (by omega)] at hcount
      obtain rfl : units = [] := List.length_eq_zero_iff.1 (Int.ofNat_eq_zero.1 hcount)
      exact Decodes.pure _
  · next hne =>
      have hnil : (units.flatMap fun unit => littleEndian 2 unit.toNat) ≠ [] := by
        intro hnil
        rw [hnil] at hbytes
        rw [show units.length = 0 by simpa using hbytes.symm] at hne
        exact hne rfl
      have hread := (decodes_readBytes (by omega) hnil).bind_return Java.units
      rw [hbytes, ← SimpleBinary.shift_one, Java.StringHelper.units_littleEndian] at hread
      exact hread

/-- A value of fixed width, from its bits. -/
theorem decodes_readBits_return {size : Int32} {k : Nat} (hsize : size.toInt = k) (hk : 0 < k)
    {n : Nat} (h : n < 256 ^ k) {α : Type} (f : Nat → α) :
    Decodes (do return f (← readBits size)) (littleEndian k n) (pure (f n)) :=
  (decodes_readBits hsize hk n h).bind_return f

theorem writeString_eq (units : List UInt8) :
    outputBytes (Cpp.writeString (.string units))
      = varint (UInt32.ofNat units.length).toNat ++ units :=
  Bond.Interop.outputBytes_string units

theorem writeWString_eq (units : List UInt16) :
    outputBytes (Cpp.writeString (.wstring units))
      = varint (UInt32.ofNat units.length).toNat
        ++ units.flatMap fun unit => littleEndian 2 unit.toNat := by
  rw [Cpp.writeString, Cpp.outputBytes_cons, Cpp.bytes_writeVariableUnsigned, outputBytes,
    List.flatMap_map]
  rfl

/-- A byte. -/
theorem decodes_readUInt8_return {α : Type} (b : UInt8) (f : UInt8 → α) :
    Decodes (do return f (← readUInt8)) [b] (pure (f b)) :=
  (decodes_readUInt8 b).bind_return f

theorem decodes_readBool (v : Bool) :
    Decodes (do return Cpp.BasicValue.bool ((← readUInt8) ≠ 0)) [if v then 1 else 0]
      (pure (.bool v)) := by
  have hread := decodes_readUInt8_return (if v then 1 else 0) fun b =>
    Cpp.BasicValue.bool (b ≠ 0)
  cases v <;> exact hread

theorem length_lt_of_append {bytes enc : List UInt8} (h : (enc ++ bytes).length < 2 ^ 31) :
    bytes.length < 2 ^ 31 := by
  rw [List.length_append] at h
  omega

/-- A value of one byte. -/
theorem decodes_byte {v : Cpp.BasicValue} {b : UInt8} (hsize : v.type.sizeof = 1)
    (hbits : v.bits = b.toNat) (f : UInt8 → Cpp.BasicValue) (hf : f b = v) :
    Decodes (do return f (← readUInt8)) (outputBytes (Cpp.writeFixed v)) (pure v) := by
  have hread := decodes_readUInt8_return b f
  have hbyte : littleEndian 1 b.toNat = [b] := by rw [littleEndian, UInt8.ofNat_toNat]; rfl
  rw [Cpp.outputBytes_writeFixed, hsize, hbits, hbyte]
  rwa [hf] at hread

namespace FastBinary

theorem decodes_read (v : Cpp.BasicValue)
    (h : (outputBytes (Cpp.FastBinary.write v)).length < 2 ^ 31) :
    Decodes (read v.type) (outputBytes (Cpp.FastBinary.write v)) (pure v) := by
  have hfour : (4 : Int32).toInt = (4 : Nat) := rfl
  have height : (8 : Int32).toInt = (8 : Nat) := rfl
  cases v with
  | bool v =>
      have hread := decodes_readBool v
      cases v <;> exact hread
  | uint8 v => exact decodes_byte (b := v) rfl rfl Cpp.BasicValue.uint8 rfl
  | int8 v =>
      exact decodes_byte (b := v.toUInt8) rfl rfl (fun b => Cpp.BasicValue.int8 b.toInt8) rfl
  | uint16 v =>
      have hread := (decodes_readUInt16 v.toNat v.toNat_lt).bind_return Cpp.BasicValue.uint16
      rw [UInt16.ofNat_toNat] at hread
      exact hread
  | int16 v =>
      have hread := (decodes_readUInt16 v.toUInt16.toNat v.toUInt16.toNat_lt).bind_return
        fun bits => Cpp.BasicValue.int16 bits.toInt16
      rw [UInt16.ofNat_toNat] at hread
      exact hread
  | uint32 v =>
      have hread := (decodes_readUInt32 v.toNat v.toNat_lt).bind_return Cpp.BasicValue.uint32
      rw [UInt32.ofNat_toNat] at hread
      exact hread
  | int32 v =>
      have hread := (decodes_readUInt32 v.toUInt32.toNat v.toUInt32.toNat_lt).bind_return
        fun bits => Cpp.BasicValue.int32 bits.toInt32
      rw [UInt32.ofNat_toNat] at hread
      exact hread
  | uint64 v =>
      have hread := decodes_readBits_return height (by decide) v.toNat_lt
        fun bits => Cpp.BasicValue.uint64 (UInt64.ofNat bits)
      rw [UInt64.ofNat_toNat] at hread
      exact hread
  | int64 v =>
      have hread := decodes_readBits_return height (by decide) v.toUInt64.toNat_lt
        fun bits => Cpp.BasicValue.int64 (UInt64.ofNat bits).toInt64
      rw [UInt64.ofNat_toNat] at hread
      exact hread
  | float v =>
      have hread := decodes_readBits_return hfour (by decide) v.toNat_lt
        fun bits => Cpp.BasicValue.float (UInt32.ofNat bits)
      rw [UInt32.ofNat_toNat] at hread
      exact hread
  | double v =>
      have hread := decodes_readBits_return height (by decide) v.toNat_lt
        fun bits => Cpp.BasicValue.double (UInt64.ofNat bits)
      rw [UInt64.ofNat_toNat] at hread
      exact hread
  | string units =>
      have hbytes : outputBytes (Cpp.FastBinary.write (.string units)) = _ := writeString_eq units
      rw [hbytes] at h ⊢
      exact (decodes_readString (length_lt_of_append h)).bind_return Cpp.BasicValue.string
  | wstring units =>
      have hbytes : outputBytes (Cpp.FastBinary.write (.wstring units)) = _ := writeWString_eq units
      rw [hbytes] at h ⊢
      have hlength := length_lt_of_append h
      have hcount : (units.flatMap fun unit => littleEndian 2 unit.toNat).length
          = 2 * units.length := by simp [List.length_flatMap, Nat.mul_comm]
      rw [hcount] at hlength
      exact (decodes_readWString hlength).bind_return Cpp.BasicValue.wstring

end FastBinary

namespace CompactBinary

theorem decodes_read (v : Cpp.BasicValue)
    (h : (outputBytes (Cpp.CompactBinary.write v)).length < 2 ^ 31) :
    Decodes (read v.type) (outputBytes (Cpp.CompactBinary.write v)) (pure v) := by
  have hvarint {v : Cpp.BasicValue} {u : Cpp.VarUnsigned}
      (hu : Cpp.CompactBinary.varUnsigned v = some u) :
      outputBytes (Cpp.CompactBinary.write v) = varint u.toNat :=
    Cpp.CompactBinary.outputBytes_write hu
  cases v with
  | uint16 v =>
      rw [hvarint rfl]
      exact (decodes_readVarUInt16 v).bind_return Cpp.BasicValue.uint16
  | uint32 v =>
      rw [hvarint rfl]
      exact (decodes_readVarUInt32_toUInt32 v).bind_return Cpp.BasicValue.uint32
  | uint64 v =>
      rw [hvarint rfl]
      exact (decodes_readVarUInt64 v).bind_return Cpp.BasicValue.uint64
  | int16 v =>
      have hvalue : decodeZigzag16 (.ofBitVec (Cpp.encodeZigZag v.toBitVec)) = v := by
        apply Int16.toBitVec_inj.1
        rw [toBitVec_decodeZigzag16]
        exact Cpp.decodeZigZag_encodeZigZag v.toBitVec
      have hread := (decodes_readVarUInt16 (.ofBitVec (Cpp.encodeZigZag v.toBitVec))).bind_return
        fun value => Cpp.BasicValue.int16 (decodeZigzag16 value)
      rw [hvalue] at hread
      rw [hvarint rfl]
      exact hread
  | int32 v =>
      have hvalue : decodeZigzag32 (.ofBitVec (Cpp.encodeZigZag v.toBitVec)) = v := by
        apply Int32.toBitVec_inj.1
        rw [toBitVec_decodeZigzag32]
        exact Cpp.decodeZigZag_encodeZigZag v.toBitVec
      have hread := (decodes_readVarUInt32_toUInt32
        (.ofBitVec (Cpp.encodeZigZag v.toBitVec))).bind_return
        fun value => Cpp.BasicValue.int32 (decodeZigzag32 value)
      rw [hvalue] at hread
      rw [hvarint rfl]
      exact hread
  | int64 v =>
      have hvalue : decodeZigzag64 (.ofBitVec (Cpp.encodeZigZag v.toBitVec)) = v := by
        apply Int64.toBitVec_inj.1
        rw [toBitVec_decodeZigzag64]
        exact Cpp.decodeZigZag_encodeZigZag v.toBitVec
      have hread := (decodes_readVarUInt64 (.ofBitVec (Cpp.encodeZigZag v.toBitVec))).bind_return
        fun value => Cpp.BasicValue.int64 (decodeZigzag64 value)
      rw [hvalue] at hread
      rw [hvarint rfl]
      exact hread
  | bool v => exact FastBinary.decodes_read (.bool v) h
  | uint8 v => exact FastBinary.decodes_read (.uint8 v) h
  | int8 v => exact FastBinary.decodes_read (.int8 v) h
  | float bits => exact FastBinary.decodes_read (.float bits) h
  | double bits => exact FastBinary.decodes_read (.double bits) h
  | string units => exact FastBinary.decodes_read (.string units) h
  | wstring units => exact FastBinary.decodes_read (.wstring units) h

/-! ## Headers -/

theorem decodes_readFieldBegin {type : BondDataType} (h : type.isValue = true) (id : UInt16) :
    Decodes readFieldBegin (outputBytes (Cpp.CompactBinary.writeFieldBegin type id))
      (pure (type, id)) := by
  have htype := BondDataType.toUInt8_lt h
  have hself := BondDataType.ofUInt8_toUInt8 h
  rw [← Bond.Interop.java_compact_fieldBegin h, Java.CompactBinary.writeFieldBegin_eq h,
    readFieldBegin]
  split_ifs with h5 hff
  · have hid : id.toNat ≤ 5 := UInt16.le_iff_toNat_le.1 h5
    have hvalue : (UInt8.ofNat id.toNat).toNat = id.toNat := by
      rw [UInt8.toNat_ofNat']
      omega
    have hback : (UInt8.ofNat id.toNat).toUInt16 = id := by
      apply UInt16.toNat_inj.1
      rw [UInt8.toNat_toUInt16, hvalue]
    have hlt : UInt8.ofNat id.toNat < 6 := by
      rw [UInt8.lt_iff_toNat_lt, hvalue]
      exact Nat.lt_succ_of_le hid
    obtain ⟨hlow, -, hhigh, -⟩ := Cpp.CompactBinary.packed type.toUInt8 (UInt8.ofNat id.toNat)
      htype (by omega)
    rw [← List.append_nil [_]]
    refine (decodes_readUInt8 _).bind_pure ?_
    simp only [hlow, hhigh, hself, if_pos hlt, hback]
    exact Decodes.pure _
  · have hid : id.toNat ≤ 0xFF := UInt16.le_iff_toNat_le.1 hff
    obtain ⟨hlow, -, hhigh, -⟩ := Cpp.CompactBinary.packed type.toUInt8 6 htype (by decide)
    rw [← List.singleton_append]
    refine (decodes_readUInt8 _).bind_pure ?_
    simp only [hlow, hhigh, hself]
    rw [if_neg (by decide), if_pos trivial]
    have hread := (decodes_readUInt8 id.toUInt8).bind_return fun raw => (type, raw.toUInt16)
    rwa [Cpp.CompactBinary.toUInt8_toUInt16 (by omega)] at hread
  · obtain ⟨hlow, -, hhigh, -⟩ := Cpp.CompactBinary.packed type.toUInt8 7 htype (by decide)
    rw [← List.singleton_append]
    refine (decodes_readUInt8 _).bind_pure ?_
    simp only [hlow, hhigh, hself]
    rw [if_neg (by decide), if_neg (by decide)]
    have hread := (decodes_readUInt16 id.toNat id.toNat_lt).bind_return fun id => (type, id)
    rwa [UInt16.ofNat_toNat] at hread

theorem toInt_toInt32 {n : Nat} (h : n < 2 ^ 31) :
    (UInt32.ofNat n).toInt32.toInt.toNat = n := by
  show (Int32.ofNat n).toInt.toNat = n
  rw [Int32.toInt_ofNat_of_lt h, Int.toNat_natCast]

theorem decodes_listBegin (version : Cpp.CompactBinary.Version) {count : Nat}
    (hcount : count < 2 ^ 31) {element : BondDataType} (h : element.isValue = true) :
    Decodes (listBegin (readContainerBegin (if version = .v2 then 2 else 1)))
      (outputBytes (Cpp.CompactBinary.writeContainerBegin version (UInt32.ofNat count) element))
      (pure (element, count)) := by
  have htype := BondDataType.toUInt8_lt h
  have hself := BondDataType.ofUInt8_toUInt8 h
  have hlt := (Bond.Interop.ofNat_lt_seven hcount).2
  have hversion : (if version = .v2 then (2 : UInt16) else 1) = 2 ↔ version = .v2 := by
    cases version <;> decide
  suffices hread : Decodes (readContainerBegin (if version = .v2 then 2 else 1))
      (outputBytes (Cpp.CompactBinary.writeContainerBegin version (UInt32.ofNat count) element))
      (pure ((UInt32.ofNat count).toInt32, element)) by
    have hturns := hread.bind_return fun r => (r.2, r.1.toInt.toNat)
    rwa [toInt_toInt32 hcount] at hturns
  rw [Cpp.CompactBinary.writeContainerBegin, readContainerBegin]
  by_cases hshort : version = .v2 ∧ UInt32.ofNat count < 7
  · -- the count is in the byte of the type
    have hsmall : ∀ n < 7, (UInt32.ofNat n + 1).toUInt8.toNat < 8 ∧
        (UInt32.ofNat n + 1).toUInt8 <<< 5 ≠ 0 ∧
        (UInt32.ofNat n + 1).toUInt8.toUInt32.toInt32 - 1 = (UInt32.ofNat n).toInt32 := by decide
    obtain ⟨hhigh, hnonzero, hback⟩ := hsmall count (hlt.1 hshort.2)
    obtain ⟨hlow, hmask, hshift, -⟩ := Cpp.CompactBinary.packed element.toUInt8
      (UInt32.ofNat count + 1).toUInt8 htype hhigh
    rw [if_pos hshort, Cpp.outputBytes_cons, Cpp.outputBytes_nil, Cpp.bytes_write]
    refine (decodes_readUInt8 _).bind_pure ?_
    simp only [hlow, hmask, hshift, hself]
    rw [if_pos ⟨hversion.2 hshort.1, hnonzero⟩, hback]
    exact Decodes.pure _
  · -- the count follows
    obtain ⟨hlow, hmask, -, -⟩ := Cpp.CompactBinary.packed element.toUInt8 0 htype (by decide)
    have hzero : element.toUInt8 ||| ((0 : UInt8) <<< 5) = element.toUInt8 := by simp
    rw [hzero] at hlow hmask
    rw [if_neg hshort, Cpp.outputBytes_cons, Cpp.outputBytes_cons, Cpp.outputBytes_nil,
      List.append_nil, Cpp.bytes_write, Cpp.bytes_writeVariableUnsigned]
    refine (decodes_readUInt8 _).bind_pure ?_
    simp only [hlow, hmask, hself]
    rw [if_neg (by simp)]
    exact (decodes_readVarUInt32_toUInt32 _).bind_return fun count => (count.toInt32, element)

end CompactBinary

/-- The header of a map, the same in both protocols. -/
theorem decodes_mapBegin {count : Nat} (hcount : count < 2 ^ 31) {key element : BondDataType}
    (hkey : key.isValue = true) (h : element.isValue = true) :
    Decodes mapBegin
      (outputBytes (Cpp.CompactBinary.writeContainerBeginPair (UInt32.ofNat count) key element))
      (pure (key, element, count)) := by
  suffices hread : Decodes readMapBegin
      (outputBytes (Cpp.CompactBinary.writeContainerBeginPair (UInt32.ofNat count) key element))
      (pure ((UInt32.ofNat count).toInt32, key, element)) by
    have hturns := hread.bind_return fun r => (r.2.1, r.2.2, r.1.toInt.toNat)
    rwa [CompactBinary.toInt_toInt32 hcount] at hturns
  rw [Cpp.CompactBinary.writeContainerBeginPair, readMapBegin, Cpp.outputBytes_cons,
    Cpp.outputBytes_cons, Cpp.outputBytes_cons, Cpp.outputBytes_nil, List.append_nil,
    Cpp.bytes_write, Cpp.bytes_write, Cpp.bytes_writeVariableUnsigned]
  refine (decodes_readUInt8 _).bind_pure ((decodes_readUInt8 _).bind_pure ?_)
  simp only [BondDataType.ofUInt8_toUInt8 hkey, BondDataType.ofUInt8_toUInt8 h]
  exact (decodes_readVarUInt32_toUInt32 _).bind_return fun count => (count.toInt32, key, element)

end Bond.Cs

import Bond.Cs.VarintPaths
import Bond.Cs.CompactBinaryWriter

set_option autoImplicit false

/-! # Simple Binary in C#

`SimpleBinaryWriter` and `SimpleBinaryReader` (cs/src/core/protocols/SimpleBinary.cs), and what is
written by them for a value (cs/src/core/expressions/SerializerTransform.cs, ProtocolWriter.cs). There
are no tags and no markers: a struct is its fields one after the other, those of its base in front. A
`bonded` is marshaled: it is a length and a payload of its own. -/

namespace Bond.Cs

open Bond.Cpp (BondDataType BasicType ListKind)
open Bond.Managed
open Decoder Varint

namespace SimpleBinary

/-! ## The writer -/

/-- `WriteLength` -/
def writeLength (version : UInt16) (value : Int32) : List UInt8 :=
  if version == 2 then
    IntegerHelper.encodeVarUInt32 value.toUInt32
  else
    littleEndian 4 value.toUInt32.toNat

def writeString (version : UInt16) (value : List UInt16) : List UInt8 :=
  if value.length = 0 then
    writeLength version 0
  else
    writeLength version (Int32.ofNat (utf8GetBytes value).length) ++ utf8GetBytes value

def writeWString (version : UInt16) (value : List UInt16) : List UInt8 :=
  if value.length = 0 then
    writeLength version 0
  else
    writeLength version (Int32.ofNat value.length) ++ unicodeGetBytes value

/-- `WriteBool`, `WriteUInt8`, …, `WriteWString` -/
def write (version : UInt16) : BasicValue → List UInt8
  | .bool value => [if value then 1 else 0]
  | .uint8 value => [value]
  | .uint16 value => littleEndian 2 value.toNat
  | .uint32 value => littleEndian 4 value.toNat
  | .uint64 value => littleEndian 8 value.toNat
  | .float bits => littleEndian 4 bits.toNat
  | .double bits => littleEndian 8 bits.toNat
  | .string value => writeString version value
  | .int8 value => [value.toUInt8]
  | .int16 value => littleEndian 2 value.toUInt16.toNat
  | .int32 value => littleEndian 4 value.toUInt32.toNat
  | .int64 value => littleEndian 8 value.toUInt64.toNat
  | .wstring value => writeWString version value

/-- `Marshaler.Marshal`: the version of the writer, a `CompactBinaryWriter`, and the struct. -/
def marshal (s : StructValue) : List UInt8 :=
  [0x43, 0x42, 0x01, 0x00] ++ (s.calls .within).flatMap (CompactBinary.callBytes 1)

/-- `ProtocolWriter.WriteBonded` of an untagged protocol -/
def writeBonded (version : UInt16) (s : StructValue) : List UInt8 :=
  write version (.uint32 (UInt32.ofNat (marshal s).length)) ++ marshal s

/-! ### Values -/

section

variable (version : UInt16)

mutual

/-- What is written for a value. -/
def encode : Value → List UInt8
  | .basic v => write version v
  | .list _ _ items => writeLength version (Int32.ofNat items.length) ++ encodeItems items
  | .blob _ data => writeLength version (Int32.ofNat data.length) ++ data
  | .map _ _ items => writeLength version (Int32.ofNat items.length) ++ encodePairs items
  | .struct s => encodeStruct s
  | .bonded s => writeBonded version s

def encodeItems : List Value → List UInt8
  | [] => []
  | v :: vs => encode v ++ encodeItems vs

def encodePairs : List (Value × Value) → List UInt8
  | [] => []
  | (k, v) :: kvs => (encode k ++ encode v) ++ encodePairs kvs

def encodeFields : List (UInt16 × Value) → List UInt8
  | [] => []
  | (_, v) :: fs => encode v ++ encodeFields fs

/-- The fields of a struct, those of its base first. -/
def encodeStruct : StructValue → List UInt8
  | .root fields => encodeFields fields
  | .derived base fields => encodeStruct base ++ encodeFields fields

end

theorem encodeItems_eq (vs : List Value) : encodeItems version vs = vs.flatMap (encode version) := by
  induction vs with
  | nil => rfl
  | cons v vs ih => rw [encodeItems, ih, List.flatMap_cons]

theorem encodePairs_eq (kvs : List (Value × Value)) :
    encodePairs version kvs = kvs.flatMap fun kv => encode version kv.1 ++ encode version kv.2 := by
  induction kvs with
  | nil => rfl
  | cons kv kvs ih => rw [encodePairs, ih, List.flatMap_cons]

theorem encodeFields_eq (fs : Fields) :
    encodeFields version fs = fs.flatMap fun f => encode version f.2 := by
  induction fs with
  | nil => rfl
  | cons f fs ih => rw [encodeFields, ih, List.flatMap_cons]

end

/-! ### Omitted fields -/

/-- `Metadata.default_value` -/
structure Variant where
  uintValue : UInt64
  intValue : Int64
  /-- `double_value`, by its bits -/
  doubleValue : UInt64
  stringValue : List UInt16
  wstringValue : List UInt16
  nothing : Bool
deriving DecidableEq, Repr

/-- The value of a basic type that a default stands for. -/
def Variant.value (default : Variant) : BasicType → BasicValue
  | .bool => .bool (0 ≠ default.uintValue)
  | .uint8 => .uint8 default.uintValue.toUInt8
  | .uint16 => .uint16 default.uintValue.toUInt16
  | .uint32 => .uint32 default.uintValue.toUInt32
  | .uint64 => .uint64 default.uintValue
  | .float => .float (Float.ofBits default.doubleValue).toFloat32.toBits
  | .double => .double default.doubleValue
  | .string => .string default.stringValue
  | .int8 => .int8 default.intValue.toInt8
  | .int16 => .int16 default.intValue.toInt16
  | .int32 => .int32 default.intValue.toInt32
  | .int64 => .int64 default.intValue
  | .wstring => .wstring default.wstringValue

/-- `WriteFieldOmitted` writes the default. There is none for a field set to nothing, nor for a
    struct. -/
def writeFieldOmitted (version : UInt16) (dataType : BondDataType) (default : Variant) :
    Option (List UInt8) :=
  if default.nothing then none
  else
    match dataType with
    | .basic type => some (write version (default.value type))
    | .list | .set | .map => some (writeLength version 0)
    | _ => none

/-- A field that is omitted is written as one that has its default, so the fields of a value are
    all taken to be written. -/
theorem writeFieldOmitted_basic (version : UInt16) {default : Variant}
    (h : default.nothing = false) (type : BasicType) :
    writeFieldOmitted version (.basic type) default
      = some (encode version (.basic (default.value type))) := by
  simp [writeFieldOmitted, h, encode]

theorem writeFieldOmitted_list (version : UInt16) {default : Variant}
    (h : default.nothing = false) (kind : ListKind) (element : BondDataType) :
    writeFieldOmitted version kind.typeId default
      = some (encode version (.list kind element [])) := by
  cases kind <;> simp [writeFieldOmitted, h, ListKind.typeId, encode, encodeItems]

/-! ## The reader -/

/-- `ReadFieldOmitted` -/
def readFieldOmitted : Reader Bool :=
  return false

/-- `ReadLength`, and `ReadContainerBegin` -/
def readLength (version : UInt16) : Reader Int32 := do
  if version == 2 then
    return (← InputBuffer.readVarUInt32).toInt32
  else
    return (← InputBuffer.readUInt32).toInt32

/-- What the reader returns for a value of a basic type. Integers and floating point values are
    given by their bits, strings by the bytes that they are decoded from. -/
inductive Scalar where
  | bool (v : Bool)
  | bits (n : Nat)
  | text (bytes : List UInt8)
deriving DecidableEq, Repr

/-- `ReadString`; the bytes of a code unit are shifted into the length. -/
def readText (version : UInt16) (shift : Int32) : Reader Scalar := do
  let length ← readLength version
  if length = 0 then
    return .text []
  else
    return .text (← InputBuffer.readBytes (length <<< shift))

/-- `ReadBool`, `ReadUInt8`, …, `ReadWString` -/
def read (version : UInt16) : BasicType → Reader Scalar
  | .bool => do return .bool ((← InputBuffer.readUInt8) ≠ 0)
  | .uint8 => do return .bits (← InputBuffer.readUInt8).toNat
  | .uint16 => do return .bits (← InputBuffer.readUInt16).toNat
  | .uint32 => do return .bits (← InputBuffer.readUInt32).toNat
  | .uint64 => do return .bits (← InputBuffer.readBits 8)
  | .float => do return .bits (← InputBuffer.readBits 4)
  | .double => do return .bits (← InputBuffer.readBits 8)
  | .string => readText version 0
  | .int8 => do return .bits (← InputBuffer.readUInt8).toNat
  | .int16 => do return .bits (← InputBuffer.readUInt16).toNat
  | .int32 => do return .bits (← InputBuffer.readUInt32).toNat
  | .int64 => do return .bits (← InputBuffer.readBits 8)
  | .wstring => readText version 1

/-- `SkipBool`, `SkipUInt8`, …, `SkipWString` -/
def skipBasic (version : UInt16) : BasicType → Reader Unit
  | .bool => InputBuffer.skipBytes 1
  | .uint8 => InputBuffer.skipBytes 1
  | .uint16 => InputBuffer.skipBytes 2
  | .uint32 => InputBuffer.skipBytes 4
  | .uint64 => InputBuffer.skipBytes 8
  | .float => InputBuffer.skipBytes 4
  | .double => InputBuffer.skipBytes 8
  | .string => do InputBuffer.skipBytes (← readLength version)
  | .int8 => InputBuffer.skipBytes 1
  | .int16 => InputBuffer.skipBytes 2
  | .int32 => InputBuffer.skipBytes 4
  | .int64 => InputBuffer.skipBytes 8
  | .wstring => do InputBuffer.skipBytes ((← readLength version) <<< 1)

/-! ### What the reader does -/

/-- What is returned for a value of a basic type. -/
def scalar : BasicValue → Scalar
  | .bool v => .bool v
  | .uint8 v => .bits v.toNat
  | .uint16 v => .bits v.toNat
  | .uint32 v => .bits v.toNat
  | .uint64 v => .bits v.toNat
  | .float bits => .bits bits.toNat
  | .double bits => .bits bits.toNat
  | .string chars => .text (utf8GetBytes chars)
  | .int8 v => .bits v.toUInt8.toNat
  | .int16 v => .bits v.toUInt16.toNat
  | .int32 v => .bits v.toUInt32.toNat
  | .int64 v => .bits v.toUInt64.toNat
  | .wstring chars => .text (unicodeGetBytes chars)

theorem decodes_readLength (version : UInt16) {n : Nat} (h : n < 2 ^ 31) :
    Decodes (readLength version) (writeLength version (Int32.ofNat n)) (pure (Int32.ofNat n)) := by
  have hvalue : (Int32.ofNat n).toUInt32.toNat = n := by
    show n % 2 ^ 32 = n
    omega
  have hlength : (UInt32.ofNat n).toInt32 = Int32.ofNat n := rfl
  unfold readLength writeLength
  split
  · next hversion =>
      rw [IntegerHelper.encodeVarUInt32, hvalue, encodeVarUInt_eq 4 n (by omega)]
      have hread := (InputBuffer.decodes_readVarUInt32 (Nat.lt_trans h (by decide))).bind_return
        UInt32.toInt32
      rw [hlength] at hread
      exact hread
  · next hversion =>
      rw [hvalue]
      have hread := (InputBuffer.decodes_readUInt32 n (Nat.lt_trans h (by decide))).bind_return
        UInt32.toInt32
      rw [hlength] at hread
      exact hread

theorem writeLength_ne_nil (version : UInt16) (value : Int32) : writeLength version value ≠ [] := by
  unfold writeLength
  split
  · rw [IntegerHelper.encodeVarUInt32, encodeVarUInt_eq 4 _ (Nat.lt_of_lt_of_le
      value.toUInt32.toNat_lt (by decide))]
    exact List.ne_nil_of_length_pos (varint_length_pos _)
  · simp [littleEndian]

/-- The empty string is no exception to how strings are written. -/
theorem writeString_eq (version : UInt16) (value : List UInt16) :
    writeString version value
      = writeLength version (Int32.ofNat (utf8GetBytes value).length) ++ utf8GetBytes value := by
  unfold writeString
  split
  · next hempty =>
      obtain rfl := List.length_eq_zero_iff.1 hempty
      exact (List.append_nil _).symm
  · rfl

theorem writeWString_eq (version : UInt16) (value : List UInt16) :
    writeWString version value
      = writeLength version (Int32.ofNat value.length) ++ unicodeGetBytes value := by
  unfold writeWString
  split
  · next hempty =>
      obtain rfl := List.length_eq_zero_iff.1 hempty
      exact (List.append_nil _).symm
  · rfl

theorem shift_one (n : Nat) : Int32.ofNat n <<< (1 : Int32) = Int32.ofNat (2 * n) := by
  have hbits : (Int32.ofNat n <<< (1 : Int32)).toBitVec = BitVec.ofNat 32 n <<< 1 := rfl
  rw [← Int32.toBitVec_inj, hbits]
  apply BitVec.eq_of_toNat_eq
  rw [BitVec.toNat_shiftLeft, BitVec.toNat_ofNat, Nat.shiftLeft_eq]
  show _ = 2 * n % 2 ^ 32
  omega

/-- The number of bytes of a text, from that of its code units. -/
theorem shift_length (n : Nat) {shift : Int32} {factor : Nat}
    (hshift : shift = 0 ∧ factor = 1 ∨ shift = 1 ∧ factor = 2) :
    Int32.ofNat n <<< shift = Int32.ofNat (factor * n) := by
  rcases hshift with ⟨rfl, rfl⟩ | ⟨rfl, rfl⟩
  · rw [Nat.one_mul, Int32.shiftLeft_zero]
  · exact shift_one n

/-- A text that is not empty is its length and its bytes. -/
theorem decodes_readText (version : UInt16) {bytes : List UInt8} {n : Nat} {shift : Int32}
    {factor : Nat} (hshift : shift = 0 ∧ factor = 1 ∨ shift = 1 ∧ factor = 2)
    (hbytes : bytes.length = factor * n) (hlen : bytes.length < 2 ^ 31) :
    Decodes (readText version shift) (writeLength version (Int32.ofNat n) ++ bytes)
      (pure (.text bytes)) := by
  have hn : n < 2 ^ 31 := by
    rcases hshift with ⟨-, rfl⟩ | ⟨-, rfl⟩ <;> omega
  refine (decodes_readLength version hn).bind_pure ?_
  cases n with
  | zero =>
      obtain rfl := List.length_eq_zero_iff.1 (hbytes.trans (Nat.mul_zero factor))
      exact Decodes.pure _
  | succ n =>
      have hpos : Int32.ofNat (n + 1) ≠ 0 := by
        rw [ne_eq, ← Int32.toInt_inj, Int32.toInt_ofNat_of_lt hn]
        simp only [Int32.toInt_zero]
        omega
      have hne : bytes ≠ [] := by
        intro hnil
        rw [hnil, List.length_nil] at hbytes
        rcases hshift with ⟨-, rfl⟩ | ⟨-, rfl⟩ <;> omega
      rw [if_neg hpos, shift_length (n + 1) hshift, ← hbytes]
      exact (InputBuffer.decodes_readBytes hlen hne).bind_return Scalar.text

theorem decodes_read (version : UInt16) {v : BasicValue}
    (h : v.wellFormed utf8GetBytes = true) :
    Decodes (read version v.type) (write version v) (pure (scalar v)) := by
  have hbyte (b : UInt8) := (InputBuffer.decodes_readUInt8 b).bind_return fun b =>
    Scalar.bits b.toNat
  have h16 (x : UInt16) : Decodes (do return Scalar.bits (← InputBuffer.readUInt16).toNat)
      (littleEndian 2 x.toNat) (pure (.bits x.toNat)) := by
    have hread := (InputBuffer.decodes_readUInt16 x.toNat x.toNat_lt).bind_return fun x =>
      Scalar.bits x.toNat
    rwa [UInt16.ofNat_toNat] at hread
  have h32 (x : UInt32) : Decodes (do return Scalar.bits (← InputBuffer.readUInt32).toNat)
      (littleEndian 4 x.toNat) (pure (.bits x.toNat)) := by
    have hread := (InputBuffer.decodes_readUInt32 x.toNat x.toNat_lt).bind_return fun x =>
      Scalar.bits x.toNat
    rwa [UInt32.ofNat_toNat] at hread
  have h64 (x : UInt64) : Decodes (do return Scalar.bits (← InputBuffer.readBits 8))
      (littleEndian 8 x.toNat) (pure (.bits x.toNat)) :=
    (InputBuffer.decodes_readBits (k := 8) rfl (by decide) x.toNat x.toNat_lt).bind_return
      Scalar.bits
  cases v with
  | bool v =>
      have hread := (InputBuffer.decodes_readUInt8 (if v then 1 else 0)).bind_return fun b =>
        Scalar.bool (b ≠ 0)
      cases v <;> exact hread
  | uint8 v => exact hbyte v
  | uint16 v => exact h16 v
  | uint32 v => exact h32 v
  | uint64 v => exact h64 v
  | float bits =>
      exact (InputBuffer.decodes_readBits (k := 4) rfl (by decide) bits.toNat
        bits.toNat_lt).bind_return Scalar.bits
  | double bits => exact h64 bits
  | string chars =>
      simp only [BasicValue.wellFormed, Bool.and_eq_true, decide_eq_true_eq] at h
      have htext := decodes_readText version (.inl ⟨rfl, rfl⟩)
        (Nat.one_mul (utf8GetBytes chars).length).symm h.2
      rw [← writeString_eq] at htext
      exact htext
  | int8 v => exact hbyte v.toUInt8
  | int16 v => exact h16 v.toUInt16
  | int32 v => exact h32 v.toUInt32
  | int64 v => exact h64 v.toUInt64
  | wstring chars =>
      simp only [BasicValue.wellFormed, decide_eq_true_eq] at h
      have hlength : (unicodeGetBytes chars).length = 2 * chars.length :=
        Utf16.utf16le_length rfl chars
      have htext := decodes_readText version (.inr ⟨rfl, rfl⟩) hlength (hlength ▸ h)
      rw [← writeWString_eq] at htext
      exact htext

/-- Skipping a text: its length, and as many bytes. -/
theorem decodes_skipText (version : UInt16) {bytes : List UInt8} {n : Nat} {shift : Int32}
    {factor : Nat} (hshift : shift = 0 ∧ factor = 1 ∨ shift = 1 ∧ factor = 2)
    (hbytes : bytes.length = factor * n) (hlen : bytes.length < 2 ^ 31) :
    Decodes (do InputBuffer.skipBytes ((← readLength version) <<< shift))
      (writeLength version (Int32.ofNat n) ++ bytes) (pure ()) := by
  have hn : n < 2 ^ 31 := by
    rcases hshift with ⟨-, rfl⟩ | ⟨-, rfl⟩ <;> omega
  refine (decodes_readLength version hn).bind_pure ?_
  rw [shift_length n hshift, ← hbytes]
  exact InputBuffer.decodes_skipBytes hlen

theorem decodes_skipBasic (version : UInt16) {v : BasicValue}
    (h : v.wellFormed utf8GetBytes = true) :
    Decodes (skipBasic version v.type) (write version v) (pure ()) := by
  have hskip {bs : List UInt8} {count : Int32} (hcount : count = Int32.ofNat bs.length)
      (hlen : bs.length < 2 ^ 31) : Decodes (InputBuffer.skipBytes count) bs (pure ()) := by
    rw [hcount]
    exact InputBuffer.decodes_skipBytes hlen
  cases v with
  | string chars =>
      simp only [BasicValue.wellFormed, Bool.and_eq_true, decide_eq_true_eq] at h
      have htext := decodes_skipText version (.inl ⟨rfl, rfl⟩)
        (Nat.one_mul (utf8GetBytes chars).length).symm h.2
      simp only [Int32.shiftLeft_zero, ← writeString_eq] at htext
      exact htext
  | wstring chars =>
      simp only [BasicValue.wellFormed, decide_eq_true_eq] at h
      have hlength : (unicodeGetBytes chars).length = 2 * chars.length :=
        Utf16.utf16le_length rfl chars
      have htext := decodes_skipText version (.inr ⟨rfl, rfl⟩) hlength (hlength ▸ h)
      rw [← writeWString_eq] at htext
      exact htext
  | _ => exact hskip rfl (by simp [write])

end SimpleBinary

end Bond.Cs

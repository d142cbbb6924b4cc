import Bond.Lib.Consumes
import Bond.Lib.Utf16Decode
import Bond.Java.ReaderGrammar

set_option autoImplicit false

/-! # Simple Binary in Java

`SimpleBinaryWriter` and `SimpleBinaryReader` (java/core/src/main/java/org/bondlib). Nothing but
values and counts is written: the headers of fields and structs are empty methods. Strings are read
up to the `String`s, since it matters here which strings come back. -/

namespace Bond.Managed

/-- A value whose surrogates are all in pairs. -/
def BasicValue.isUnicode : BasicValue → Bool
  | .string chars => Utf16.isUnicode chars
  | .wstring chars => Utf16.isUnicode chars
  | _ => true

end Bond.Managed

namespace Bond.Java

open Bond.Cpp (BondDataType BasicType)
open Bond.Cpp.CompactBinary (Version)
open Bond.Lib Bond.Managed
open Decoder Varint
open VarUIntHelper StringHelper BinaryStreamReader

/-! ## Charsets -/

/-- What `new String(bytes, charset)` makes of bytes that are malformed in the charset: parts of
    them are replaced, so that no surrogate is left without the other one of its pair. -/
structure Replacement where
  decode : List UInt8 → List UInt16
  isUnicode_decode : ∀ bytes, Utf16.isUnicode (decode bytes) = true

namespace StringHelper

variable (r : Replacement)

/-- `new String(bytes, UTF8)` -/
def decodeString (bytes : List UInt8) : List UInt16 :=
  (Utf16.ofUtf8 bytes).getD (r.decode bytes)

/-- `new String(bytes, UTF16LE)` -/
def decodeWString (bytes : List UInt8) : List UInt16 :=
  if Utf16.isUnicode (units bytes) then units bytes else r.decode bytes

theorem isUnicode_decodeString (bytes : List UInt8) :
    Utf16.isUnicode (decodeString r bytes) = true := by
  unfold decodeString
  cases hread : Utf16.ofUtf8 bytes with
  | none => exact r.isUnicode_decode bytes
  | some cs => exact Utf16.isUnicode_of_ofUtf8 hread

theorem isUnicode_decodeWString (bytes : List UInt8) :
    Utf16.isUnicode (decodeWString r bytes) = true := by
  unfold decodeWString
  split
  · next hunicode => exact hunicode
  · exact r.isUnicode_decode bytes

/-- A string without lone surrogates is what its bytes are decoded to. -/
theorem decodeString_encodeString {str : List UInt16} (h : Utf16.isUnicode str = true) :
    decodeString r (encodeString str) = str := by
  have hscalar : Utf16.isScalar 0x3F = true := rfl
  have hself := (Utf16.replaced_eq_iff hscalar (by decide) str).2 h
  have hread : Utf16.ofUtf8 (encodeString str) = some (Utf16.replaced 0x3F str) :=
    Utf16.ofUtf8_utf8 hscalar str
  rw [decodeString, hread, hself]
  rfl

theorem unit_toNat (low high : UInt8) :
    (low.toUInt16 ||| (high.toUInt16 <<< 8)).toNat = low.toNat + 256 * high.toNat := by
  have hlow := low.toNat_lt
  have hhigh := high.toNat_lt
  rw [UInt16.toNat_or, UInt16.toNat_shiftLeft, UInt8.toNat_toUInt16, UInt8.toNat_toUInt16]
  show low.toNat ||| (high.toNat <<< 8) % 2 ^ 16 = _
  rw [Nat.shiftLeft_eq, Nat.mod_eq_of_lt (by omega), Nat.or_comm, ← Nat.shiftLeft_eq,
    ← Nat.shiftLeft_add_eq_or_of_lt (by omega), Nat.shiftLeft_eq]
  omega

theorem units_littleEndian (cs : List UInt16) :
    units (cs.flatMap fun c => littleEndian 2 c.toNat) = cs := by
  induction cs with
  | nil => rfl
  | cons c cs ih =>
      have hc := c.toNat_lt
      rw [List.flatMap_cons]
      show ((UInt8.ofNat c.toNat).toUInt16 ||| ((UInt8.ofNat (c.toNat / 256)).toUInt16 <<< 8))
        :: units (cs.flatMap fun c => littleEndian 2 c.toNat) = c :: cs
      rw [ih, List.cons.injEq]
      refine ⟨UInt16.toNat_inj.1 ?_, rfl⟩
      rw [unit_toNat, UInt8.toNat_ofNat', UInt8.toNat_ofNat']
      omega

theorem decodeWString_encodeWString {str : List UInt16} (h : Utf16.isUnicode str = true) :
    decodeWString r (encodeWString str) = str := by
  have hself := (Utf16.replaced_eq_iff (r := 0xFFFD) rfl (by decide) str).2 h
  have hunits : units (encodeWString str) = str := by
    show units (Utf16.utf16le (littleEndian 2 0xFFFD) str) = str
    rw [Utf16.utf16le_eq (by decide), hself, units_littleEndian]
  rw [decodeWString, hunits, if_pos h]

end StringHelper

namespace SimpleBinary

/-! ## The writer -/

def writeLength (protocolVersion : Version) (count : Int32) : List UInt8 :=
  if protocolVersion = .v2 then encodeVarUInt32 count else littleEndian 4 count.toUInt32.toNat

def writeString (protocolVersion : Version) (value : List UInt16) : List UInt8 :=
  if value.isEmpty then
    writeLength protocolVersion 0
  else
    let bytes := encodeString value
    writeLength protocolVersion (Int32.ofNat bytes.length) ++ bytes

def writeWString (protocolVersion : Version) (value : List UInt16) : List UInt8 :=
  if value.isEmpty then
    writeLength protocolVersion 0
  else
    let bytes := encodeWString value
    writeLength protocolVersion (Int32.ofNat bytes.length / 2) ++ bytes

/-- `writeInt8`, …, `writeWString` -/
def write (protocolVersion : Version) : BasicValue → List UInt8
  | .bool value => [if value then 1 else 0]
  | .uint8 value => [value]
  | .uint16 value => littleEndian 2 value.toNat
  | .uint32 value => littleEndian 4 value.toNat
  | .uint64 value => littleEndian 8 value.toNat
  | .float bits => littleEndian 4 bits.toNat
  | .double bits => littleEndian 8 bits.toNat
  | .string value => writeString protocolVersion value
  | .int8 value => [value.toUInt8]
  | .int16 value => littleEndian 2 value.toUInt16.toNat
  | .int32 value => littleEndian 4 value.toUInt32.toNat
  | .int64 value => littleEndian 8 value.toUInt64.toNat
  | .wstring value => writeWString protocolVersion value

/-! ## The reader -/

/-- `readLength`, and `readContainerBegin` -/
def readLength (protocolVersion : Version) : Reader Int32 :=
  if protocolVersion = .v2 then decodeVarUInt32 else (fun n => Int32.ofNat n) <$> readBits 4

def readString (protocolVersion : Version) (r : Replacement) : Reader (List UInt16) := do
  let codeUnitCount ← readLength protocolVersion
  if codeUnitCount = 0 then
    return []
  else
    return decodeString r (← readBytes codeUnitCount)

def readWString (protocolVersion : Version) (r : Replacement) : Reader (List UInt16) := do
  let codeUnitCount ← readLength protocolVersion
  if codeUnitCount = 0 then
    return []
  else
    return decodeWString r (← readBytes (codeUnitCount * 2))

/-- `readInt8`, …, `readWString` -/
def read (protocolVersion : Version) (r : Replacement) : BasicType → Reader BasicValue
  | .bool => .bool <$> readBool
  | .uint8 => .uint8 <$> readInt8
  | .uint16 => (fun n => .uint16 (UInt16.ofNat n)) <$> readBits 2
  | .uint32 => (fun n => .uint32 (UInt32.ofNat n)) <$> readBits 4
  | .uint64 => (fun n => .uint64 (UInt64.ofNat n)) <$> readBits 8
  | .float => (fun n => .float (UInt32.ofNat n)) <$> readBits 4
  | .double => (fun n => .double (UInt64.ofNat n)) <$> readBits 8
  | .string => .string <$> readString protocolVersion r
  | .int8 => (fun b : UInt8 => .int8 b.toInt8) <$> readInt8
  | .int16 => (fun n => .int16 (Int16.ofNat n)) <$> readBits 2
  | .int32 => (fun n => .int32 (Int32.ofNat n)) <$> readBits 4
  | .int64 => (fun n => .int64 (Int64.ofNat n)) <$> readBits 8
  | .wstring => .wstring <$> readWString protocolVersion r

/-! ## Reading what was written -/

/-- A value as it is read, strings apart. -/
def ofWire : Bond.Cpp.BasicValue → BasicValue
  | .bool v => .bool v
  | .uint8 v => .uint8 v
  | .uint16 v => .uint16 v
  | .uint32 v => .uint32 v
  | .uint64 v => .uint64 v
  | .float bits => .float bits
  | .double bits => .double bits
  | .string _ => .string []
  | .int8 v => .int8 v
  | .int16 v => .int16 v
  | .int32 v => .int32 v
  | .int64 v => .int64 v
  | .wstring _ => .wstring []

theorem decodes_readLength (protocolVersion : Version) (count : Int32) :
    Decodes (readLength protocolVersion) (writeLength protocolVersion count) (pure count) := by
  have hvalue : Int32.ofNat count.toUInt32.toNat = count :=
    congrArg UInt32.toInt32 (UInt32.ofNat_toNat (x := count.toUInt32))
  have hread := decodes_map_readBits 4 count.toUInt32.toNat count.toUInt32.toNat_lt
    fun n => Int32.ofNat n
  rw [hvalue] at hread
  unfold readLength writeLength
  split
  · exact decodes_decodeVarUInt32 count
  · exact hread

theorem decodes_readString (protocolVersion : Version) (r : Replacement) {value : List UInt16}
    (h : (encodeString value).length < 2 ^ 31) (hunicode : Utf16.isUnicode value = true) :
    Decodes (readString protocolVersion r) (writeString protocolVersion value) (pure value) := by
  unfold readString writeString
  cases value with
  | nil =>
      rw [if_pos List.isEmpty_nil, ← List.append_nil (writeLength protocolVersion 0)]
      exact (decodes_readLength protocolVersion 0).bind_pure (Decodes.pure _)
  | cons c cs =>
      have hpos := encodeString_pos (List.cons_ne_nil c cs)
      rw [if_neg (by simp)]
      refine (decodes_readLength protocolVersion _).bind_pure ?_
      rw [if_neg (ofNat_ne_zero hpos h)]
      have hread := (decodes_readBytes h).bind_return (decodeString r)
      rwa [decodeString_encodeString r hunicode] at hread

theorem decodes_readWString (protocolVersion : Version) (r : Replacement) {value : List UInt16}
    (h : 2 * value.length < 2 ^ 31) (hunicode : Utf16.isUnicode value = true) :
    Decodes (readWString protocolVersion r) (writeWString protocolVersion value) (pure value) := by
  have hlen := encodeWString_length value
  unfold readWString writeWString
  cases value with
  | nil =>
      rw [if_pos List.isEmpty_nil, ← List.append_nil (writeLength protocolVersion 0)]
      exact (decodes_readLength protocolVersion 0).bind_pure (Decodes.pure _)
  | cons c cs =>
      rw [if_neg (by simp)]
      refine (decodes_readLength protocolVersion _).bind_pure ?_
      rw [hlen, half_length h, if_neg (ofNat_ne_zero (by simp) (by omega)), double_count, ← hlen]
      have hbytes : (encodeWString (c :: cs)).length < 2 ^ 31 := hlen ▸ h
      have hread := (decodes_readBytes hbytes).bind_return (decodeWString r)
      rwa [decodeWString_encodeWString r hunicode] at hread

/-- A value of a basic type comes back if its strings have no lone surrogates. -/
theorem decodes_read (protocolVersion : Version) (r : Replacement) {v : BasicValue}
    (h : v.wellFormed encodeString = true) (hunicode : v.isUnicode = true) :
    Decodes (read protocolVersion r v.type) (write protocolVersion v) (pure v) := by
  cases v with
  | string chars =>
      simp only [BasicValue.wellFormed, Bool.and_eq_true, decide_eq_true_eq] at h
      exact (decodes_readString protocolVersion r h.2 hunicode).map BasicValue.string
  | wstring chars =>
      simp only [BasicValue.wellFormed, decide_eq_true_eq] at h
      exact (decodes_readWString protocolVersion r h hunicode).map BasicValue.wstring
  | _ =>
      -- what is left is written as in Fast Binary
      have hread := (FastBinary.decodes_read _ h).map ofWire
      simpa only [FastBinary.read, FastBinary.write, read, write, ofWire, BasicValue.onWire,
        Functor.map_map, map_pure, BasicValue.type] using hread

end SimpleBinary

end Bond.Java

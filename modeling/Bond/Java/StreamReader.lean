import Bond.Lib.Decoder
import Bond.Java.BinaryWriters

set_option autoImplicit false

/-! # The binary streams of Java

`BinaryStreamReader`, `StreamHelper` and the decoders of `VarUIntHelper` and `ZigzagHelper`
(java/core/src/main/java/org/bondlib). An input stream is what is left of it; it hands out as many
bytes as it is asked for, as long as it has them. -/

namespace Bond.Java

open Bond.Cpp (BondDataType BasicType)
open Bond.Lib Bond.Managed
open Decoder Varint

/-! ## Programs that read -/

inductive Exception where
  | endOfFile
  | invalidBondData
  | negativeArraySize
  | illegalArgument
deriving DecidableEq, Repr

/-- A program that reads from an `InputStream`. -/
abbrev Reader := StateT (List UInt8) (Except Exception)

def throwException {α : Type} (e : Exception) : Reader α :=
  fun _ => .error e

namespace BinaryStreamReader

/-- `readInt8`, with the byte taken for what it is when unsigned -/
def readInt8 : Reader UInt8
  | [] => .error .endOfFile
  | b :: bytes => .ok (b, bytes)

/-- `StreamHelper.readBytes` into an array of `length` bytes -/
def readExactly (length : Nat) : Reader (List UInt8) := fun bytes =>
  if bytes.length < length then
    .error .endOfFile
  else
    .ok (bytes.take length, bytes.drop length)

/-- `readBytes`, which allocates the array first -/
def readBytes (byteCount : Int32) : Reader (List UInt8) :=
  if byteCount < 0 then
    throwException .negativeArraySize
  else
    readExactly byteCount.toInt.toNat

/-- `readInt16`, `readInt32`, `readInt64`, `readFloat` and `readDouble`, by their bits -/
def readBits (size : Nat) : Reader Nat :=
  ofLittleEndian <$> readExactly size

/-- `readBool` -/
def readBool : Reader Bool := do
  let b ← readInt8
  return b ≠ 0

/-- `skipBytes`: `skip` of an input stream skips nothing if the count is negative. -/
def skipBytes (byteCount : Int) : Reader Unit := fun bytes =>
  let actualSkippedLength := min byteCount.toNat bytes.length
  if (actualSkippedLength : Int) < byteCount then
    .error .endOfFile
  else
    .ok ((), bytes.drop actualSkippedLength)

end BinaryStreamReader

open BinaryStreamReader

/-- How many bytes are left, which bounds every loop and every nesting that reads. -/
def available : Reader Nat := fun bytes => .ok (bytes.length, bytes)

/-! ## Variable-length integers -/

namespace VarUIntHelper

/-- The bytes of a varint from the one for the bits at `shift` on: `masked` bytes of seven bits, and
    one behind them of which all bits are kept. Unrolled in the source. Returns also the byte that
    it came to last. -/
def decodeVarUInt : (masked shift : Nat) → Reader (Nat × UInt8)
  | 0, shift => do
      let raw ← readInt8
      return (raw.toNat <<< shift, raw)
  | masked + 1, shift => do
      let raw ← readInt8
      if 0x80 ≤ raw then
        let (result, last) ← decodeVarUInt masked (shift + 7)
        return (((raw.toNat &&& 0x7F) <<< shift) ||| result, last)
      else
        return (raw.toNat <<< shift, raw)

def decodeVarUInt16 : Reader Int16 := do
  let (result, _) ← decodeVarUInt 2 0
  return Int16.ofNat result

def decodeVarUInt32 : Reader Int32 := do
  let (result, _) ← decodeVarUInt 4 0
  return Int32.ofNat result

/-- The tenth byte is read and ignored. -/
def decodeVarUInt64 : Reader Int64 := do
  let (result, last) ← decodeVarUInt 8 0
  if 0x80 ≤ last then
    let _ ← readInt8
    return Int64.ofNat result
  else
    return Int64.ofNat result

end VarUIntHelper

namespace ZigzagHelper

/-- `(short) (((unsignedValue & 0x0000FFFF) >>> 1) ^ -(unsignedValue & 1))`, in `int`s -/
def decodeZigzag16 (unsignedValue : Int16) : Int16 :=
  let int := unsignedValue.toInt32
  (((int &&& 0x0000FFFF).toUInt32 >>> 1).toInt32 ^^^ -(int &&& 1)).toInt16

def decodeZigzag32 (unsignedValue : Int32) : Int32 :=
  (unsignedValue.toUInt32 >>> 1).toInt32 ^^^ -(unsignedValue &&& 1)

def decodeZigzag64 (unsignedValue : Int64) : Int64 :=
  (unsignedValue.toUInt64 >>> 1).toInt64 ^^^ -(unsignedValue &&& 1)

end ZigzagHelper

/-! ## What the reads do on their encodings -/

theorem decodes_readInt8 (b : UInt8) : Decodes readInt8 [b] (pure b) := by
  intro bytes rest hbytes
  obtain rfl : bytes = [b] ++ rest := hbytes
  rfl

theorem decodes_readExactly (bs : List UInt8) :
    Decodes (readExactly bs.length) bs (pure bs) := by
  intro bytes rest hbytes
  obtain rfl : bytes = bs ++ rest := hbytes
  show readExactly bs.length (bs ++ rest) = _
  unfold readExactly
  rw [if_neg (by simp), List.take_left]
  rfl

theorem decodes_readBytes {bs : List UInt8} (h : bs.length < 2 ^ 31) :
    Decodes (readBytes (Int32.ofNat bs.length)) bs (pure bs) := by
  have hvalue : (Int32.ofNat bs.length).toInt = bs.length := Int32.toInt_ofNat_of_lt h
  have hsign : ¬ Int32.ofNat bs.length < 0 := by
    rw [Int32.lt_iff_toInt_lt, hvalue]
    show ¬ (bs.length : Int) < 0
    omega
  unfold readBytes
  rw [if_neg hsign, hvalue]
  exact decodes_readExactly bs

theorem decodes_readBits (size n : Nat) (h : n < 256 ^ size) :
    Decodes (readBits size) (littleEndian size n) (pure n) := by
  have hread := (decodes_readExactly (littleEndian size n)).map ofLittleEndian
  rw [littleEndian_length, map_pure, ofLittleEndian_littleEndian size n h] at hread
  exact hread

/-- Skipping passes over exactly as many bytes as it is told to, if that is not negative. -/
theorem decodes_skipBytes_iff {byteCount : Int} {bs : List UInt8} :
    Decodes (skipBytes byteCount) bs (pure ()) ↔ byteCount.toNat = bs.length := by
  constructor
  · intro h
    have hrun : skipBytes byteCount (bs ++ []) = .ok ((), []) := h.list_run []
    unfold skipBytes at hrun
    dsimp only at hrun
    split at hrun
    · cases hrun
    · next hge =>
        rw [List.append_nil] at hge hrun
        have hdrop : bs.drop (min byteCount.toNat bs.length) = [] := by
          simpa using hrun
        have hall := List.drop_eq_nil_iff.1 hdrop
        omega
  · intro h bytes rest hbytes
    obtain rfl : bytes = bs ++ rest := hbytes
    show skipBytes byteCount (bs ++ rest) = _
    unfold skipBytes
    dsimp only
    rw [h, List.length_append, Nat.min_eq_left (Nat.le_add_right _ _), if_neg (by omega)]
    rfl

theorem decodes_skipBytes (bs : List UInt8) :
    Decodes (skipBytes bs.length) bs (pure ()) :=
  decodes_skipBytes_iff.2 (Int.toNat_natCast _)

/-- A program that asks for the number of bytes left is told at least the length of what it is
    about to read. -/
theorem decodes_available {α : Type} {f : Nat → Reader α} {enc : List UInt8}
    {r : Except Exception α} (h : ∀ k, enc.length ≤ k → Decodes (f k) enc r) :
    Decodes (available >>= f) enc r := by
  intro bytes rest hbytes
  have hle : enc.length ≤ bytes.length := by
    rw [show bytes = enc ++ rest from hbytes, List.length_append]
    omega
  exact h bytes.length hle bytes rest hbytes

/-! ### Varints -/

theorem low_byte (n : Nat) : (UInt8.ofNat (n % 128 + 128)).toNat = n % 128 + 128 := by
  rw [UInt8.toNat_ofNat']
  omega

/-- The decoder reads the digits of a number. Where its last byte is one with a high bit, that is
    the highest bit of the number, and a byte is left. -/
theorem decodes_decodeVarUInt (masked n shift : Nat) (h : n < 2 * 128 ^ (masked + 1)) :
    ∃ enc last, Decodes (VarUIntHelper.decodeVarUInt masked shift) enc (pure (n <<< shift, last)) ∧
      varint n = enc ++ (if 0x80 ≤ last then [1] else []) ∧
      (0x80 ≤ last → 128 ^ (masked + 1) ≤ n) := by
  induction masked generalizing n shift with
  | zero =>
      have hbyte : (UInt8.ofNat n).toNat = n := by
        rw [UInt8.toNat_ofNat']
        omega
      have hhigh : 0x80 ≤ UInt8.ofNat n ↔ 128 ^ (0 + 1) ≤ n := by
        rw [UInt8.le_iff_toNat_le, hbyte]
        rfl
      refine ⟨[UInt8.ofNat n], UInt8.ofNat n, ?_, ?_, ?_⟩
      · have hread : Decodes (VarUIntHelper.decodeVarUInt 0 shift) [UInt8.ofNat n] _ :=
          (decodes_readInt8 (UInt8.ofNat n)).bind_return fun raw => (raw.toNat <<< shift, raw)
        rwa [hbyte] at hread
      · by_cases hlt : n < 128
        · rw [varint_of_lt hlt, if_neg (mt hhigh.1 (by omega)), List.append_nil]
        · have hone : varint (n / 128) = [1] := by
            rw [varint_of_lt (by omega), show n / 128 = 1 by omega]
            rfl
          rw [varint_of_ge hlt, if_pos (hhigh.2 (by omega)), hone,
            show n % 128 + 128 = n by omega]
          rfl
      · exact hhigh.1
  | succ masked ih =>
      by_cases hlt : n < 128
      · have hbyte : (UInt8.ofNat n).toNat = n := by
          rw [UInt8.toNat_ofNat']
          omega
        have hend : ¬ 0x80 ≤ UInt8.ofNat n := by
          rw [UInt8.le_iff_toNat_le, hbyte]
          simpa using hlt
        refine ⟨[UInt8.ofNat n], UInt8.ofNat n, ?_, ?_, fun hle => absurd hle hend⟩
        · rw [VarUIntHelper.decodeVarUInt, ← List.append_nil [UInt8.ofNat n]]
          refine (decodes_readInt8 _).bind_pure ?_
          rw [if_neg hend, hbyte]
          exact Decodes.pure _
        · rw [varint_of_lt hlt, if_neg hend, List.append_nil]
      · have hmore : 0x80 ≤ UInt8.ofNat (n % 128 + 128) := by
          rw [UInt8.le_iff_toNat_le, low_byte]
          simp
        have hmask : (n % 128 + 128) &&& 0x7F = n % 128 := by
          rw [show 0x7F = 2 ^ 7 - 1 from rfl, Nat.and_two_pow_sub_one_eq_mod]
          omega
        have hsmall : n / 128 < 2 * 128 ^ (masked + 1) := by
          rw [Nat.div_lt_iff_lt_mul (by decide), Nat.mul_assoc, ← Nat.pow_succ]
          exact h
        obtain ⟨enc, last, hread, hdigits, hlast⟩ := ih (n / 128) (shift + 7) hsmall
        refine ⟨UInt8.ofNat (n % 128 + 128) :: enc, last, ?_, ?_, fun hle => ?_⟩
        · rw [VarUIntHelper.decodeVarUInt, ← List.singleton_append]
          refine (decodes_readInt8 _).bind_pure ?_
          rw [if_pos hmore, low_byte, hmask]
          have hdigit := hread.bind_return fun result =>
            (((n % 128) <<< shift) ||| result.1, result.2)
          rwa [or_shiftLeft_digits n shift] at hdigit
        · rw [varint_of_ge hlt, hdigits, List.cons_append]
        · have hle := hlast hle
          rw [Nat.le_div_iff_mul_le (by decide), ← Nat.pow_succ] at hle
          exact hle

/-- Where the number fits the digits, the whole of it is read. -/
theorem decodes_decodeVarUInt_of_lt (masked n : Nat) (h : n < 128 ^ (masked + 1)) :
    ∃ last, Decodes (VarUIntHelper.decodeVarUInt masked 0) (varint n) (pure (n, last)) := by
  obtain ⟨enc, last, hread, hdigits, hlast⟩ := decodes_decodeVarUInt masked n 0 (by omega)
  have hend : ¬ 0x80 ≤ last := fun hle => by
    have := hlast hle
    omega
  rw [if_neg hend, List.append_nil] at hdigits
  rw [Nat.shiftLeft_zero] at hread
  exact ⟨last, hdigits ▸ hread⟩

namespace VarUIntHelper

theorem decodes_decodeVarUInt16 (v : Int16) :
    Decodes decodeVarUInt16 (encodeVarUInt16 v) (pure v) := by
  obtain ⟨last, hread⟩ := decodes_decodeVarUInt_of_lt 2 v.toUInt16.toNat
    (Nat.lt_of_lt_of_le v.toUInt16.toNat_lt (by decide))
  have hvalue : Int16.ofNat v.toUInt16.toNat = v :=
    congrArg UInt16.toInt16 (UInt16.ofNat_toNat (x := v.toUInt16))
  have hdecode := hread.bind_return fun result => Int16.ofNat result.1
  rw [encodeVarUInt16_eq]
  rwa [hvalue] at hdecode

theorem decodes_decodeVarUInt32 (v : Int32) :
    Decodes decodeVarUInt32 (encodeVarUInt32 v) (pure v) := by
  obtain ⟨last, hread⟩ := decodes_decodeVarUInt_of_lt 4 v.toUInt32.toNat
    (Nat.lt_of_lt_of_le v.toUInt32.toNat_lt (by decide))
  have hvalue : Int32.ofNat v.toUInt32.toNat = v :=
    congrArg UInt32.toInt32 (UInt32.ofNat_toNat (x := v.toUInt32))
  have hdecode := hread.bind_return fun result => Int32.ofNat result.1
  rw [encodeVarUInt32_eq]
  rwa [hvalue] at hdecode

theorem decodes_decodeVarUInt64 (v : Int64) :
    Decodes decodeVarUInt64 (encodeVarUInt64 v) (pure v) := by
  obtain ⟨enc, last, hread, hdigits, -⟩ := decodes_decodeVarUInt 8 v.toUInt64.toNat 0
    (Nat.lt_of_lt_of_le v.toUInt64.toNat_lt (by decide))
  have hvalue : Int64.ofNat v.toUInt64.toNat = v :=
    congrArg UInt64.toInt64 (UInt64.ofNat_toNat (x := v.toUInt64))
  rw [encodeVarUInt64_eq, hdigits, decodeVarUInt64]
  refine hread.bind_pure ?_
  dsimp only
  rw [Nat.shiftLeft_zero, hvalue]
  split
  · exact (decodes_readInt8 1).bind_return fun _ => v
  · exact Decodes.pure v

end VarUIntHelper

/-! ### Zigzag -/

namespace ZigzagHelper

theorem decodeZigzag32_encodeZigzag32 (v : Int32) : decodeZigzag32 (encodeZigzag32 v) = v := by
  have hbits := Bond.Cpp.decodeZigZag_encodeZigZag v.toBitVec
  apply Int32.toBitVec_inj.1
  rw [← hbits]
  rfl

theorem decodeZigzag64_encodeZigzag64 (v : Int64) : decodeZigzag64 (encodeZigzag64 v) = v := by
  have hbits := Bond.Cpp.decodeZigZag_encodeZigZag v.toBitVec
  apply Int64.toBitVec_inj.1
  rw [← hbits]
  rfl

/-- The detour of the `short`s through `int`s changes nothing. -/
theorem toBitVec_encodeZigzag16 (v : Int16) :
    (encodeZigzag16 v).toBitVec = Bond.Cpp.encodeZigZag v.toBitVec := by
  have hone : (1 : Int32).toBitVec.smod 32 = 1#32 := by decide
  have hshift : (15 : Int32).toBitVec.smod 32 = 15#32 := by decide
  unfold encodeZigzag16 Bond.Cpp.encodeZigZag
  rw [Int32.toBitVec_toInt16, BitVec.signExtend_eq_setWidth_of_le _ (by decide),
    Int32.toBitVec_xor, Int32.toBitVec_shiftLeft, Int32.toBitVec_shiftRight,
    Int16.toBitVec_toInt32, hone, hshift]
  apply BitVec.eq_of_getLsbD_eq
  intro i hi
  cases i with
  | zero => simp [BitVec.getElem_sshiftRight, BitVec.getElem_signExtend]
  | succ i =>
      simp [BitVec.getLsbD_sshiftRight, BitVec.getLsbD_signExtend, hi]
      grind

theorem toBitVec_decodeZigzag16 (u : Int16) :
    (decodeZigzag16 u).toBitVec = Bond.Cpp.decodeZigZag u.toBitVec := by
  have hmask : (u.toInt32 &&& 0x0000FFFF).toBitVec = u.toBitVec.setWidth 32 := by
    have hones : (0x0000FFFF : Int32).toBitVec = (BitVec.allOnes 16).setWidth 32 := by decide
    apply BitVec.eq_of_getLsbD_eq
    intro i hi
    rw [Int32.toBitVec_and, Int16.toBitVec_toInt32, hones, BitVec.getLsbD_and,
      BitVec.getLsbD_setWidth, BitVec.getLsbD_setWidth, BitVec.getLsbD_allOnes,
      BitVec.getLsbD_signExtend]
    grind
  have hone : (u.toInt32 &&& 1).toBitVec = (u.toBitVec &&& 1#16).setWidth 32 := by
    apply BitVec.eq_of_getLsbD_eq
    intro i hi
    rw [Int32.toBitVec_and, Int16.toBitVec_toInt32]
    simp [BitVec.getLsbD_signExtend, BitVec.getLsbD_one]
    grind
  have hshift : ((u.toInt32 &&& 0x0000FFFF).toUInt32 >>> 1).toInt32.toBitVec
      = (u.toInt32 &&& 0x0000FFFF).toBitVec >>> 1 := rfl
  unfold decodeZigzag16 Bond.Cpp.decodeZigZag
  rw [Int32.toBitVec_toInt16, BitVec.signExtend_eq_setWidth_of_le _ (by decide),
    Int32.toBitVec_xor, Int32.toBitVec_neg, hone, hshift, hmask, BitVec.setWidth_xor,
    BitVec.setWidth_neg_of_le (by decide)]
  congr 1
  · apply BitVec.eq_of_getLsbD_eq
    intro i hi
    simp
    grind
  · simp

theorem decodeZigzag16_encodeZigzag16 (v : Int16) : decodeZigzag16 (encodeZigzag16 v) = v := by
  apply Int16.toBitVec_inj.1
  rw [toBitVec_decodeZigzag16, toBitVec_encodeZigzag16, Bond.Cpp.decodeZigZag_encodeZigZag]

end ZigzagHelper

end Bond.Java

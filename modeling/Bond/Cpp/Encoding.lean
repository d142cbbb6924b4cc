import Bond.Cpp.InputBuffer
import Mathlib.Tactic.Ring

set_option autoImplicit false

/-! # Variable-length and zigzag integers

The integer encodings of cpp/inc/bond/protocol/encoding.h and the unrolled reader that
`InputBuffer` has for them. Both readers get back what the writer wrote, so it does not matter which
of them the distance to the end of the buffer selects. -/

namespace Bond.Cpp

open Decoder Varint

/-! ## Variable-length unsigned integers -/

/-- The unsigned types that are written with a variable length. -/
inductive VarWidth where
  | w16 | w32 | w64
deriving DecidableEq, Repr

def VarWidth.sizeof : VarWidth → Nat
  | .w16 => 2
  | .w32 => 4
  | .w64 => 8

def VarWidth.bits (w : VarWidth) : Nat :=
  w.sizeof * 8

/-- The shift at which `VariableUnsignedUnchecked` stops recursing. -/
def VarWidth.lastShift : VarWidth → Nat
  | .w16 => 14
  | .w32 => 28
  | .w64 => 56

/-- `GenericWriteVariableUnsigned` (cpp/inc/bond/protocol/encoding.h) -/
def genericWriteVariableUnsigned (x : Nat) : List UInt8 :=
  if x >>> 7 ≠ 0 then
    UInt8.ofNat (x ||| 0x80) :: genericWriteVariableUnsigned (x >>> 7)
  else
    [UInt8.ofNat x]
termination_by x
decreasing_by
  rename_i h
  rw [Nat.shiftRight_eq_div_pow] at h ⊢
  omega

theorem toUInt8_or_high (x : Nat) : UInt8.ofNat (x ||| 0x80) = UInt8.ofNat (x % 128 + 128) := by
  apply UInt8.toNat_inj.1
  rw [UInt8.toNat_ofNat', UInt8.toNat_ofNat', Nat.or_mod_two_pow]
  have hor : ∀ y < 256, y ||| 128 = y % 128 + 128 := by decide +kernel
  rw [hor (x % 2 ^ 8) (Nat.mod_lt x (by decide))]
  omega

theorem genericWriteVariableUnsigned_eq (x : Nat) : genericWriteVariableUnsigned x = varint x := by
  induction x using Nat.strongRecOn with
  | ind x ih =>
      have hshift : x >>> 7 = x / 128 := Nat.shiftRight_eq_div_pow x 7
      rw [genericWriteVariableUnsigned]
      by_cases hx : x < 128
      · rw [if_neg (by omega), varint_of_lt hx]
      · rw [if_pos (by omega), varint_of_ge hx, ih _ (by omega), toUInt8_or_high, hshift]

namespace InputBuffer

/-- The loop of `GenericReadVariableUnsigned`, for the bytes that are left. -/
def genericReadLoop (w : VarWidth) : (left value shift : Nat) → Reader Nat
  | 0, _, _ => eofException 1
  | left + 1, value, shift => do
      let byte ← readUInt8
      let part := byte.toNat &&& 0x7f
      let value := (value + (part <<< shift)) % 2 ^ w.bits
      if byte ≥ 0x80 then genericReadLoop w left value (shift + 7) else return value

/-- `GenericReadVariableUnsigned` -/
def genericReadVariableUnsigned (w : VarWidth) : Reader Nat := do
  let left ← remainingLength
  genericReadLoop w left 0 0

/-- `VariableUnsignedUnchecked::Read`, with the number of bytes it steps over; it looks at no
    bound itself. A `char` above `0x7f` is sign-extended there, which none of the bits it keeps
    can tell from the byte. -/
def variableUnsignedUnchecked (w : VarWidth) : (shift value : Nat) → List UInt8 →
    Option (Nat × Nat)
  | _, _, [] => none
  | shift, value, byte :: p =>
      if shift = w.lastShift then
        -- the last byte is not masked; a `uint64_t` steps over its tenth byte unread
        some ((value ||| (byte.toNat <<< shift)) % 2 ^ w.bits,
          if w = .w64 ∧ byte ≥ 0x80 then 2 else 1)
      else
        let value := value ||| ((byte.toNat &&& 0x7f) <<< shift)
        if byte ≥ 0x80 then
          (variableUnsignedUnchecked w (shift + 7) value p).map fun r => (r.1, r.2 + 1)
        else
          some (value, 1)

/-- `InputBuffer::ReadVariableUnsigned`: the unrolled path when enough bytes are left. -/
def readVariableUnsigned (w : VarWidth) : Reader Nat := fun b =>
  if b.blob.length > b.pointer + w.sizeof * 8 / 7 then
    match variableUnsignedUnchecked w 0 0 b.remaining with
    | some (value, size) => .ok (value, b.advance size)
    | none => bondThrow .undefinedBehavior b
  else
    genericReadVariableUnsigned w b

/-! ### What the readers do -/

theorem varint_low_byte (n : Nat) :
    (UInt8.ofNat (n % 128 + 128)).toNat = n % 128 + 128 := by
  rw [UInt8.toNat_ofNat']
  omega

theorem and_low (byte : Nat) : byte &&& 0x7f = byte % 128 :=
  Nat.and_two_pow_sub_one_eq_mod byte 7

/-- The digits above the lowest weigh the same at the next shift. -/
theorem add_digit (value n shift : Nat) :
    value + n % 128 * 2 ^ shift + n / 128 * 2 ^ (shift + 7) = value + n * 2 ^ shift := by
  calc value + n % 128 * 2 ^ shift + n / 128 * 2 ^ (shift + 7)
      = value + (n % 128 + 128 * (n / 128)) * 2 ^ shift := by ring
    _ = value + n * 2 ^ shift := by rw [Nat.mod_add_div]

/-- A value and the digit above it fill seven bits more. -/
theorem add_digit_lt {value shift : Nat} (hvalue : value < 2 ^ shift) (n : Nat) :
    value + n % 128 * 2 ^ shift < 2 ^ (shift + 7) := by
  have hmul : n % 128 * 2 ^ shift ≤ 127 * 2 ^ shift := Nat.mul_le_mul_right _ (by omega)
  rw [Nat.pow_add]
  omega

/-- Each turn of the loop takes one base-128 digit from `n` and adds it to `value`. -/
theorem decodes_genericReadLoop (w : VarWidth) (left n value shift : Nat)
    (hleft : (varint n).length ≤ left) (hn : value + n * 2 ^ shift < 2 ^ w.bits) :
    Decodes (genericReadLoop w left value shift) (varint n) (pure (value + n * 2 ^ shift)) := by
  induction left generalizing n value shift with
  | zero =>
      have hpos := varint_length_pos n
      omega
  | succ left ih =>
      by_cases hlt : n < 128
      · have hbyte : (UInt8.ofNat n).toNat = n := by
          rw [UInt8.toNat_ofNat']
          omega
        have hlast : ¬ UInt8.ofNat n ≥ 0x80 := by
          rw [ge_iff_le, UInt8.le_iff_toNat_le, hbyte]
          simpa using hlt
        rw [varint_of_lt hlt, genericReadLoop, ← List.append_nil [UInt8.ofNat n]]
        refine (decodes_readUInt8 _).bind_pure ?_
        simp only [hlast, if_false, hbyte, and_low, Nat.mod_eq_of_lt hlt, Nat.shiftLeft_eq,
          Nat.mod_eq_of_lt hn]
        exact Decodes.pure _
      · have hmore : UInt8.ofNat (n % 128 + 128) ≥ 0x80 := by
          rw [ge_iff_le, UInt8.le_iff_toNat_le, varint_low_byte]
          simp
        have hdigit : (n % 128 + 128) % 128 = n % 128 := by omega
        have hnext : value + n % 128 * 2 ^ shift + n / 128 * 2 ^ (shift + 7)
            = value + n * 2 ^ shift := add_digit value n shift
        rw [varint_of_ge hlt] at hleft ⊢
        rw [genericReadLoop, ← List.singleton_append]
        refine (decodes_readUInt8 _).bind_pure ?_
        simp only [hmore, if_true, varint_low_byte, and_low, hdigit, Nat.shiftLeft_eq]
        rw [Nat.mod_eq_of_lt (by omega), ← hnext]
        exact ih _ _ _ (by simpa using hleft) (by omega)

theorem decodes_genericReadVariableUnsigned (w : VarWidth) (v : Nat) (hv : v < 2 ^ w.bits) :
    Decodes (genericReadVariableUnsigned w) (varint v) (pure v) := by
  refine decodes_remainingLength fun left hleft => ?_
  have hread := decodes_genericReadLoop w left v 0 0 hleft (by simpa using hv)
  simpa using hread

theorem or_shiftLeft_eq_add {value x shift : Nat} (hvalue : value < 2 ^ shift) :
    value ||| (x <<< shift) = value + x * 2 ^ shift := by
  rw [Nat.shiftLeft_eq, Nat.or_comm, Nat.mul_comm, ← Nat.two_pow_add_eq_or_of_lt hvalue,
    Nat.add_comm]

/-- The unrolled reader finds the same digits; where it stops recursing the digits left fit one
    byte, or two of which it needs to look at the first only. -/
theorem variableUnsignedUnchecked_varint (w : VarWidth) (n value shift : Nat) (rest : List UInt8)
    (hdvd : 7 ∣ shift) (hshift : shift ≤ w.lastShift) (hvalue : value < 2 ^ shift)
    (hn : value + n * 2 ^ shift < 2 ^ w.bits) :
    variableUnsignedUnchecked w shift value (varint n ++ rest)
      = some (value + n * 2 ^ shift, (varint n).length) := by
  induction n using Nat.strongRecOn generalizing value shift with
  | ind n ih =>
      by_cases hlt : n < 128
      · have hbyte : (UInt8.ofNat n).toNat = n := by
          rw [UInt8.toNat_ofNat']
          omega
        have hend : ¬ UInt8.ofNat n ≥ 0x80 := by
          rw [ge_iff_le, UInt8.le_iff_toNat_le, hbyte]
          simpa using hlt
        rw [varint_of_lt hlt, List.singleton_append, variableUnsignedUnchecked]
        simp only [hbyte, and_low, Nat.mod_eq_of_lt hlt, or_shiftLeft_eq_add hvalue,
          Nat.mod_eq_of_lt hn, hend, and_false, if_false, List.length_singleton, ite_self]
      · have hmore : UInt8.ofNat (n % 128 + 128) ≥ 0x80 := by
          rw [ge_iff_le, UInt8.le_iff_toNat_le, varint_low_byte]
          simp
        rw [varint_of_ge hlt, List.cons_append, variableUnsignedUnchecked]
        by_cases hlast : shift = w.lastShift
        · -- two digits are left only of a `uint64_t`, and its last byte is taken unmasked
          have hw : w = .w64 ∧ n < 256 := by
            cases w <;>
              simp only [hlast, VarWidth.lastShift, VarWidth.bits, VarWidth.sizeof] at hn <;>
              simp <;> omega
          obtain ⟨rfl, hn256⟩ := hw
          have hone : varint (n / 128) = [1] := by
            rw [varint_of_lt (by omega), show n / 128 = 1 by omega]
            rfl
          have hself : n % 128 + 128 = n := by omega
          rw [if_pos hlast, varint_low_byte, hself, or_shiftLeft_eq_add hvalue,
            Nat.mod_eq_of_lt hn, hone, if_pos ⟨rfl, hself ▸ hmore⟩]
          rfl
        · have hnext : value + n % 128 * 2 ^ shift + n / 128 * 2 ^ (shift + 7)
              = value + n * 2 ^ shift := add_digit value n shift
          have hlow : value + n % 128 * 2 ^ shift < 2 ^ (shift + 7) := add_digit_lt hvalue n
          have hroom : shift + 7 ≤ w.lastShift := by
            have hlastdvd : 7 ∣ w.lastShift := by cases w <;> decide
            omega
          rw [if_neg hlast]
          simp only [hmore, if_true, varint_low_byte, and_low, Nat.add_mod_right,
            Nat.mod_mod, or_shiftLeft_eq_add hvalue]
          rw [ih (n / 128) (by omega) _ _ (by omega) hroom hlow (by omega), hnext]
          rfl

/-- `ReadVariableUnsigned` reads back every value of its type, on either path. -/
theorem decodes_readVariableUnsigned (w : VarWidth) (v : Nat) (hv : v < 2 ^ w.bits) :
    Decodes (readVariableUnsigned w) (varint v) (pure v) := by
  intro b rest hb
  simp only [StateT.run, readVariableUnsigned]
  split
  · have hread := variableUnsignedUnchecked_varint w v 0 0 rest (Nat.dvd_zero 7) (Nat.zero_le _)
      (by simp) (by simpa using hv)
    rw [show b.remaining = varint v ++ rest from hb, hread]
    simp
    rfl
  · exact decodes_genericReadVariableUnsigned w v hv b rest hb

end InputBuffer

/-! ## Zigzag -/

/-- `EncodeZigZag` -/
def encodeZigZag {w : Nat} (value : BitVec w) : BitVec w :=
  (value <<< 1) ^^^ value.sshiftRight (w - 1)

/-- `DecodeZigZag` -/
def decodeZigZag {w : Nat} (value : BitVec w) : BitVec w :=
  (value >>> 1) ^^^ -(value &&& 1#w)

theorem neg_and_one {w : Nat} (u : BitVec w) :
    -(u &&& 1#w) = if u.getLsbD 0 then BitVec.allOnes w else 0#w := by
  have hbit : u &&& 1#w = if u.getLsbD 0 then 1#w else 0#w := by
    apply BitVec.eq_of_getLsbD_eq
    intro i hi
    cases i with
    | zero => cases h : u.getLsbD 0 <;> simp [h]
    | succ i => cases h : u.getLsbD 0 <;> simp [BitVec.getLsbD_one]
  rw [hbit]
  split
  · exact BitVec.neg_one_eq_allOnes
  · simp

/-- Zigzag moves every bit up by one and flips it with the sign. -/
theorem encodeZigZag_getLsbD {w : Nat} (v : BitVec w) (i : Nat) (hi : i < w) :
    (encodeZigZag v).getLsbD i = ((!decide (i < 1) && v.getLsbD (i - 1)) ^^ v.msb) := by
  have hsign : (v.sshiftRight (w - 1)).getLsbD i = v.msb := by
    rw [BitVec.getLsbD_sshiftRight, decide_eq_false (by omega), Bool.not_false, Bool.true_and]
    split
    · rw [BitVec.msb_eq_getLsbD_last, show w - 1 + i = w - 1 by omega]
    · rfl
  rw [encodeZigZag, BitVec.getLsbD_xor, BitVec.getLsbD_shiftLeft, hsign, decide_eq_true hi,
    Bool.true_and]

theorem decodeZigZag_encodeZigZag {w : Nat} (v : BitVec w) : decodeZigZag (encodeZigZag v) = v := by
  apply BitVec.eq_of_getLsbD_eq
  intro i hi
  have hzero : (encodeZigZag v).getLsbD 0 = v.msb := by
    simp [encodeZigZag_getLsbD v 0 (by omega)]
  have hmask : (if v.msb = true then BitVec.allOnes w else 0#w).getLsbD i = v.msb := by
    cases h : v.msb <;> simp [hi]
  rw [decodeZigZag, neg_and_one, hzero, BitVec.getLsbD_xor, BitVec.getLsbD_ushiftRight, hmask]
  by_cases hlast : 1 + i < w
  · rw [encodeZigZag_getLsbD v (1 + i) hlast]
    simp
  · rw [BitVec.getLsbD_of_ge _ _ (by omega), Bool.false_xor, BitVec.msb_eq_getLsbD_last,
      show w - 1 = i by omega]

end Bond.Cpp

import Bond.Cpp.Encoding

set_option autoImplicit false

/-! # Variable-length integers in C# and Java

`IntegerHelper` (cs/src/core/io/IntegerHelper.cs) and `VarUIntHelper`
(java/core/src/main/java/org/bondlib/VarUIntHelper.java) unroll the same two loops for each integer
width: one writes an integer, the other says how many bytes that takes. -/

namespace Bond.Managed

open Varint

/-- `EncodeVarUInt*`, with the number of bytes that may come before the last. -/
def encodeVarUInt : (more value : Nat) → List UInt8
  | 0, value => [UInt8.ofNat value]
  | more + 1, value =>
      if value ≥ 0x80 then
        UInt8.ofNat (value ||| 0x80) :: encodeVarUInt more (value >>> 7)
      else
        [UInt8.ofNat value]

/-- `GetVarUInt*Length`, from the test for `length` on, with the number of tests that are left. -/
def getVarUIntLength (length : Nat) : (more value : Nat) → Nat
  | 0, _ => length
  | more + 1, value =>
      if value < 1 <<< (7 * length) then length else getVarUIntLength (length + 1) more value

theorem encodeVarUInt_eq (more value : Nat) (h : value < 128 ^ (more + 1)) :
    encodeVarUInt more value = varint value := by
  induction more generalizing value with
  | zero => rw [encodeVarUInt, varint_of_lt (by simpa using h)]
  | succ more ih =>
      have hshift : value >>> 7 = value / 128 := Nat.shiftRight_eq_div_pow value 7
      rw [encodeVarUInt, hshift]
      by_cases hv : value < 128
      · rw [if_neg (by omega), varint_of_lt hv]
      · have hdiv : value / 128 < 128 ^ (more + 1) := by
          rw [Nat.div_lt_iff_lt_mul (by decide), ← Nat.pow_succ]
          exact h
        rw [if_pos (by omega), ih _ hdiv, varint_of_ge hv, Cpp.toUInt8_or_high]

theorem encodeVarUInt_ne_nil (more value : Nat) : encodeVarUInt more value ≠ [] := by
  cases more with
  | zero => exact List.cons_ne_nil _ _
  | succ more =>
      rw [encodeVarUInt]
      split_ifs
      · exact List.cons_ne_nil _ _
      · exact List.cons_ne_nil _ _

theorem encodeVarUInt_length_le (more value : Nat) :
    (encodeVarUInt more value).length ≤ more + 1 := by
  induction more generalizing value with
  | zero => exact Nat.le_refl _
  | succ more ih =>
      rw [encodeVarUInt]
      split_ifs
      · exact Nat.succ_le_succ (ih _)
      · simp

/-- A single byte is the value itself. -/
theorem eq_of_encodeVarUInt_singleton {more value : Nat} {b : UInt8}
    (h : encodeVarUInt (more + 1) value = [b]) : value = b.toNat := by
  rw [encodeVarUInt] at h
  split_ifs at h with hmore
  · exact absurd (List.cons.inj h).2 (encodeVarUInt_ne_nil more _)
  · rw [← (List.cons.inj h).1, UInt8.toNat_ofNat']
    omega

/-- `k` tests have failed, so the value has `k` digits and those that are left. -/
theorem getVarUIntLength_eq (k more value : Nat) (h : value / 128 ^ k < 128 ^ (more + 1)) :
    getVarUIntLength (k + 1) more value = k + (varint (value / 128 ^ k)).length := by
  induction more generalizing k with
  | zero =>
      rw [getVarUIntLength, varint_of_lt (by simpa using h)]
      rfl
  | succ more ih =>
      have hbound : 1 <<< (7 * (k + 1)) = 128 ^ (k + 1) := by
        rw [Nat.shiftLeft_eq, Nat.one_mul, Nat.pow_mul]
      have hiff : value < 128 ^ (k + 1) ↔ value / 128 ^ k < 128 := by
        rw [Nat.div_lt_iff_lt_mul (Nat.pow_pos (by decide)), Nat.pow_succ']
      have hdigit : value / 128 ^ (k + 1) = value / 128 ^ k / 128 := by
        rw [Nat.pow_succ, Nat.div_div_eq_div_mul]
      rw [getVarUIntLength, hbound]
      by_cases hv : value / 128 ^ k < 128
      · rw [if_pos (hiff.2 hv), varint_of_lt hv]
        rfl
      · have hdiv : value / 128 ^ (k + 1) < 128 ^ (more + 1) := by
          rw [hdigit, Nat.div_lt_iff_lt_mul (by decide), ← Nat.pow_succ]
          exact h
        rw [if_neg (fun hlt => hv (hiff.1 hlt)), ih (k + 1) hdiv, varint_of_ge hv, hdigit,
          List.length_cons]
        omega

/-- The length is that of what is written. -/
theorem getVarUIntLength_encode (more value : Nat) (h : value < 128 ^ (more + 1)) :
    getVarUIntLength 1 more value = (encodeVarUInt more value).length := by
  have hlength := getVarUIntLength_eq 0 more value (by simpa using h)
  rw [encodeVarUInt_eq more value h]
  simpa using hlength

end Bond.Managed

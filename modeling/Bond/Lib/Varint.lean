import Mathlib.Data.Nat.Bitwise
import Mathlib.Tactic.Ring

set_option autoImplicit false

/-! # Positional byte encodings of natural numbers

Two encodings of a natural number as bytes, least significant digit first: `littleEndian` with a
fixed number of base-256 digits, and `varint` with as many base-128 digits as the number needs, the
high bit of a byte telling whether another one follows. -/

namespace Varint

/-! ## Fixed width -/

/-- The `k` lowest base-256 digits of `n`. -/
def littleEndian : Nat → Nat → List UInt8
  | 0, _ => []
  | k + 1, n => UInt8.ofNat n :: littleEndian k (n / 256)

/-- The number a list of base-256 digits denotes. -/
def ofLittleEndian : List UInt8 → Nat
  | [] => 0
  | b :: bs => b.toNat + 256 * ofLittleEndian bs

@[simp]
theorem littleEndian_length (k n : Nat) : (littleEndian k n).length = k := by
  induction k generalizing n with
  | zero => rfl
  | succ k ih => simp [littleEndian, ih]

theorem ofLittleEndian_littleEndian (k n : Nat) (h : n < 256 ^ k) :
    ofLittleEndian (littleEndian k n) = n := by
  induction k generalizing n with
  | zero => simpa [littleEndian, ofLittleEndian, eq_comm] using h
  | succ k ih =>
      have hdiv : n / 256 < 256 ^ k := by
        rw [Nat.div_lt_iff_lt_mul (by decide), ← Nat.pow_succ]
        exact h
      rw [littleEndian, ofLittleEndian, ih _ hdiv, UInt8.toNat_ofNat']
      omega

/-! ## Variable width -/

/-- Base-128 digits, least significant first; every byte but the last has its high bit set. -/
def varint (n : Nat) : List UInt8 :=
  if n < 128 then [UInt8.ofNat n] else UInt8.ofNat (n % 128 + 128) :: varint (n / 128)
termination_by n

theorem varint_of_lt {n : Nat} (h : n < 128) : varint n = [UInt8.ofNat n] := by
  rw [varint, if_pos h]

theorem varint_of_ge {n : Nat} (h : ¬ n < 128) :
    varint n = UInt8.ofNat (n % 128 + 128) :: varint (n / 128) := by
  rw [varint, if_neg h]

/-- A digit and the digits behind it, in the place of a number. -/
theorem or_shiftLeft_digits (n shift : Nat) :
    ((n % 128) <<< shift) ||| ((n / 128) <<< (shift + 7)) = n <<< shift := by
  have hdigit : n % 128 < 2 ^ 7 := Nat.mod_lt _ (by decide)
  have hor : n % 128 ||| (n / 128) <<< 7 = n := by
    rw [Nat.shiftLeft_eq, Nat.or_comm, Nat.mul_comm, ← Nat.two_pow_add_eq_or_of_lt hdigit]
    omega
  rw [Nat.add_comm shift 7, Nat.shiftLeft_add, ← Nat.shiftLeft_or_distrib, hor]

theorem varint_length_pos (n : Nat) : 0 < (varint n).length := by
  rw [varint]
  split <;> simp

/-- A number of at most `7 * k` bits takes at most `k` bytes. -/
theorem varint_length_le (k n : Nat) (hk : 0 < k) (h : n < 128 ^ k) : (varint n).length ≤ k := by
  induction k generalizing n with
  | zero => omega
  | succ k ih =>
      by_cases hn : n < 128
      · rw [varint_of_lt hn]
        simp
      · have hdiv : n / 128 < 128 ^ k := by
          rw [Nat.div_lt_iff_lt_mul (by decide), ← Nat.pow_succ]
          exact h
        have hk0 : 0 < k := by
          rcases Nat.eq_zero_or_pos k with rfl | hk0
          · omega
          · exact hk0
        rw [varint_of_ge hn, List.length_cons]
        exact Nat.succ_le_succ (ih _ hk0 hdiv)

/-- A number of more than `7 * k` bits takes more than `k` bytes. -/
theorem lt_varint_length (k n : Nat) (h : 128 ^ k ≤ n) : k < (varint n).length := by
  induction k generalizing n with
  | zero => exact varint_length_pos n
  | succ k ih =>
      have hpos : 0 < 128 ^ k := Nat.pow_pos (by decide)
      rw [Nat.pow_succ] at h
      have hdiv : 128 ^ k ≤ n / 128 := (Nat.le_div_iff_mul_le (by decide)).2 h
      rw [varint_of_ge (by omega), List.length_cons]
      exact Nat.succ_lt_succ (ih _ hdiv)

theorem varint_length_mono {m n : Nat} (h : m ≤ n) : (varint m).length ≤ (varint n).length := by
  have hpos := varint_length_pos n
  by_contra hlt
  have hdigits : 128 ^ ((varint m).length - 1) ≤ n := by
    by_contra hsmall
    have hle := varint_length_le ((varint m).length - 1) m (by omega) (by omega)
    omega
  have hmore := lt_varint_length _ n hdigits
  omega

/-! ### Any representation

A number also has representations that are longer than `varint`: digits of zero may follow. -/

/-- The number that base-128 digits denote, whatever their high bits say. -/
def ofVarint : List UInt8 → Nat
  | [] => 0
  | b :: bs => b.toNat % 128 + 128 * ofVarint bs

/-- The digits behind the first one weigh the same at the next shift. -/
theorem ofVarint_cons_shift (b : UInt8) (bs : List UInt8) (shift : Nat) :
    ofVarint (b :: bs) * 2 ^ shift
      = b.toNat % 128 * 2 ^ shift + ofVarint bs * 2 ^ (shift + 7) := by
  rw [ofVarint, Nat.pow_add]
  ring

theorem ofVarint_append (bs bs' : List UInt8) :
    ofVarint (bs ++ bs') = ofVarint bs + ofVarint bs' * 2 ^ (7 * bs.length) := by
  induction bs with
  | nil => simp [ofVarint]
  | cons b bs ih =>
      rw [List.cons_append, ofVarint, ofVarint, ih, List.length_cons, Nat.mul_succ, Nat.pow_add]
      ring

theorem ofVarint_lt (bs : List UInt8) : ofVarint bs < 2 ^ (7 * bs.length) := by
  induction bs with
  | nil => simp [ofVarint]
  | cons b bs ih =>
      have hdigit : b.toNat % 128 < 128 := Nat.mod_lt _ (by decide)
      rw [ofVarint, List.length_cons, Nat.mul_succ, Nat.pow_add]
      omega

end Varint

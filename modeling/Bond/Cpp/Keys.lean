import Bond.Cpp.Variables
import Mathlib.Data.List.Lex

set_option autoImplicit false

/-! # Keys

The order that a `std::map` has on its keys, and a `std::set` on its elements. Which of them are one
key follows from the order, as long as there is no NaN among them. -/

namespace Bond.Cpp

/-! ## Order -/

/-- A floating point number that is not a number -/
def BasicValue.isNaN : BasicValue → Bool
  | .float bits => 0x7f800000 < bits.toNat % 2 ^ 31
  | .double bits => 0x7ff0000000000000 < bits.toNat % 2 ^ 63
  | _ => false

/-- The bits of a floating point number with its sign: for numbers an integer in the same order. -/
def signedMagnitude (width bits : Nat) : Int :=
  if bits < 2 ^ width then bits else 2 ^ width - bits

/-- `std::less` -/
def BasicValue.less : BasicValue → BasicValue → Bool
  | .bool a, .bool b => !a && b
  | .float a, .float b =>
      !(BasicValue.float a).isNaN && !(BasicValue.float b).isNaN
        && signedMagnitude 31 a.toNat < signedMagnitude 31 b.toNat
  | .double a, .double b =>
      !(BasicValue.double a).isNaN && !(BasicValue.double b).isNaN
        && signedMagnitude 63 a.toNat < signedMagnitude 63 b.toNat
  | .string a, .string b => a.map UInt8.toNat < b.map UInt8.toNat
  | .wstring a, .wstring b => a.map UInt16.toNat < b.map UInt16.toNat
  | v, w =>
      match v.toInt, w.toInt with
      | some i, some j => i < j
      | _, _ => false

/-- Keys that are not ordered are one key. -/
def BasicValue.equivalent (v w : BasicValue) : Bool :=
  !v.less w && !w.less v

/-! ## Equivalence -/

theorem signedMagnitude_eq_iff (width : Nat) {a b : Nat} (ha : a < 2 ^ (width + 1))
    (hb : b < 2 ^ (width + 1)) :
    signedMagnitude width a = signedMagnitude width b ↔
      a = b ∨ (a % 2 ^ width = 0 ∧ b % 2 ^ width = 0) := by
  rw [Nat.pow_succ] at ha hb
  have hmod {c : Nat} (hc : c < 2 ^ width * 2) :
      c % 2 ^ width = if c < 2 ^ width then c else c - 2 ^ width := by
    split_ifs with hlt
    · exact Nat.mod_eq_of_lt hlt
    · rw [Nat.mod_eq_sub_mod (Nat.le_of_not_lt hlt)]
      exact Nat.mod_eq_of_lt (by omega)
  have hpow : ((2 ^ width : Nat) : Int) = 2 ^ width := by norm_cast
  rw [hmod ha, hmod hb]
  unfold signedMagnitude
  rw [← hpow]
  generalize 2 ^ width = p at *
  split_ifs <;> omega

theorem not_less_and_not_less_eq {α : Type} [LinearOrder α] {a b : α} [Decidable (a < b)]
    [Decidable (b < a)] {p : Prop} [Decidable p] (h : a = b ↔ p) :
    (!decide (a < b) && !decide (b < a)) = decide p := by
  rcases lt_trichotomy a b with hlt | heq | hlt
  · simp [hlt, ← h, hlt.ne]
  · simp [← h, heq]
  · simp [hlt, ← h, hlt.ne']

/-- For what is not NaN `sameKey` is what the order makes of it. -/
theorem BasicValue.sameKey_eq_equivalent {v w : BasicValue} (htype : v.type = w.type)
    (hv : v.isNaN = false) (hw : w.isNaN = false) : v.sameKey w = v.equivalent w := by
  have hint {i j : Int} (hi : v.toInt = some i) (hj : w.toInt = some j)
      (hless : v.less w = decide (i < j)) (hless' : w.less v = decide (j < i))
      (hinj : i = j ↔ v = w) : v.equivalent w = decide (v = w) := by
    rw [equivalent, hless, hless', not_less_and_not_less_eq hinj]
  cases v <;> cases w <;> simp only [type, reduceCtorEq] at htype
  case bool.bool a b => cases a <;> cases b <;> rfl
  case float.float a b =>
    have hiff := signedMagnitude_eq_iff 31 a.toNat_lt b.toNat_lt
    rw [sameKey, equivalent, less, less, hv, hw]
    simp only [Bool.not_false, Bool.true_and]
    rw [UInt32.toNat_inj] at hiff
    rw [not_less_and_not_less_eq hiff]
    simp
  case double.double a b =>
    have hiff := signedMagnitude_eq_iff 63 a.toNat_lt b.toNat_lt
    rw [sameKey, equivalent, less, less, hv, hw]
    simp only [Bool.not_false, Bool.true_and]
    rw [UInt64.toNat_inj] at hiff
    rw [not_less_and_not_less_eq hiff]
    simp
  case string.string a b =>
    have hinj : a.map UInt8.toNat = b.map UInt8.toNat ↔ BasicValue.string a = .string b := by
      rw [List.map_inj_right fun _ _ => UInt8.toNat_inj.1, string.injEq]
    rw [equivalent, less, less, not_less_and_not_less_eq hinj]
    rfl
  case wstring.wstring a b =>
    have hinj : a.map UInt16.toNat = b.map UInt16.toNat ↔ BasicValue.wstring a = .wstring b := by
      rw [List.map_inj_right fun _ _ => UInt16.toNat_inj.1, wstring.injEq]
    rw [equivalent, less, less, not_less_and_not_less_eq hinj]
    rfl
  all_goals
    rw [hint rfl rfl rfl rfl (by simp [Int8.toInt_inj, Int16.toInt_inj, Int32.toInt_inj,
      Int64.toInt_inj, UInt8.toNat_inj, UInt16.toNat_inj, UInt32.toNat_inj, UInt64.toNat_inj])]
    rfl

theorem BasicValue.sameKey_equivalence : Equivalence fun v w => BasicValue.sameKey v w = true where
  refl v := by cases v <;> simp [sameKey]
  symm {v w} h := by
    cases v <;> cases w <;> simp only [sameKey, decide_eq_true_eq, reduceCtorEq, Bool.or_eq_true,
      Bool.and_eq_true] at h ⊢ <;> first | exact h.symm | exact h.imp Eq.symm And.symm
  trans {u v w} h h' := by
    cases u <;> cases v <;> simp only [sameKey, decide_eq_true_eq, reduceCtorEq] at h <;>
      cases w <;> simp only [sameKey, decide_eq_true_eq, reduceCtorEq] at h' ⊢ <;>
      first | exact h.trans h' | skip
    all_goals
      rw [Bool.or_eq_true, decide_eq_true_eq, Bool.and_eq_true, decide_eq_true_eq,
        decide_eq_true_eq] at h h' ⊢
      rcases h with rfl | h
      · exact h'
      · rcases h' with rfl | h'
        · exact .inr h
        · exact .inr ⟨h.1, h'.2⟩

end Bond.Cpp

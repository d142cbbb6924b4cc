import Mathlib.Logic.Function.Iterate

set_option autoImplicit false

/-! # Growing to a size

A store of a limited size is replaced by a larger one whenever it is full. -/

namespace Growth

/-- `grow` makes a store larger. -/
def Expands (grow : Nat → Nat) : Prop :=
  ∀ size, size < grow size

/-- Grown from `size` until `n` items fit, no store is larger than `limit`. -/
def Grows (grow : Nat → Nat) (limit size n : Nat) : Prop :=
  ∀ k, grow^[k] size < n → grow (grow^[k] size) ≤ limit

variable {grow : Nat → Nat} {limit size n : Nat}

theorem Expands.le_iterate (h : Expands grow) (size k : Nat) : size ≤ grow^[k] size := by
  induction k generalizing size with
  | zero => exact Nat.le_refl _
  | succ k ih =>
      rw [Function.iterate_succ_apply]
      exact Nat.le_trans (Nat.le_of_lt (h size)) (ih (grow size))

/-- Nothing grows while the items fit. -/
theorem Grows.of_le (h : Expands grow) (hle : n ≤ size) : Grows grow limit size n := by
  intro k hk
  have hsize := h.le_iterate size k
  omega

/-- A full store grows once, and then from its new size. -/
theorem grows_iff (hlt : size < n) :
    Grows grow limit size n ↔ grow size ≤ limit ∧ Grows grow limit (grow size) n := by
  constructor
  · intro h
    refine ⟨h 0 hlt, fun k hk => ?_⟩
    have hnext := h (k + 1)
    rw [Function.iterate_succ_apply] at hnext
    exact hnext hk
  · rintro ⟨hfirst, hrest⟩ k hk
    cases k with
    | zero => exact hfirst
    | succ k =>
        rw [Function.iterate_succ_apply] at hk ⊢
        exact hrest k hk

end Growth

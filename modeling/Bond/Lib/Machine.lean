import Mathlib.Data.Prod.Lex
import Mathlib.Logic.Function.Iterate

set_option autoImplicit false

/-! # Deterministic machines

A machine that takes one step at a time until it is in a halted state. Nothing is assumed to
terminate: whether a run halts is what the rules here are about. -/

namespace Bond.Lib

structure Machine (σ : Type) where
  next : σ → σ
  Halted : σ → Prop

namespace Machine

variable {σ : Type} (m : Machine σ)

/-- The state after `n` steps. -/
def after (n : Nat) (s : σ) : σ :=
  m.next^[n] s

def Halts (s : σ) : Prop :=
  ∃ n, m.Halted (m.after n s)

@[simp] theorem after_zero (s : σ) : m.after 0 s = s := rfl

theorem after_succ (n : Nat) (s : σ) : m.after (n + 1) s = m.after n (m.next s) := rfl

theorem after_succ' (n : Nat) (s : σ) : m.after (n + 1) s = m.next (m.after n s) :=
  Function.iterate_succ_apply' m.next n s

theorem after_add (k n : Nat) (s : σ) : m.after (k + n) s = m.after k (m.after n s) :=
  Function.iterate_add_apply m.next k n s

/-- What every step keeps holds all along a run. -/
theorem after_invariant {I : σ → Prop} (step : ∀ s, I s → I (m.next s)) {s : σ} (h : I s)
    (n : Nat) : I (m.after n s) := by
  induction n with
  | zero => exact h
  | succ n ih =>
      rw [after_succ']
      exact step _ ih

/-- A run halts if every step from a state that has not halted decreases a measure. -/
theorem halts_of_measure {μ : Type} {rel : μ → μ → Prop} (hrel : WellFounded rel)
    (measure : σ → μ) {I : σ → Prop}
    (step : ∀ s, I s → ¬ m.Halted s → I (m.next s) ∧ rel (measure (m.next s)) (measure s))
    {s : σ} (h : I s) : m.Halts s := by
  -- well-founded induction on the measure of the state
  induction hμ : measure s using hrel.induction generalizing s with
  | _ x ih =>
      by_cases hhalted : m.Halted s
      · exact ⟨0, hhalted⟩
      · obtain ⟨hnext, hlt⟩ := step s h hhalted
        obtain ⟨n, hn⟩ := ih _ (hμ ▸ hlt) hnext rfl
        exact ⟨n + 1, hn⟩

/-- A run that comes back to a state it has been in, and has not halted in between, never halts. -/
theorem not_halts_of_cycle {s : σ} {k : Nat} (hpos : 0 < k) (hcycle : m.after k s = s)
    (hrunning : ∀ i < k, ¬ m.Halted (m.after i s)) : ¬ m.Halts s := by
  rintro ⟨n, hn⟩
  have hturns : ∀ t, m.after (t * k) s = s := by
    intro t
    induction t with
    | zero => rw [Nat.zero_mul]; rfl
    | succ t ih => rw [Nat.succ_mul, after_add, hcycle, ih]
  refine hrunning (n % k) (Nat.mod_lt _ hpos) ?_
  rwa [← Nat.mod_add_div n k, Nat.mul_comm k, after_add, hturns] at hn

end Machine

end Bond.Lib

import Mathlib.Data.Option.Basic
import Mathlib.Data.List.Basic

set_option autoImplicit false

/-! # Transition systems

A system is given by what an action does in a state, where the action is possible. An interleaving of
several parties is a run, a list of actions. `Along P` holds for a run if `P` holds in each of its
states, `Meets C` if each of its steps satisfies `C` in the state it is taken from. -/

namespace Bond.Lib

/-- What an action does in a state; `none` where it is not possible. -/
structure System (σ α : Type) where
  step : σ → α → Option σ

namespace System

variable {σ α : Type} (S : System σ α)

/-- The state after a run. -/
def run (s : σ) (as : List α) : Option σ :=
  as.foldlM S.step s

@[simp] theorem run_nil (s : σ) : S.run s [] = some s := rfl

@[simp] theorem run_cons (s : σ) (a : α) (as : List α) :
    S.run s (a :: as) = (S.step s a).bind fun t => S.run t as := rfl

/-- `P` holds in each state of a run, the first one included. The run ends at an action that is not
    possible. -/
def Along (P : σ → Prop) : σ → List α → Prop
  | s, [] => P s
  | s, a :: as => P s ∧ ∀ t, S.step s a = some t → Along P t as

/-- Each step of a run satisfies `C` in the state it is taken from. -/
def Meets (C : σ → α → Prop) : σ → List α → Prop
  | _, [] => True
  | s, a :: as => ∀ t, S.step s a = some t → C s a ∧ Meets C t as

instance decidableMeets {C : σ → α → Prop} [∀ s a, Decidable (C s a)] :
    ∀ (s : σ) (as : List α), Decidable (S.Meets C s as)
  | _, [] => isTrue trivial
  | s, a :: as =>
      match h : S.step s a with
      | none => isTrue fun t ht => by rw [h] at ht; cases ht
      | some t =>
          have := decidableMeets (C := C) t as
          decidable_of_iff (C s a ∧ S.Meets C t as)
            ⟨fun hmeets u hu => Option.some.inj (h.symm.trans hu) ▸ hmeets, fun hmeets => hmeets t h⟩

variable {S} {P Q I : σ → Prop} {C : σ → α → Prop} {s t : σ} {as : List α}

theorem Along.first (h : S.Along P s as) : P s := by
  cases as with
  | nil => exact h
  | cons a as => exact h.1

/-- What holds along a run holds where it ends. -/
theorem Along.last (h : S.Along P s as) (hrun : S.run s as = some t) : P t := by
  induction as generalizing s with
  | nil =>
      rw [run_nil, Option.some.injEq] at hrun
      exact hrun ▸ h
  | cons a as ih =>
      rw [run_cons] at hrun
      obtain ⟨u, hstep, hrest⟩ := Option.bind_eq_some_iff.1 hrun
      exact ih (h.2 u hstep) hrest

theorem Along.mono (h : S.Along P s as) (hPQ : ∀ s, P s → Q s) : S.Along Q s as := by
  induction as generalizing s with
  | nil => exact hPQ s h
  | cons a as ih => exact ⟨hPQ s h.1, fun t ht => ih (h.2 t ht)⟩

/-- What every step keeps holds along every run. -/
theorem along_of_step (step : ∀ s a t, I s → S.step s a = some t → I t) (h : I s) (as : List α) :
    S.Along I s as := by
  induction as generalizing s with
  | nil => exact h
  | cons a as ih => exact ⟨h, fun t ht => ih (step s a t h ht)⟩

/-- What every step that satisfies `C` keeps holds along every run of such steps. -/
theorem along_of_meets (step : ∀ s a t, I s → C s a → S.step s a = some t → I t) (h : I s)
    (hmeets : S.Meets C s as) : S.Along I s as := by
  induction as generalizing s with
  | nil => exact h
  | cons a as ih =>
      refine ⟨h, fun t ht => ?_⟩
      obtain ⟨hC, hrest⟩ := hmeets t ht
      exact ih (step s a t h hC ht) hrest

/-- If, from a state where the invariant `I` and the property `P` hold, a step keeps `P` exactly if it
    satisfies `C`, then `P` holds along exactly those runs of which all steps satisfy `C`. -/
theorem along_iff_meets (hinv : ∀ s a t, I s → S.step s a = some t → I t)
    (hstep : ∀ s a t, I s → P s → S.step s a = some t → (P t ↔ C s a)) (hI : I s) (hP : P s)
    (as : List α) : S.Along P s as ↔ S.Meets C s as := by
  induction as generalizing s with
  | nil => exact ⟨fun _ => trivial, fun _ => hP⟩
  | cons a as ih =>
      constructor
      · intro h t ht
        have hrest := h.2 t ht
        have hPt := hrest.first
        exact ⟨(hstep s a t hI hP ht).1 hPt, (ih (hinv s a t hI ht) hPt).1 hrest⟩
      · intro h
        refine ⟨hP, fun t ht => ?_⟩
        obtain ⟨hC, hrest⟩ := h t ht
        exact (ih (hinv s a t hI ht) ((hstep s a t hI hP ht).2 hC)).2 hrest

end System

end Bond.Lib

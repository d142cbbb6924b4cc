import Mathlib.Data.List.Basic

set_option autoImplicit false

/-! # Plans of programs that may stop

A program of `Except` may stop because it refuses its input or because of a fault of its own. A plan
is the list of the steps that a program takes, each with a ruling of its own: the first step that
does not pass decides how the program ends. `Follows` says that a program ends as a plan says, and
its rules take both apart along the structure of the program. -/

namespace Bond.Lib.Plan

/-! ## Rulings -/

inductive Ruling where
  | passes | refuses | faults
deriving DecidableEq, Repr

/-- The ruling on one thing after another. -/
def Ruling.andThen : Ruling → Ruling → Ruling
  | .passes, ruling => ruling
  | ruling, _ => ruling

@[simp] theorem Ruling.passes_andThen (v : Ruling) : Ruling.passes.andThen v = v := rfl

theorem Ruling.andThen_assoc (u v w : Ruling) :
    (u.andThen v).andThen w = u.andThen (v.andThen w) := by
  cases u <;> rfl

theorem Ruling.andThen_eq_faults_iff {v w : Ruling} :
    v.andThen w = .faults ↔ v = .faults ∨ v = .passes ∧ w = .faults := by
  cases v <;> simp [andThen]

theorem Ruling.andThen_passes (v : Ruling) : v.andThen .passes = v := by
  cases v <;> rfl

/-! ## Plans -/

section

variable {σ : Type} (judge : σ → Ruling)

def planRuling : List σ → Ruling
  | [] => .passes
  | step :: steps => (judge step).andThen (planRuling steps)

theorem planRuling_append (steps rest : List σ) :
    planRuling judge (steps ++ rest)
      = (planRuling judge steps).andThen (planRuling judge rest) := by
  induction steps with
  | nil => rfl
  | cons step steps ih =>
      show (judge step).andThen (planRuling judge (steps ++ rest)) = _
      rw [ih, ← Ruling.andThen_assoc]
      rfl

/-- A plan ends in a fault if a step does that comes after steps that pass. -/
theorem planRuling_eq_faults_iff {steps : List σ} :
    planRuling judge steps = .faults ↔
      ∃ before step after, steps = before ++ step :: after ∧
        (∀ s ∈ before, judge s = .passes) ∧ judge step = .faults := by
  induction steps with
  | nil => simp [planRuling]
  | cons step steps ih =>
      rw [planRuling, Ruling.andThen_eq_faults_iff, ih]
      constructor
      · rintro (hstep | ⟨hstep, before, later, after, rfl, hbefore, hlater⟩)
        · exact ⟨[], step, steps, rfl, by simp, hstep⟩
        · exact ⟨step :: before, later, after, rfl, by simpa [hstep] using hbefore, hlater⟩
      · rintro ⟨before, later, after, heq, hbefore, hlater⟩
        rcases before with - | ⟨first, before⟩
        · obtain ⟨rfl, -⟩ := List.cons.inj heq
          exact .inl hlater
        · obtain ⟨rfl, rfl⟩ := List.cons.inj heq
          obtain ⟨hfirst, hbefore⟩ := List.forall_mem_cons.1 hbefore
          exact .inr ⟨hfirst, before, later, after, rfl, hbefore, hlater⟩

end

/-! ## Programs -/

section

variable {σ ε α β : Type} (judge : σ → Ruling) (isFault : ε → Bool)

/-- How a program ended. -/
def outcome : Except ε α → Ruling
  | .ok _ => .passes
  | .error e => if isFault e then .faults else .refuses

theorem outcome_eq_faults_iff {program : Except ε α} :
    outcome isFault program = .faults ↔ ∃ e, program = .error e ∧ isFault e = true := by
  cases program with
  | ok a => simp [outcome]
  | error e => by_cases he : isFault e = true <;> simp [outcome, he]

theorem outcome_map (program : Except ε α) (f : α → β) :
    outcome isFault (program >>= fun a => .ok (f a)) = outcome isFault program := by
  cases program <;> rfl

/-- The program ends as the plan says. -/
def Follows (program : Except ε α) (steps : List σ) : Prop :=
  outcome isFault program = planRuling judge steps

namespace Follows

variable {judge isFault}

theorem pure (a : α) : Follows judge isFault (.ok a) [] := rfl

theorem step {program : Except ε α} {s : σ} (h : outcome isFault program = judge s) :
    Follows judge isFault program [s] :=
  h.trans (Ruling.andThen_passes _).symm

/-- One program after another. What comes second may use the result of the first. -/
theorem bind {program : Except ε α} {next : α → Except ε β} {steps rest : List σ}
    (h : Follows judge isFault program steps)
    (hnext : ∀ a, program = .ok a → Follows judge isFault (next a) rest) :
    Follows judge isFault (program >>= next) (steps ++ rest) := by
  unfold Follows at h ⊢
  rw [planRuling_append, ← h]
  cases program with
  | ok a => exact hnext a rfl
  | error e =>
      show outcome isFault (.error e : Except ε β) = Ruling.andThen (if isFault e then _ else _) _
      by_cases he : isFault e = true <;> simp [outcome, he, Ruling.andThen]

theorem map {program : Except ε α} {f : α → β} {steps : List σ}
    (h : Follows judge isFault program steps) :
    Follows judge isFault (program >>= fun a => .ok (f a)) steps :=
  (outcome_map isFault program f).trans h

/-- After a step that does not pass nothing else matters. -/
theorem stop {program : Except ε α} {s : σ} {steps : List σ}
    (h : outcome isFault program = judge s) (hs : judge s ≠ .passes) :
    Follows judge isFault program (s :: steps) := by
  unfold Follows planRuling
  rw [h]
  cases hjudge : judge s with
  | passes => exact absurd hjudge hs
  | refuses | faults => rfl

end Follows

end

end Bond.Lib.Plan

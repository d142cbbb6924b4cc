import Mathlib.Data.List.Basic

set_option autoImplicit false

/-! # Runs that an exception may cut short

A machine makes calls one after another. An exception may come before a call, or in the midst of one
when it has done a part of its work; a call may also fail by itself. What the machine has done until
then stays. -/

namespace Bond.Lib.Interrupted

/-- Where an exception comes: after so many calls, and before the next call or, `within` it, after
    so many bytes of it. -/
structure Interruption where
  calls : Nat
  within : Option Nat
deriving DecidableEq, Repr

/-- A machine on its way: its state, the exception that is still to come, and whether there has been
    one. -/
structure Run (σ : Type) where
  state : σ
  interruption : Option Interruption
  thrown : Bool
deriving DecidableEq, Repr

variable {σ κ : Type} (step : σ → κ → Option σ) (torn : σ → κ → Nat → σ)

/-- What a call leaves behind when it is cut short. -/
def cut (within : Option Nat) (state : σ) (c : κ) : σ :=
  match within with
  | none => state
  | some bytes => torn state c bytes

/-- A call that comes to its end, or fails by itself. -/
def Run.advance (r : Run σ) (interruption : Option Interruption) (c : κ) : Run σ :=
  match step r.state c with
  | none => { r with thrown := true }
  | some state => { r with state := state, interruption := interruption }

/-- A call on a machine. After an exception nothing more is done. -/
def Run.call (r : Run σ) (c : κ) : Run σ :=
  if r.thrown then r
  else
    match r.interruption with
    | none => r.advance step none c
    | some ⟨k + 1, within⟩ => r.advance step (some ⟨k, within⟩) c
    | some ⟨0, within⟩ => { r with state := cut torn within r.state c, thrown := true }

def Run.calls (r : Run σ) (calls : List κ) : Run σ :=
  calls.foldl (Run.call step torn) r

variable {step torn}

theorem Run.calls_cons (r : Run σ) (c : κ) (calls : List κ) :
    r.calls step torn (c :: calls) = (r.call step torn c).calls step torn calls := rfl

theorem Run.calls_append (r : Run σ) (calls rest : List κ) :
    r.calls step torn (calls ++ rest) = (r.calls step torn calls).calls step torn rest :=
  List.foldl_append

theorem Run.call_of_thrown {r : Run σ} (h : r.thrown = true) (c : κ) : r.call step torn c = r :=
  if_pos h

theorem Run.calls_of_thrown {r : Run σ} (h : r.thrown = true) (calls : List κ) :
    r.calls step torn calls = r := by
  induction calls with
  | nil => rfl
  | cons c calls ih => rw [Run.calls_cons, Run.call_of_thrown h, ih]

/-- A call that succeeds leaves less of the way to the exception. -/
theorem Run.call_of_step {s s' : σ} {c : κ} (h : step s c = some s') (k : Nat)
    (within : Option Nat) :
    Run.call step torn ⟨s, some ⟨k + 1, within⟩, false⟩ c = ⟨s', some ⟨k, within⟩, false⟩ := by
  simp [Run.call, Run.advance, h]

/-- Without an exception the calls take the machine where its steps do. -/
theorem Run.calls_of_steps {s s' : σ} {calls : List κ} (h : calls.foldlM step s = some s') :
    Run.calls step torn ⟨s, none, false⟩ calls = ⟨s', none, false⟩ := by
  induction calls generalizing s with
  | nil =>
      obtain rfl := Option.some.inj h
      rfl
  | cons c calls ih =>
      rw [List.foldlM_cons] at h
      obtain ⟨mid, hmid, hrest⟩ := Option.bind_eq_some_iff.1 h
      rw [Run.calls_cons, ← ih hrest]
      simp [Run.call, Run.advance, hmid]

/-- An exception that comes later does not matter to the calls before it. -/
theorem Run.calls_of_le {s s' : σ} {calls : List κ} (h : calls.foldlM step s = some s') {k : Nat}
    (hk : calls.length ≤ k) (within : Option Nat) :
    Run.calls step torn ⟨s, some ⟨k, within⟩, false⟩ calls
      = ⟨s', some ⟨k - calls.length, within⟩, false⟩ := by
  induction calls generalizing s k with
  | nil =>
      obtain rfl := Option.some.inj h
      rfl
  | cons c calls ih =>
      rw [List.foldlM_cons] at h
      obtain ⟨mid, hmid, hrest⟩ := Option.bind_eq_some_iff.1 h
      obtain ⟨k, rfl⟩ : ∃ k', k = k' + 1 := ⟨k - 1, by simp at hk; omega⟩
      rw [Run.calls_cons, Run.call_of_step hmid, ih hrest (by simpa using hk), List.length_cons,
        Nat.add_sub_add_right]

variable (torn) in
/-- At the exception the calls before it have been made. -/
theorem Run.calls_of_lt {s mid : σ} {calls : List κ} {k : Nat} (hk : k < calls.length)
    (h : (calls.take k).foldlM step s = some mid) (within : Option Nat) :
    Run.calls step torn ⟨s, some ⟨k, within⟩, false⟩ calls
      = ⟨cut torn within mid calls[k], some ⟨0, within⟩, true⟩ := by
  have hlength : (calls.take k).length = k := List.length_take_of_le (Nat.le_of_lt hk)
  have hsplit : calls.take k ++ calls[k] :: calls.drop (k + 1) = calls := by simp
  calc Run.calls step torn ⟨s, some ⟨k, within⟩, false⟩ calls
      = Run.calls step torn ⟨s, some ⟨k, within⟩, false⟩
          (calls.take k ++ calls[k] :: calls.drop (k + 1)) := by rw [hsplit]
    _ = Run.calls step torn ⟨mid, some ⟨0, within⟩, false⟩ (calls[k] :: calls.drop (k + 1)) := by
        rw [Run.calls_append, Run.calls_of_le h (Nat.le_of_eq hlength), hlength, Nat.sub_self]
    _ = ⟨cut torn within mid calls[k], some ⟨0, within⟩, true⟩ := by
        rw [Run.calls_cons]
        exact Run.calls_of_thrown rfl _

/-- What is left of the state, as far as `f` sees it, when a call that is cut short does what the
    whole call does to `f`. -/
theorem Run.calls_of_lt_torn {α : Type} (f : σ → α) {g : Nat → α}
    (htorn : ∀ s c s' bytes, step s c = some s' → f (torn s c bytes) = f s') {s : σ}
    {calls : List κ}
    (htake : ∀ m, ∃ s', (calls.take m).foldlM step s = some s' ∧ f s' = g m) {k : Nat}
    (hk : k < calls.length) (within : Option Nat) :
    f (Run.calls step torn ⟨s, some ⟨k, within⟩, false⟩ calls).state
      = g (k + if within.isSome then 1 else 0) := by
  obtain ⟨mid, hmid, hg⟩ := htake k
  rw [Run.calls_of_lt torn hk hmid]
  cases within with
  | none => exact hg
  | some bytes =>
      obtain ⟨next, hnext, hg'⟩ := htake (k + 1)
      rw [List.take_succ_eq_append_getElem hk, List.foldlM_append, hmid, Option.bind_eq_bind,
        Option.bind_some, List.foldlM_cons] at hnext
      obtain ⟨s', hs', hlast⟩ := Option.bind_eq_some_iff.1 hnext
      obtain rfl := Option.some.inj hlast
      exact (htorn _ _ _ bytes hs').trans hg'

variable (torn) in
/-- Calls that can be made leave a machine in the state of their steps, unless an exception
    comes. -/
theorem Run.calls_thrown_or {r : Run σ} {s' : σ} {calls : List κ}
    (h : calls.foldlM step r.state = some s') :
    (r.calls step torn calls).thrown = true ∨ (r.calls step torn calls).state = s' := by
  obtain ⟨s, interruption, thrown⟩ := r
  cases thrown with
  | true => exact Or.inl (by rw [Run.calls_of_thrown rfl])
  | false =>
      rcases interruption with _ | ⟨k, within⟩
      · exact Or.inr (by rw [Run.calls_of_steps h])
      · by_cases hk : calls.length ≤ k
        · exact Or.inr (by rw [Run.calls_of_le h hk])
        · -- the exception comes among the calls
          rw [Nat.not_le] at hk
          rw [← List.take_append_drop k calls, List.foldlM_append] at h
          obtain ⟨mid, hmid, -⟩ := Option.bind_eq_some_iff.1 h
          exact Or.inl (by rw [Run.calls_of_lt torn hk hmid])

variable (step) in
/-- Only an exception stands in the way of the calls. -/
def Run.Able (r : Run σ) (calls : List κ) : Prop :=
  r.thrown = true ∨ ∃ s', calls.foldlM step r.state = some s'

theorem Run.Able.left {r : Run σ} {calls rest : List κ} (h : r.Able step (calls ++ rest)) :
    r.Able step calls := by
  rcases h with h | ⟨s', h⟩
  · exact Or.inl h
  · rw [List.foldlM_append] at h
    obtain ⟨mid, hmid, _⟩ := Option.bind_eq_some_iff.1 h
    exact Or.inr ⟨mid, hmid⟩

theorem Run.Able.right {r : Run σ} {calls rest : List κ} (h : r.Able step (calls ++ rest)) :
    (r.calls step torn calls).Able step rest := by
  rcases h with h | ⟨s', h⟩
  · exact Or.inl (by rw [Run.calls_of_thrown h, h])
  · rw [List.foldlM_append] at h
    obtain ⟨mid, hmid, hrest⟩ := Option.bind_eq_some_iff.1 h
    rcases Run.calls_thrown_or torn hmid with hthrown | hstate
    · exact Or.inl hthrown
    · exact Or.inr ⟨s', by rwa [hstate]⟩

end Bond.Lib.Interrupted

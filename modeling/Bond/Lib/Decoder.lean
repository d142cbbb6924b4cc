import Mathlib.Data.List.Basic
import Mathlib.Control.Lawful

set_option autoImplicit false

/-! # Decoders over a cursor

A decoder reads symbols of type `α` from a cursor and has an effect in a monad `m`. `Decodes op enc r`
says what a decoder does on one encoding: wherever the cursor stands before `enc`, whatever follows
it, `op` has the effect `r` and leaves the cursor right behind `enc`. The lemmas follow the
structure of the program that reads (`pure`, `bind`, iteration), so the reader of a compound format
is verified by composing the lemmas of its parts. -/

namespace Decoder

/-- A position in a finite sequence of symbols: what is still to be read, and how to step over
    some of it. -/
class Cursor (S : Type) (α : outParam Type) where
  remaining : S → List α
  advance : S → Nat → S
  advance_zero (s : S) : advance s 0 = s
  advance_advance (s : S) (k l : Nat) : advance (advance s k) l = advance s (k + l)
  remaining_advance (s : S) (k : Nat) : remaining (advance s k) = (remaining s).drop k

export Cursor (remaining advance)

attribute [simp] Cursor.advance_zero

variable {S α : Type} [Cursor S α] {m : Type → Type} [Monad m] {β γ : Type}

theorem remaining_advance_append {s : S} {enc rest : List α} (h : remaining s = enc ++ rest) :
    remaining (advance s enc.length) = rest := by
  rw [Cursor.remaining_advance, h, List.drop_left]

/-- On the encoding `enc` the decoder `op` has the effect `r` and consumes exactly `enc`. -/
def Decodes (op : StateT S m β) (enc : List α) (r : m β) : Prop :=
  ∀ (s : S) (rest : List α), remaining s = enc ++ rest →
    op.run s = r >>= fun b => pure (b, advance s enc.length)

/-! ## Sequencing -/

section

variable [LawfulMonad m] {op : StateT S m β} {f : β → StateT S m γ} {enc enc' : List α}

theorem Decodes.pure (b : β) : Decodes (pure b : StateT S m β) ([] : List α) (pure b) := by
  intro s rest _
  simp

/-- An effect of the underlying monad consumes nothing. -/
theorem Decodes.lift (r : m β) : Decodes (StateT.lift r : StateT S m β) ([] : List α) r := by
  intro s rest _
  simp

theorem Decodes.bind {r : m β} {r' : β → m γ} (h : Decodes op enc r)
    (hf : ∀ b, Decodes (f b) enc' (r' b)) : Decodes (op >>= f) (enc ++ enc') (r >>= r') := by
  intro s rest hs
  rw [List.append_assoc] at hs
  rw [StateT.run_bind, h s _ hs]
  simp only [bind_assoc, pure_bind]
  congr 1
  funext b
  rw [hf b _ _ (remaining_advance_append hs), Cursor.advance_advance, List.length_append]

/-- Sequencing behind a decoder that returns a known value. -/
theorem Decodes.bind_pure {b : β} {r' : m γ} (h : Decodes op enc (Pure.pure b))
    (hf : Decodes (f b) enc' r') : Decodes (op >>= f) (enc ++ enc') r' := by
  intro s rest hs
  rw [List.append_assoc] at hs
  rw [StateT.run_bind, h s _ hs]
  simp only [pure_bind]
  rw [hf _ _ (remaining_advance_append hs), Cursor.advance_advance, List.length_append]

/-- Sequencing in front of a plain result. -/
theorem Decodes.bind_return {b : β} (h : Decodes op enc (Pure.pure b)) (g : β → γ) :
    Decodes (op >>= fun b => Pure.pure (g b)) enc (Pure.pure (g b)) := by
  rw [← List.append_nil enc]
  exact h.bind_pure (Decodes.pure (g b))

theorem Decodes.map {r : m β} (h : Decodes op enc r) (g : β → γ) :
    Decodes (g <$> op) enc (g <$> r) := by
  intro s rest hs
  rw [StateT.run_map, h s _ hs]
  simp only [map_eq_pure_bind, bind_assoc, pure_bind]

end

/-! ## Iteration -/

/-- Run a decoder `k` times and collect the results. -/
def repeatN : Nat → StateT S m β → StateT S m (List β)
  | 0, _ => pure []
  | k + 1, op => do
      let b ← op
      let bs ← repeatN k op
      return b :: bs

/-- Repeating a decoder once for each item of a list reads the concatenated encodings. -/
theorem Decodes.repeatN [LawfulMonad m] {ι : Type} {op : StateT S m β} {enc : ι → List α}
    {r : ι → m β} (xs : List ι) (h : ∀ x ∈ xs, Decodes op (enc x) (r x)) :
    Decodes (repeatN xs.length op) (xs.flatMap enc) (xs.mapM r) := by
  induction xs with
  | nil =>
      simp only [List.length_nil, List.flatMap_nil, List.mapM_nil]
      exact Decodes.pure _
  | cons x xs ih =>
      have hx : Decodes op (enc x) (r x) := h x List.mem_cons_self
      have hxs := ih fun y hy => h y (List.mem_cons_of_mem x hy)
      rw [List.mapM_cons, List.flatMap_cons]
      refine hx.bind fun b => ?_
      have hcons : Decodes (Decoder.repeatN xs.length op >>= fun bs => Pure.pure (b :: bs))
          (xs.flatMap enc ++ []) (xs.mapM r >>= fun bs => Pure.pure (b :: bs)) :=
        hxs.bind fun bs => Decodes.pure (b :: bs)
      rwa [List.append_nil] at hcons

theorem Decodes.repeatN_pure [LawfulMonad m] {ι : Type} {op : StateT S m β} {enc : ι → List α}
    {g : ι → β} (xs : List ι) (h : ∀ x ∈ xs, Decodes op (enc x) (Pure.pure (g x))) :
    Decodes (Decoder.repeatN xs.length op) (xs.flatMap enc) (Pure.pure (xs.map g)) := by
  have hrepeat := Decodes.repeatN xs h
  rwa [List.mapM_pure] at hrepeat

/-- Repeating a decoder for its effect on the cursor alone. -/
theorem Decodes.repeatN_discard [LawfulMonad m] {ι : Type} {op : StateT S m Unit}
    {enc : ι → List α} (xs : List ι) (h : ∀ x ∈ xs, Decodes op (enc x) (Pure.pure ())) :
    Decodes (Decoder.repeatN xs.length op >>= fun _ => Pure.pure ()) (xs.flatMap enc)
      (Pure.pure ()) :=
  (Decodes.repeatN_pure xs h).bind_return fun _ => ()

/-- Repeating a decoder that gets back each item of a list gets back the list. -/
theorem Decodes.repeatN_self [LawfulMonad m] {op : StateT S m β} {enc : β → List α}
    (xs : List β) (h : ∀ x ∈ xs, Decodes op (enc x) (Pure.pure x)) :
    Decodes (Decoder.repeatN xs.length op) (xs.flatMap enc) (Pure.pure xs) := by
  have hrepeat := Decodes.repeatN_pure xs (g := id) h
  rwa [List.map_id] at hrepeat

/-- Repeating a decoder that gets back what a partial function has for each item of a list. -/
theorem Decodes.repeatN_mapM [LawfulMonad m] {ι : Type} {op : StateT S m β} {enc : ι → List α}
    {f : ι → Option β} (xs : List ι) {bs : List β} (hf : xs.mapM f = some bs)
    (h : ∀ x ∈ xs, ∀ b, f x = some b → Decodes op (enc x) (Pure.pure b)) :
    Decodes (Decoder.repeatN xs.length op) (xs.flatMap enc) (Pure.pure bs) := by
  induction xs generalizing bs with
  | nil =>
      obtain rfl : [] = bs := by simpa using hf
      exact Decodes.pure _
  | cons x xs ih =>
      rw [List.mapM_cons] at hf
      obtain ⟨b, hb, hf⟩ := Option.bind_eq_some_iff.1 hf
      obtain ⟨bs', hbs, hf⟩ := Option.bind_eq_some_iff.1 hf
      obtain rfl : b :: bs' = bs := by simpa using hf
      have hrest := ih hbs fun y hy => h y (List.mem_cons_of_mem x hy)
      rw [List.flatMap_cons]
      exact (h x List.mem_cons_self b hb).bind_pure (hrest.bind_return fun bs => b :: bs)

/-- Running a decoder for each item of a list, one after the other. -/
theorem Decodes.mapM_pure [LawfulMonad m] {ι : Type} {op : ι → StateT S m β} {enc : ι → List α}
    {g : ι → β} (xs : List ι) (h : ∀ x ∈ xs, Decodes (op x) (enc x) (Pure.pure (g x))) :
    Decodes (xs.mapM op) (xs.flatMap enc) (Pure.pure (xs.map g)) := by
  induction xs with
  | nil =>
      rw [List.mapM_nil]
      exact Decodes.pure _
  | cons x xs ih =>
      have hx : Decodes (op x) (enc x) (Pure.pure (g x)) := h x List.mem_cons_self
      have hxs := ih fun y hy => h y (List.mem_cons_of_mem x hy)
      rw [List.mapM_cons, List.flatMap_cons]
      exact hx.bind_pure (hxs.bind_return fun bs => g x :: bs)

/-! ## Programs that may fail -/

/-- A sequence of two programs succeeds only if both of them do. -/
theorem run_bind_ok {σ ε : Type} {op : StateT σ (Except ε) β} {f : β → StateT σ (Except ε) γ}
    {s : σ} {r : γ × σ} (h : (op >>= f).run s = .ok r) :
    ∃ b s', op.run s = .ok (b, s') ∧ (f b).run s' = .ok r := by
  rw [StateT.run_bind] at h
  cases hop : op.run s with
  | error e =>
      rw [hop] at h
      cases h
  | ok q =>
      rw [hop] at h
      exact ⟨q.1, q.2, rfl, h⟩

/-! ## Lists as cursors -/

/-- A list is the position of its first symbol. -/
instance : Cursor (List α) α where
  remaining s := s
  advance s k := s.drop k
  advance_zero _ := rfl
  advance_advance s k l := by rw [List.drop_drop]
  remaining_advance _ _ := rfl

theorem Decodes.list_run {op : StateT (List α) m β} {enc : List α} {b : β} [LawfulMonad m]
    (h : Decodes op enc (Pure.pure b)) (rest : List α) :
    op.run (enc ++ rest) = Pure.pure (b, rest) := by
  rw [h (enc ++ rest) rest rfl, pure_bind]
  show Pure.pure (b, (enc ++ rest).drop enc.length) = _
  rw [List.drop_left]

/-- A list can be extended to the left, so what follows a decoder decodes on its own. -/
theorem Decodes.list_bind_iff [LawfulMonad m] {op : StateT (List α) m β}
    {f : β → StateT (List α) m γ} {enc enc' : List α} {b : β} {r : m γ}
    (h : Decodes op enc (Pure.pure b)) :
    Decodes (op >>= f) (enc ++ enc') r ↔ Decodes (f b) enc' r := by
  constructor
  · intro hbind s rest hs
    have hs' : s = enc' ++ rest := hs
    have hrun := hbind (enc ++ s) rest (by rw [hs', List.append_assoc]; rfl)
    rw [StateT.run_bind, h.list_run, pure_bind] at hrun
    rw [hrun]
    congr 1
    funext c
    show Pure.pure (c, (enc ++ s).drop (enc ++ enc').length) = Pure.pure (c, s.drop enc'.length)
    rw [List.length_append, List.drop_append, List.drop_of_length_le (by omega),
      List.nil_append, Nat.add_sub_cancel_left]
  · intro hf
    exact h.bind_pure hf

/-! ## Programs with a state of their own -/

section

variable [LawfulMonad m] {τ : Type} {t t' t'' : τ} {enc enc' : List α} {b : β} {c : γ}

/-- From the state `t` the program `op` returns `b`, leaves the state `t'`, and consumes exactly the
    encoding `enc`. -/
def RunsTo (op : StateT τ (StateT S m) β) (t : τ) (enc : List α) (b : β) (t' : τ) : Prop :=
  Decodes (op.run t) enc (pure (b, t'))

theorem RunsTo.pure (b : β) (t : τ) :
    RunsTo (pure b : StateT τ (StateT S m) β) t ([] : List α) b t := by
  rw [RunsTo, StateT.run_pure]
  exact Decodes.pure _

theorem RunsTo.lift {op : StateT S m β} (h : Decodes op enc (Pure.pure b)) (t : τ) :
    RunsTo (StateT.lift op : StateT τ (StateT S m) β) t enc b t := by
  rw [RunsTo, StateT.run_lift]
  exact h.bind_return fun b => (b, t)

theorem RunsTo.modify (g : τ → τ) (t : τ) :
    RunsTo (modify g : StateT τ (StateT S m) PUnit) t ([] : List α) ⟨⟩ (g t) := by
  rw [RunsTo, StateT.run_modify]
  exact Decodes.pure _

theorem RunsTo.bind {op : StateT τ (StateT S m) β} {f : β → StateT τ (StateT S m) γ}
    (h : RunsTo op t enc b t') (hf : RunsTo (f b) t' enc' c t'') :
    RunsTo (op >>= f) t (enc ++ enc') c t'' := by
  rw [RunsTo, StateT.run_bind]
  exact Decodes.bind_pure h hf

/-- Sequencing in front of a program that consumes nothing. -/
theorem RunsTo.bind_nil {op : StateT τ (StateT S m) β} {f : β → StateT τ (StateT S m) γ}
    (h : RunsTo op t enc b t') (hf : RunsTo (f b) t' [] c t'') :
    RunsTo (op >>= f) t enc c t'' := by
  rw [← List.append_nil enc]
  exact h.bind hf

/-- Sequencing behind a program that consumes nothing. -/
theorem RunsTo.nil_bind {op : StateT τ (StateT S m) β} {f : β → StateT τ (StateT S m) γ}
    (h : RunsTo op t [] b t') (hf : RunsTo (f b) t' enc c t'') :
    RunsTo (op >>= f) t enc c t'' :=
  h.bind hf

end

end Decoder

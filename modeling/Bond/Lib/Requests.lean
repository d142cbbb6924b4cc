import Mathlib.Data.List.Basic
import Mathlib.Control.Lawful
import Bond.Lib.Decoder

set_option autoImplicit false

/-! # Requests to an input stream

A program that reads from a stream asks for a symbol, for a number of symbols at once, or for a
number of symbols to be passed over, and goes on with what it gets. The same program runs on a list,
which grants a request if it has enough symbols left, and on a stream that delivers its symbols in
portions of its own choice. A program that takes a short portion for the end of the stream runs
alike on both if and only if it is delivered in one portion whatever it asks for. -/

namespace Decoder

/-- A program over the symbols `α` that throws `ε` and returns `β`. -/
inductive Requests (α ε β : Type) where
  | pure (b : β)
  | throw (e : ε)
  | next (f : α → Requests α ε β)
  | take (n : Nat) (f : List α → Requests α ε β)
  | skip (n : Nat) (p : Requests α ε β)

namespace Requests

variable {α ε β γ : Type}

/-! ## Sequencing -/

protected def bind : Requests α ε β → (β → Requests α ε γ) → Requests α ε γ
  | pure b, g => g b
  | throw e, _ => throw e
  | next f, g => next fun a => (f a).bind g
  | take n f, g => take n fun as => (f as).bind g
  | skip n p, g => skip n (p.bind g)

instance : Monad (Requests α ε) where
  pure := pure
  bind := Requests.bind

/-- Run a program `k` times and collect the results. -/
def repeatN : Nat → Requests α ε β → Requests α ε (List β)
  | 0, _ => pure []
  | k + 1, p => do
      let b ← p
      let bs ← repeatN k p
      return b :: bs

/-! ## On a list -/

section

variable (eof : ε)

/-- The outcome of a program on a list of symbols, with the symbols that are left behind the last
    request that was granted. -/
def onList : Requests α ε β → List α → Except ε β × List α
  | pure b, s => (.ok b, s)
  | throw e, s => (.error e, s)
  | next _, [] => (.error eof, [])
  | next f, a :: s => (f a).onList s
  | take n f, s => if s.length < n then (.error eof, s) else (f (s.take n)).onList (s.drop n)
  | skip n p, s => if s.length < n then (.error eof, s) else p.onList (s.drop n)

/-- The program as one that passes on what is left. -/
def reader (p : Requests α ε β) : StateT (List α) (Except ε) β := fun s =>
  match p.onList eof s with
  | (.ok b, rest) => .ok (b, rest)
  | (.error e, _) => .error e

@[simp]
theorem reader_pure (b : β) :
    (Pure.pure b : Requests α ε β).reader eof = Pure.pure b := by
  funext s
  rfl

theorem onList_bind (p : Requests α ε β) (g : β → Requests α ε γ) (s : List α) :
    (p >>= g).onList eof s = match p.onList eof s with
      | (.ok b, rest) => (g b).onList eof rest
      | (.error e, rest) => (.error e, rest) := by
  induction p generalizing s with
  | pure b => rfl
  | throw e => rfl
  | next f ih =>
      cases s with
      | nil => rfl
      | cons a s => exact ih a s
  | take n f ih =>
      show (take n fun as => (f as).bind g).onList eof s = _
      rw [onList, onList]
      split
      · rfl
      · exact ih (s.take n) (s.drop n)
  | skip n p ih =>
      show (skip n (p.bind g)).onList eof s = _
      rw [onList, onList]
      split
      · rfl
      · exact ih (s.drop n)

@[simp]
theorem reader_bind (p : Requests α ε β) (g : β → Requests α ε γ) :
    (p >>= g).reader eof = p.reader eof >>= fun b => (g b).reader eof := by
  funext s
  show (match (p >>= g).onList eof s with
    | (.ok b, rest) => Except.ok (b, rest)
    | (.error e, _) => .error e) = ((p.reader eof) s >>= fun q => (g q.1).reader eof q.2)
  rw [onList_bind]
  unfold reader
  generalize p.onList eof s = r
  obtain ⟨_ | b, rest⟩ := r <;> rfl

@[simp]
theorem reader_map (p : Requests α ε β) (g : β → γ) :
    (g <$> p).reader eof = g <$> p.reader eof := by
  show (p >>= fun b => Pure.pure (g b)).reader eof = _
  rw [reader_bind, map_eq_pure_bind]
  rfl

theorem reader_ite {c : Prop} [Decidable c] (p q : Requests α ε β) :
    (if c then p else q).reader eof = if c then p.reader eof else q.reader eof :=
  apply_ite (reader eof) c p q

@[simp]
theorem reader_repeatN (k : Nat) (p : Requests α ε β) :
    (repeatN k p).reader eof = Decoder.repeatN k (p.reader eof) := by
  induction k with
  | zero => rfl
  | succ k ih => simp only [repeatN, Decoder.repeatN, reader_bind, reader_pure, ih]

end

/-! ## On a stream -/

/-- How a stream delivers symbols: of a request, at a call, for a number of symbols while some are
    left, it delivers any positive number up to both. -/
structure Delivery where
  amount (call request left : Nat) : Nat
  amount_le : ∀ call request left, amount call request left ≤ min request left
  amount_pos : ∀ call request left, 0 < request → 0 < left → 0 < amount call request left

section

variable (eof : ε) (delivery : Delivery)

/-- The outcome of a program on a stream that has been called so many times. A short portion is
    taken for the end of the stream. -/
def onStream : Requests α ε β → Nat → List α → Except ε β × List α
  | pure b, _, s => (.ok b, s)
  | throw e, _, s => (.error e, s)
  | next _, _, [] => (.error eof, [])
  | next f, call, a :: s => (f a).onStream call s
  | take n f, call, s =>
      if delivery.amount call n s.length < n then
        (.error eof, s)
      else
        (f (s.take n)).onStream (call + 1) (s.drop n)
  | skip n p, call, s =>
      if delivery.amount call n s.length < n then
        (.error eof, s)
      else
        p.onStream (call + 1) (s.drop n)

/-- Whatever the program asks for while there is enough of it is delivered in one portion. -/
def Delivered : Requests α ε β → Nat → List α → Prop
  | pure _, _, _ => True
  | throw _, _, _ => True
  | next _, _, [] => True
  | next f, call, a :: s => (f a).Delivered call s
  | take n f, call, s =>
      n ≤ s.length → n ≤ delivery.amount call n s.length ∧
        (f (s.take n)).Delivered (call + 1) (s.drop n)
  | skip n p, call, s =>
      n ≤ s.length → n ≤ delivery.amount call n s.length ∧ p.Delivered (call + 1) (s.drop n)

theorem length_onList_le (p : Requests α ε β) (s : List α) :
    (p.onList eof s).2.length ≤ s.length := by
  induction p generalizing s with
  | pure b => exact Nat.le_refl _
  | throw e => exact Nat.le_refl _
  | next f ih =>
      cases s with
      | nil => exact Nat.le_refl _
      | cons a s => exact Nat.le_succ_of_le (ih a s)
  | take n f ih =>
      rw [onList]
      split
      · exact Nat.le_refl _
      · refine Nat.le_trans (ih (s.take n) (s.drop n)) ?_
        rw [List.length_drop]
        exact Nat.sub_le _ _
  | skip n p ih =>
      rw [onList]
      split
      · exact Nat.le_refl _
      · refine Nat.le_trans (ih (s.drop n)) ?_
        rw [List.length_drop]
        exact Nat.sub_le _ _

/-- What follows a request that would have been granted has left less than what is left in front of
    it. -/
theorem ne_of_short {p : Requests α ε β} {n : Nat} {s : List α} {e : ε} (hpos : 0 < n)
    (hle : n ≤ s.length) : ((.error e, s) : Except ε β × List α) ≠ p.onList eof (s.drop n) := by
  intro h
  have hlength := length_onList_le eof p (s.drop n)
  rw [← h, List.length_drop] at hlength
  change s.length ≤ s.length - n at hlength
  omega

/-- One request: where there is enough left, it is granted if it is delivered in one portion. -/
theorem request_iff {n call : Nat} {s : List α} {q r : Except ε β × List α} {D : Prop}
    (hne : 0 < n → n ≤ s.length → (.error eof, s) ≠ r) (hrest : q = r ↔ D) :
    ((if delivery.amount call n s.length < n then (.error eof, s) else q)
        = if s.length < n then (.error eof, s) else r) ↔
      (n ≤ s.length → n ≤ delivery.amount call n s.length ∧ D) := by
  have hamount := delivery.amount_le call n s.length
  by_cases hle : n ≤ s.length
  · rw [if_neg (by omega : ¬ s.length < n)]
    by_cases hshort : delivery.amount call n s.length < n
    · rw [if_pos hshort]
      exact ⟨fun h => absurd h (hne (by omega) hle), fun h => absurd (h hle).1 (by omega)⟩
    · rw [if_neg hshort, hrest]
      exact ⟨fun h _ => ⟨by omega, h⟩, fun h => (h hle).2⟩
  · rw [if_pos (by omega), if_pos (by omega)]
    exact ⟨fun _ h => absurd h hle, fun _ => rfl⟩

/-- A program has the same outcome on the stream as on the list of its symbols if and only if the
    stream delivers what it is asked for in one portion, as long as it has that much. -/
theorem onStream_eq_onList_iff (p : Requests α ε β) (call : Nat) (s : List α) :
    p.onStream eof delivery call s = p.onList eof s ↔ p.Delivered delivery call s := by
  induction p generalizing call s with
  | pure b => exact ⟨fun _ => trivial, fun _ => rfl⟩
  | throw e => exact ⟨fun _ => trivial, fun _ => rfl⟩
  | next f ih =>
      cases s with
      | nil => exact ⟨fun _ => trivial, fun _ => rfl⟩
      | cons a s => exact ih a call s
  | take n f ih =>
      rw [onStream, onList, Delivered]
      exact request_iff eof delivery (fun hpos hle => ne_of_short eof hpos hle)
        (ih (s.take n) (call + 1) (s.drop n))
  | skip n p ih =>
      rw [onStream, onList, Delivered]
      exact request_iff eof delivery (fun hpos hle => ne_of_short eof hpos hle)
        (ih (call + 1) (s.drop n))

/-- A stream that delivers as much as it has delivers whatever a program asks for. -/
theorem delivered_of_whole (h : ∀ call request left, delivery.amount call request left
    = min request left) (p : Requests α ε β) (call : Nat) (s : List α) :
    p.Delivered delivery call s := by
  induction p generalizing call s with
  | pure b => trivial
  | throw e => trivial
  | next f ih =>
      cases s with
      | nil => trivial
      | cons a s => exact ih a call s
  | take n f ih =>
      intro hle
      rw [h, Nat.min_eq_left hle]
      exact ⟨Nat.le_refl n, ih (s.take n) (call + 1) (s.drop n)⟩
  | skip n p ih =>
      intro hle
      rw [h, Nat.min_eq_left hle]
      exact ⟨Nat.le_refl n, ih (call + 1) (s.drop n)⟩

end

end Requests

end Decoder

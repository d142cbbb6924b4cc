import Bond.Lib.Decoder

set_option autoImplicit false

/-! # Handles with an obligation

A handle stands for a part of the input that somebody has to move over: whoever is given the handle, or
the handle itself when it ends. A flag says whether this is still owed. -/

namespace Handle

variable {m : Type → Type} [Monad m] {α : Type}

/-- Use a handle: `release` makes up for what is still owed at the end. -/
def settle (release : m Unit) (use : StateT Bool m α) : m α := do
  let (a, owed) ← use.run true
  if owed then release
  return a

/-- Move over the input instead of the handle. -/
def pay (op : m α) : StateT Bool m α := do
  set false
  op

/-- Leave everything to the handle. -/
def leave (a : α) : StateT Bool m α :=
  return a

/-- Somebody else has moved: the handle does nothing. -/
@[simp]
theorem settle_pay [LawfulMonad m] (release : m Unit) (op : m α) :
    settle release (pay op) = op := by
  simp [settle, pay]

/-- Nobody has moved: the handle does. -/
@[simp]
theorem settle_leave [LawfulMonad m] (release : m Unit) (a : α) :
    settle release (leave a) = (do release; return a) := by
  simp [settle, leave]

/-- What is asked of all handles, by their numbers from `start` on, is asked of those of two lists. -/
theorem numbered_append {ι : Type} {P : Nat → ι → Prop} {start : Nat} {xs ys : List ι}
    (h : ∀ k x, (xs ++ ys)[k]? = some x → P (start + k) x) :
    (∀ k x, xs[k]? = some x → P (start + k) x) ∧
      (∀ k x, ys[k]? = some x → P (start + xs.length + k) x) := by
  refine ⟨fun k x hk => h k x ?_, fun k x hk => ?_⟩
  · have hlt := (List.getElem?_eq_some_iff.1 hk).1
    rwa [List.getElem?_append_left hlt]
  · rw [Nat.add_assoc]
    refine h (xs.length + k) x ?_
    rwa [List.getElem?_append_right (Nat.le_add_right _ _), Nat.add_sub_cancel_left]

end Handle

/-! ## Handles on a cursor -/

namespace Decoder

open Handle

variable {S α β : Type} [Cursor S α] {m : Type → Type} [Monad m] [LawfulMonad m]
  {release : StateT S m Unit} {op : StateT S m β} {enc : List α}

/-- A handle that is paid for moves as far as what has been done instead. -/
theorem Decodes.settle_pay {r : m β} (h : Decodes op enc r) :
    Decodes (settle release (pay op)) enc r := by
  rwa [Handle.settle_pay]

/-- A handle that is left moves as far as its release. -/
theorem Decodes.settle_leave (h : Decodes release enc (Pure.pure ())) (b : β) :
    Decodes (settle release (leave b)) enc (Pure.pure b) := by
  rw [Handle.settle_leave]
  exact h.bind_return fun _ => b

/-! ## Programs that move the cursor -/

/-- The program moves over the encoding, whatever it returns. -/
def Moves (op : StateT S m β) (enc : List α) : Prop :=
  ∃ b, Decodes op enc (Pure.pure b)

namespace Moves

variable {γ : Type} {f : β → StateT S m γ} {enc' : List α}

theorem bind (h : Moves op enc) (hf : ∀ b, Moves (f b) enc') : Moves (op >>= f) (enc ++ enc') := by
  obtain ⟨b, hop⟩ := h
  obtain ⟨c, hc⟩ := hf b
  exact ⟨c, hop.bind_pure hc⟩

theorem bind_return (h : Moves op enc) (g : β → γ) : Moves (op >>= fun b => Pure.pure (g b)) enc := by
  obtain ⟨b, hop⟩ := h
  exact ⟨g b, hop.bind_return g⟩

/-- Behind a decoder that returns a known value. -/
theorem decodes_bind {b : β} (h : Decodes op enc (Pure.pure b)) (hf : Moves (f b) enc') :
    Moves (op >>= f) (enc ++ enc') := by
  obtain ⟨c, hc⟩ := hf
  exact ⟨c, h.bind_pure hc⟩

theorem repeatN {ι : Type} {enc : ι → List α} (xs : List ι) (h : ∀ x ∈ xs, Moves op (enc x)) :
    Moves (Decoder.repeatN xs.length op) (xs.flatMap enc) := by
  induction xs with
  | nil => exact ⟨[], Decodes.pure []⟩
  | cons x xs ih =>
      rw [List.flatMap_cons]
      refine (h x List.mem_cons_self).bind fun b => ?_
      exact (ih fun y hy => h y (List.mem_cons_of_mem x hy)).bind_return fun bs => b :: bs

/-- A handle that is paid for moves as far as what has been done instead. -/
theorem settle_pay (h : Moves op enc) : Moves (settle release (pay op)) enc := by
  rwa [Handle.settle_pay]

end Moves

end Decoder

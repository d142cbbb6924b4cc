import Mathlib.Data.List.Basic

set_option autoImplicit false

/-! # Properties of a tree and of all that is in it

A tree is given by the list of children of each node. `Everywhere children P a` says that `P` holds at
the node `a` and at every node below it. Where a property of one node depends on what holds below it,
`Everywhere.iff_of_step` compares two such properties node by node. -/

namespace Hereditary

variable {α : Type}

/-- `P` holds at a node and at all nodes below. -/
inductive Everywhere (children : α → List α) (P : α → Prop) : α → Prop
  | intro {a : α} (h : P a) (hs : ∀ c ∈ children a, Everywhere children P c) :
      Everywhere children P a

/-- Whether a property holds at a node and at all nodes below, for trees of bounded height. -/
def holdsWithin (children : α → List α) (p : α → Bool) : Nat → α → Bool
  | 0, _ => false
  | k + 1, a => p a && (children a).all (holdsWithin children p k)

namespace Everywhere

variable {children : α → List α} {P Q R : α → Prop} {a : α}

theorem self (h : Everywhere children P a) : P a := by
  cases h with
  | intro h _ => exact h

theorem children_of (h : Everywhere children P a) : ∀ c ∈ children a, Everywhere children P c := by
  cases h with
  | intro _ hs => exact hs

theorem mono (h : Everywhere children P a) (hPQ : ∀ a, P a → Q a) : Everywhere children Q a := by
  induction h with
  | intro h _ ih => exact .intro (hPQ _ h) ih

theorem and (hP : Everywhere children P a) (hQ : Everywhere children Q a) :
    Everywhere children (fun a => P a ∧ Q a) a := by
  induction hP with
  | intro hP _ ih =>
      exact .intro ⟨hP, hQ.self⟩ fun c hc => ih c hc (hQ.children_of c hc)

theorem of_holdsWithin {p : α → Bool} (hp : ∀ a, p a = true → P a) (k : Nat)
    (h : holdsWithin children p k a = true) : Everywhere children P a := by
  induction k generalizing a with
  | zero => cases h
  | succ k ih =>
      rw [holdsWithin, Bool.and_eq_true, List.all_eq_true] at h
      exact .intro (hp a h.1) fun c hc => ih (h.2 c hc)

/-- A map between trees that takes children to children. -/
theorem image_iff {β : Type} {children' : β → List β} {P : β → Prop} (f : α → β)
    (hf : ∀ a, children' (f a) = (children a).map f) :
    Everywhere children' P (f a) ↔ Everywhere children (fun a => P (f a)) a := by
  constructor
  · intro h
    generalize hb : f a = b at h
    induction h generalizing a with
    | intro h _ ih =>
        subst hb
        refine .intro h fun c hc => ih (f c) ?_ rfl
        rw [hf]
        exact List.mem_map_of_mem hc
  · intro h
    induction h with
    | intro h _ ih =>
        refine .intro h fun c hc => ?_
        rw [hf] at hc
        obtain ⟨a, ha, rfl⟩ := List.mem_map.1 hc
        exact ih a ha

/-- Two properties hold at the same trees if they hold at the same nodes, as long as one of them
    holds below. -/
theorem iff_of_step
    (hstep : ∀ a, Everywhere children R a → (∀ c ∈ children a, Everywhere children Q c) →
      (P a ↔ Q a))
    (hR : Everywhere children R a) : Everywhere children P a ↔ Everywhere children Q a := by
  constructor
  · intro h
    induction h with
    | intro h _ ih =>
        have hbelow := fun c hc => ih c hc (hR.children_of c hc)
        exact .intro ((hstep _ hR hbelow).1 h) hbelow
  · intro h
    induction h with
    | intro h hs ih =>
        exact .intro ((hstep _ hR hs).2 h) fun c hc => ih c hc (hR.children_of c hc)

end Everywhere

end Hereditary

import Mathlib.Algebra.BigOperators.Group.List.Basic
import Mathlib.Algebra.GroupWithZero.Nat

set_option autoImplicit false

/-! # Pools

A pool is a list of parties, any number of them, each in a state of its own. `total f` adds up what
each party stands for; a step of one party changes the total by what it changes for that party. -/

namespace Bond.Lib.Pool

variable {α : Type} {f : α → Nat} {pool : List α} {i : Nat} {x y : α}

def total (f : α → Nat) (pool : List α) : Nat :=
  (pool.map f).sum

@[simp] theorem total_nil : total f [] = 0 := rfl

@[simp] theorem total_cons : total f (x :: pool) = f x + total f pool := by
  rw [total, List.map_cons, List.sum_cons, total]

@[simp] theorem total_append (pool' : List α) :
    total f (pool ++ pool') = total f pool + total f pool' := by
  rw [total, List.map_append, List.sum_append, total, total]

/-- The party at a position, with the others around it. -/
theorem exists_split (h : pool[i]? = some x) :
    ∃ before after, pool = before ++ x :: after ∧ before.length = i := by
  obtain ⟨hlt, hx⟩ := List.getElem?_eq_some_iff.1 h
  refine ⟨pool.take i, pool.drop (i + 1), ?_, ?_⟩
  · rw [← hx, List.cons_getElem_drop_succ, List.take_append_drop]
  · rw [List.length_take, Nat.min_eq_left (Nat.le_of_lt hlt)]

theorem le_total (h : x ∈ pool) : f x ≤ total f pool := by
  obtain ⟨before, after, rfl⟩ := List.append_of_mem h
  rw [total_append, total_cons]
  omega

theorem total_eq_zero (h : ∀ x ∈ pool, f x = 0) : total f pool = 0 :=
  List.sum_eq_zero fun n hn => by
    obtain ⟨x, hx, rfl⟩ := List.mem_map.1 hn
    exact h x hx

/-- A step of the party between `before` and `after`. -/
theorem set_split (before after : List α) (x y : α) :
    (before ++ x :: after).set before.length y = before ++ y :: after := by
  rw [List.set_append_right _ _ (Nat.le_refl _), Nat.sub_self, List.set_cons_zero]

theorem total_set (h : pool[i]? = some x) :
    total f (pool.set i y) + f x = total f pool + f y := by
  obtain ⟨before, after, rfl, rfl⟩ := exists_split h
  rw [set_split]
  simp only [total_append, total_cons]
  omega

theorem total_eraseIdx (h : pool[i]? = some x) :
    total f (pool.eraseIdx i) + f x = total f pool := by
  obtain ⟨before, after, rfl, rfl⟩ := exists_split h
  rw [List.eraseIdx_append_of_length_le (Nat.le_refl _), Nat.sub_self, List.eraseIdx_cons_zero]
  simp only [total_append, total_cons]
  omega

theorem length_eraseIdx (h : pool[i]? = some x) : (pool.eraseIdx i).length + 1 = pool.length := by
  obtain ⟨hlt, _⟩ := List.getElem?_eq_some_iff.1 h
  rw [List.length_eraseIdx_of_lt hlt]
  omega

end Bond.Lib.Pool

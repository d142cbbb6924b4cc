import Mathlib.Data.List.Nodup
import Mathlib.Data.List.Perm.Subperm
import Mathlib.Data.List.Range

set_option autoImplicit false

/-! # Fresh names

Candidates are tried in turn until one is found that is not taken. Where the candidates are
different, there is such a one among the first `n + 1` if `n` names are taken. -/

namespace Fresh

variable {α : Type} [DecidableEq α]

/-- The first candidate from the `k`-th on that is not taken, if it comes within so many tries. -/
def search (candidate : Nat → α) (taken : List α) : (tries k : Nat) → Option α
  | 0, _ => none
  | tries + 1, k =>
      if candidate k ∈ taken then search candidate taken tries (k + 1) else some (candidate k)

variable {candidate : Nat → α} {taken : List α} {tries k : Nat}

/-- What is found is a candidate that is not taken, and the first one. -/
theorem search_eq_some {name : α} (h : search candidate taken tries k = some name) :
    name ∉ taken ∧ ∃ i, k ≤ i ∧ name = candidate i ∧ ∀ j, k ≤ j → j < i → candidate j ∈ taken := by
  induction tries generalizing k with
  | zero => cases h
  | succ tries ih =>
      simp only [search] at h
      split at h
      · next htaken =>
          obtain ⟨hname, i, hi, hcandidate, hbefore⟩ := ih h
          refine ⟨hname, i, by omega, hcandidate, fun j hj hlt => ?_⟩
          rcases Nat.eq_or_lt_of_le hj with rfl | hj
          · exact htaken
          · exact hbefore j hj hlt
      · next htaken =>
          obtain rfl := Option.some.inj h
          exact ⟨htaken, k, Nat.le_refl k, rfl, fun j hj hlt => by omega⟩

/-- A candidate that is not taken is found at once. -/
theorem search_of_notMem (h : candidate k ∉ taken) :
    search candidate taken (tries + 1) k = some (candidate k) :=
  if_neg h

theorem mem_of_search_eq_none (h : search candidate taken tries k = none) (i : Nat)
    (hi : i < tries) : candidate (k + i) ∈ taken := by
  induction tries generalizing k i with
  | zero => omega
  | succ tries ih =>
      simp only [search] at h
      split at h
      · next htaken =>
          rcases i with _ | i
          · exact htaken
          · rw [Nat.add_comm i 1, ← Nat.add_assoc]
            exact ih h i (by omega)
      · cases h

/-- The search comes to an end: not all of more candidates than there are names can be taken. -/
theorem exists_search_eq_some (hinj : Function.Injective candidate) (h : taken.length < tries) :
    ∃ name, search candidate taken tries k = some name := by
  refine Option.ne_none_iff_exists'.1 fun hnone => ?_
  have hnodup : ((List.range tries).map fun i => candidate (k + i)).Nodup := by
    refine List.Nodup.map (fun i j hij => ?_) List.nodup_range
    have heq := hinj hij
    omega
  have hsub : ((List.range tries).map fun i => candidate (k + i)) ⊆ taken := by
    intro name hname
    obtain ⟨i, hi, rfl⟩ := List.mem_map.1 hname
    exact mem_of_search_eq_none hnone i (List.mem_range.1 hi)
  have hle := (hnodup.subperm hsub).length_le
  rw [List.length_map, List.length_range] at hle
  omega

end Fresh

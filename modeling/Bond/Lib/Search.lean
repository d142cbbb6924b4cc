import Mathlib.Data.Fintype.Card
import Mathlib.Logic.Relation

set_option autoImplicit false

/-! # Depth-first search that stops at its ancestors

A graph is given by the successors of each vertex. `unfold` looks for a bad vertex in the tree that the
graph unfolds to, down to some depth. `search` does the same but does not go on where a vertex is one of
its own ancestors. In a finite graph `search` comes to an end by itself, and it finds a bad vertex exactly
if there is one that can be reached. -/

namespace Bond.Lib.Search

variable {V : Type} (next : V → List V) (bad : V → Bool)

/-! ## Definitions -/

/-- Is there a bad vertex in the unfolding of `v`, above the depth `k`? -/
def unfold : Nat → V → Bool
  | 0, _ => false
  | k + 1, v => bad v || (next v).any (unfold k)

/-- The search below `v`, for the chain of the ancestors of `v`. -/
def search [DecidableEq V] : Nat → List V → V → Bool
  | 0, _, _ => false
  | k + 1, ancestors, v =>
      if v ∈ ancestors then false else bad v || (next v).any (search k (v :: ancestors))

/-- There is a path from `v` to `w`. -/
def Reaches : V → V → Prop :=
  Relation.ReflTransGen fun a b => b ∈ next a

/-- There is a path from `v` to `w` on which no vertex after `v` is one of `list`. -/
def ReachesBeyond (list : List V) : V → V → Prop :=
  Relation.ReflTransGen fun a b => b ∈ next a ∧ b ∉ list

variable {next bad} {k : Nat} {list : List V} {v w : V}

/-! ## Paths -/

theorem reachesBeyond_nil : ReachesBeyond next [] v w ↔ Reaches next v w := by
  have hstep : (fun a b : V => b ∈ next a ∧ b ∉ ([] : List V)) = fun a b => b ∈ next a := by
    funext a b
    simp
  unfold ReachesBeyond Reaches
  rw [hstep]

/-- A path away from `v` can be cut where it leaves `v` for the last time. -/
theorem ReachesBeyond.leave (h : ReachesBeyond next list v w) (hne : w ≠ v) :
    ∃ c ∈ next v, c ∉ v :: list ∧ ReachesBeyond next (v :: list) c w := by
  induction h with
  | refl => exact absurd rfl hne
  | tail hpath hstep ih =>
      next b w =>
      obtain ⟨hmem, hlist⟩ := hstep
      have hw : w ∉ v :: list := by
        intro h
        rcases List.mem_cons.1 h with h | h
        · exact hne h
        · exact hlist h
      by_cases hb : b = v
      · subst hb
        exact ⟨w, hmem, hw, .refl⟩
      · obtain ⟨c, hc, hclist, hcb⟩ := ih hb
        exact ⟨c, hc, hclist, hcb.tail ⟨hmem, hw⟩⟩

/-! ## What is found -/

/-- What is found in the unfolding can be reached. -/
theorem exists_of_unfold (h : unfold next bad k v = true) :
    ∃ w, Reaches next v w ∧ bad w = true := by
  induction k generalizing v with
  | zero => cases h
  | succ k ih =>
      rw [unfold, Bool.or_eq_true, List.any_eq_true] at h
      rcases h with h | ⟨c, hc, h⟩
      · exact ⟨v, .refl, h⟩
      · obtain ⟨w, hw, hbad⟩ := ih h
        exact ⟨w, .head hc hw, hbad⟩

section

variable [DecidableEq V]

/-- What the search finds is in the unfolding. -/
theorem unfold_of_search (h : search next bad k list v = true) : unfold next bad k v = true := by
  induction k generalizing list v with
  | zero => cases h
  | succ k ih =>
      rw [search] at h
      split_ifs at h
      rw [Bool.or_eq_true, List.any_eq_true] at h
      rw [unfold, Bool.or_eq_true, List.any_eq_true]
      rcases h with h | ⟨c, hc, h⟩
      · exact .inl h
      · exact .inr ⟨c, hc, ih h⟩

/-- The search finds what can be reached without the ancestors: the ancestors are different vertices, so
    they are never more than there are vertices. -/
theorem search_of_reaches [Fintype V] (hlist : list.Nodup) (hk : Fintype.card V < k + list.length)
    (hv : v ∉ list) (hpath : ReachesBeyond next list v w) (hw : bad w = true) :
    search next bad k list v = true := by
  induction k generalizing list v with
  | zero =>
      have hle := hlist.length_le_card
      omega
  | succ k ih =>
      rw [search, if_neg hv, Bool.or_eq_true, List.any_eq_true]
      by_cases hwv : w = v
      · subst hwv
        exact .inl hw
      · obtain ⟨c, hc, hclist, hcw⟩ := hpath.leave hwv
        have hbound : Fintype.card V < k + (v :: list).length := by
          rw [List.length_cons]
          omega
        exact .inr ⟨c, hc, ih (List.nodup_cons.2 ⟨hv, hlist⟩) hbound hclist hcw⟩

/-- To stop at the ancestors hides nothing. -/
theorem search_iff_reaches [Fintype V] (hk : Fintype.card V < k) :
    search next bad k [] v = true ↔ ∃ w, Reaches next v w ∧ bad w = true := by
  constructor
  · intro h
    exact exists_of_unfold (unfold_of_search h)
  · rintro ⟨w, hpath, hw⟩
    exact search_of_reaches List.nodup_nil (by simpa using hk) List.not_mem_nil
      (reachesBeyond_nil.2 hpath) hw

/-- What is somewhere in the unfolding is what the search finds. -/
theorem search_iff_unfold [Fintype V] (hk : Fintype.card V < k) :
    search next bad k [] v = true ↔ ∃ j, unfold next bad j v = true := by
  constructor
  · intro h
    exact ⟨k, unfold_of_search h⟩
  · rintro ⟨j, h⟩
    exact (search_iff_reaches hk).2 (exists_of_unfold h)

end

end Bond.Lib.Search

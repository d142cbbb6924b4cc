import Mathlib.Data.List.Basic

set_option autoImplicit false

/-! # Cells that parties share

Each of several parties refers to a cell of a memory, and any number of them may refer to the same
one. A cell may also have been published. A party that is exclusive is alone with its cell, which is
not published either: it may write there. A party that is not takes a new cell first. As long as
the parties keep to this, nobody sees a published cell change, or the cell of another party. -/

namespace Bond.Lib.Exclusive

variable {α β : Type} {cell : α → Nat} {exclusive : α → Bool}

/-! ## What one party does -/

variable (cell exclusive) in
/-- The party `x` becomes `x'`, and writes to a cell only where it is alone with it. -/
structure Updates (cells : List β) (x : α) (cells' : List β) (x' : α) : Prop where
  length_le : cells.length ≤ cells'.length
  frame : ∀ i < cells.length, (exclusive x = true → i ≠ cell x) → cells'[i]? = cells[i]?
  cell_eq : (cell x' = cell x ∧ (exclusive x' = true → exclusive x = true)) ∨
    (cells.length ≤ cell x' ∧ cell x' < cells'.length)

variable {cells cells' cells'' : List β} {x x' x'' y : α}

/-- The memory stays, and the party keeps its cell. -/
theorem Updates.of_cell_eq (hcell : cell x' = cell x)
    (hexclusive : exclusive x' = true → exclusive x = true) :
    Updates cell exclusive cells x cells x' :=
  ⟨Nat.le_refl _, fun _ _ _ => rfl, .inl ⟨hcell, hexclusive⟩⟩

theorem Updates.refl (cells : List β) (x : α) : Updates cell exclusive cells x cells x :=
  .of_cell_eq rfl id

theorem Updates.write (hx : exclusive x = true) (v : β) (hcell : cell x' = cell x) :
    Updates cell exclusive cells x (cells.set (cell x) v) x' := by
  refine ⟨Nat.le_of_eq List.length_set.symm, ?_, .inl ⟨hcell, fun _ => hx⟩⟩
  intro i _ hi
  exact List.getElem?_set_ne (hi hx).symm

theorem Updates.renew (v : β) (hcell : cell x' = cells.length) :
    Updates cell exclusive cells x (cells ++ [v]) x' := by
  have hlength : (cells ++ [v]).length = cells.length + 1 := List.length_append
  refine ⟨by omega, ?_, .inr ⟨by omega, by omega⟩⟩
  intro i hi _
  exact List.getElem?_append_left hi

theorem Updates.trans (h : Updates cell exclusive cells x cells' x')
    (h' : Updates cell exclusive cells' x' cells'' x'') :
    Updates cell exclusive cells x cells'' x'' := by
  have hle := h.length_le
  have hle' := h'.length_le
  refine ⟨Nat.le_trans hle hle', ?_, ?_⟩
  · intro i hi hx
    rw [h'.frame i (by omega) ?_, h.frame i hi hx]
    intro hx'
    rcases h.cell_eq with ⟨hcell, hkept⟩ | ⟨hnew, _⟩
    · exact hcell ▸ hx (hkept hx')
    · omega
  · rcases h'.cell_eq with ⟨hcell', hkept'⟩ | ⟨hnew', hlt'⟩
    · rcases h.cell_eq with ⟨hcell, hkept⟩ | ⟨hnew, hlt⟩
      · exact .inl ⟨hcell'.trans hcell, fun hx => hkept (hkept' hx)⟩
      · exact .inr ⟨by omega, by omega⟩
    · exact .inr ⟨by omega, hlt'⟩

/-! ## All of them -/

variable (cell exclusive) in
structure WellFormed (cells : List β) (parties : List α) (published : List Nat) : Prop where
  cell_lt : ∀ x ∈ parties, cell x < cells.length
  published_lt : ∀ i ∈ published, i < cells.length
  alone : ∀ (j k : Nat) (x y : α), parties[j]? = some x → parties[k]? = some y →
    exclusive x = true → cell y = cell x → j = k
  unpublished : ∀ x ∈ parties, exclusive x = true → cell x ∉ published

variable {parties : List α} {published : List Nat} {j k : Nat}

theorem wellFormed_nil : WellFormed cell exclusive ([] : List β) [] [] := by
  constructor <;> simp

section
variable (h : WellFormed cell exclusive cells parties published)
include h

theorem WellFormed.getElem?_of_published (hk : parties[k]? = some x)
    (hu : Updates cell exclusive cells x cells' x') {i : Nat} (hi : i ∈ published) :
    cells'[i]? = cells[i]? := by
  refine hu.frame i (h.published_lt i hi) ?_
  rintro hx rfl
  exact h.unpublished x (List.mem_of_getElem? hk) hx hi

theorem WellFormed.getElem?_of_ne (hk : parties[k]? = some x)
    (hu : Updates cell exclusive cells x cells' x') (hj : parties[j]? = some y) (hne : j ≠ k) :
    cells'[cell y]? = cells[cell y]? := by
  refine hu.frame _ (h.cell_lt y (List.mem_of_getElem? hj)) ?_
  intro hx heq
  exact hne (h.alone k j x y hk hj hx heq).symm

theorem WellFormed.set (hk : parties[k]? = some x)
    (hu : Updates cell exclusive cells x cells' x') :
    WellFormed cell exclusive cells' (parties.set k x') published := by
  have hx := List.mem_of_getElem? hk
  have hcell := h.cell_lt x hx
  have hle := hu.length_le
  have hcell' : cell x' < cells'.length := by
    rcases hu.cell_eq with ⟨hcell', _⟩ | ⟨_, hlt⟩ <;> omega
  -- a party of the new list is an old one, or `x'` at `k`
  have hget : ∀ {i : Nat} {z : α}, (parties.set k x')[i]? = some z →
      (i = k ∧ z = x') ∨ (i ≠ k ∧ parties[i]? = some z) := by
    intro i z hz
    rcases eq_or_ne k i with rfl | hne
    · rw [List.getElem?_set_self (List.getElem?_eq_some_iff.1 hk).1] at hz
      exact .inl ⟨rfl, (Option.some.inj hz).symm⟩
    · rw [List.getElem?_set_ne hne] at hz
      exact .inr ⟨hne.symm, hz⟩
  refine ⟨?_, ?_, ?_, ?_⟩
  · intro z hz
    rcases List.mem_or_eq_of_mem_set hz with hold | rfl
    · exact Nat.lt_of_lt_of_le (h.cell_lt z hold) hle
    · exact hcell'
  · intro i hi
    exact Nat.lt_of_lt_of_le (h.published_lt i hi) hle
  · intro i l y z hy hz hexcl heq
    rcases hget hy with ⟨rfl, rfl⟩ | ⟨_, hold⟩ <;> rcases hget hz with ⟨rfl, rfl⟩ | ⟨_, hold'⟩
    · rfl
    · rcases hu.cell_eq with ⟨hsame, hkept⟩ | ⟨hnew, _⟩
      · exact h.alone i l x z hk hold' (hkept hexcl) (heq.trans hsame)
      · have := h.cell_lt z (List.mem_of_getElem? hold')
        omega
    · rcases hu.cell_eq with ⟨hsame, _⟩ | ⟨hnew, _⟩
      · exact h.alone i l y x hold hk hexcl (hsame.symm.trans heq)
      · have := h.cell_lt y (List.mem_of_getElem? hold)
        omega
    · exact h.alone i l y z hold hold' hexcl heq
  · intro z hz hexcl hmem
    rcases List.mem_or_eq_of_mem_set hz with hold | rfl
    · exact h.unpublished z hold hexcl hmem
    · rcases hu.cell_eq with ⟨hsame, hkept⟩ | ⟨hnew, _⟩
      · exact h.unpublished x hx (hkept hexcl) (hsame ▸ hmem)
      · have := h.published_lt _ hmem
        omega

/-- The cell of a party that is not exclusive may be published. -/
theorem WellFormed.publish (hk : parties[k]? = some x) (hx : exclusive x = false) :
    WellFormed cell exclusive cells parties (published ++ [cell x]) := by
  refine ⟨h.cell_lt, ?_, h.alone, ?_⟩
  · intro i hi
    rcases List.mem_append.1 hi with hi | hi
    · exact h.published_lt i hi
    · exact List.mem_singleton.1 hi ▸ h.cell_lt x (List.mem_of_getElem? hk)
  · intro y hy hexcl hmem
    rcases List.mem_append.1 hmem with hmem | hmem
    · exact h.unpublished y hy hexcl hmem
    · obtain ⟨l, hl⟩ := List.mem_iff_getElem?.1 hy
      have hlk := h.alone l k y x hl hk hexcl (List.mem_singleton.1 hmem).symm
      rw [hlk, hk, Option.some.injEq] at hl
      rw [← hl, hx] at hexcl
      contradiction

/-- A new party, on a cell where nobody is alone. -/
theorem WellFormed.append (hy : cell y < cells.length)
    (hfree : ∀ x ∈ parties, exclusive x = true → cell x ≠ cell y)
    (hexcl : exclusive y = true → cell y ∉ published ∧ ∀ x ∈ parties, cell x ≠ cell y) :
    WellFormed cell exclusive cells (parties ++ [y]) published := by
  have hget : ∀ {i : Nat} {z : α}, (parties ++ [y])[i]? = some z →
      parties[i]? = some z ∨ (i = parties.length ∧ z = y) := by
    intro i z hz
    rcases Nat.lt_or_ge i parties.length with hlt | hge
    · rw [List.getElem?_append_left hlt] at hz
      exact .inl hz
    · rw [List.getElem?_append_right hge] at hz
      obtain ⟨hlt, hz⟩ := List.getElem?_eq_some_iff.1 hz
      rw [List.length_singleton] at hlt
      refine .inr ⟨by omega, ?_⟩
      rw [← hz, List.getElem_singleton]
  refine ⟨?_, h.published_lt, ?_, ?_⟩
  · intro z hz
    rcases List.mem_append.1 hz with hz | hz
    · exact h.cell_lt z hz
    · exact List.mem_singleton.1 hz ▸ hy
  · intro i l z w hz hw hz' heq
    rcases hget hz with hold | ⟨rfl, rfl⟩ <;> rcases hget hw with hold' | ⟨rfl, rfl⟩
    · exact h.alone i l z w hold hold' hz' heq
    · exact absurd heq.symm (hfree z (List.mem_of_getElem? hold) hz')
    · exact absurd heq ((hexcl hz').2 w (List.mem_of_getElem? hold'))
    · rfl
  · intro z hz hz'
    rcases List.mem_append.1 hz with hz | hz
    · exact h.unpublished z hz hz'
    · rw [List.mem_singleton] at hz
      subst hz
      exact (hexcl hz').1

/-- A new party, alone with a new cell. -/
theorem WellFormed.create (v : β) (hy : cell y = cells.length) :
    WellFormed cell exclusive (cells ++ [v]) (parties ++ [y]) published := by
  have hlength : (cells ++ [v]).length = cells.length + 1 := List.length_append
  have hcells : ∀ x ∈ parties, cell x ≠ cell y := fun x hx => by
    have := h.cell_lt x hx
    omega
  have hlarger : WellFormed cell exclusive (cells ++ [v]) parties published :=
    ⟨fun x hx => Nat.lt_of_lt_of_le (h.cell_lt x hx) (by omega),
      fun i hi => Nat.lt_of_lt_of_le (h.published_lt i hi) (by omega), h.alone, h.unpublished⟩
  refine hlarger.append (by omega) (fun x hx _ => hcells x hx) fun _ => ⟨?_, hcells⟩
  intro hmem
  have := h.published_lt _ hmem
  omega

end

end Bond.Lib.Exclusive

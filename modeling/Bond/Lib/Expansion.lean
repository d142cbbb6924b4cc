import Mathlib.Logic.Relation
import Mathlib.Data.Nat.Init
import Mathlib.Data.List.Basic

set_option autoImplicit false

/-! # Expansions

Nodes that are replaced by parts, in order, until only leaves are left. Every node among the parts of
a node is smaller than it, so that this comes to an end. -/

namespace Bond.Lib

/-- A part of a node: a leaf, or a node that has parts itself. -/
inductive Part (ν leaf : Type) where
  | leaf (leaf : leaf)
  | node (node : ν)

structure Expansion (ν leaf : Type) where
  parts : ν → List (Part ν leaf)
  size : ν → Nat
  size_lt : ∀ {n m : ν}, .node m ∈ parts n → size m < size n

namespace Expansion

variable {ν leaf : Type} (E : Expansion ν leaf)

/-- The leaves that a node is expanded to. -/
def expand (n : ν) : List leaf :=
  (E.parts n).attach.flatMap fun p =>
    match h : p.val with
    | .leaf a => [a]
    | .node m =>
        have : E.size m < E.size n := E.size_lt (h ▸ p.property)
        expand m
termination_by E.size n

/-- The second node comes up in the expansion of the first one. -/
def Reaches : ν → ν → Prop :=
  Relation.ReflTransGen fun n m => .node m ∈ E.parts n

variable {E} {n m : ν} {a : leaf}

theorem mem_expand : a ∈ E.expand n ↔
    .leaf a ∈ E.parts n ∨ ∃ m, .node m ∈ E.parts n ∧ a ∈ E.expand m := by
  rw [expand]
  constructor
  · intro h
    obtain ⟨⟨p, hp⟩, -, ha⟩ := List.mem_flatMap.1 h
    cases p with
    | leaf b =>
        obtain rfl := List.mem_singleton.1 ha
        exact .inl hp
    | node m => exact .inr ⟨m, hp, ha⟩
  · intro h
    rcases h with hleaf | ⟨m, hm, ha⟩
    · exact List.mem_flatMap.2 ⟨⟨_, hleaf⟩, List.mem_attach _ _, List.mem_singleton_self a⟩
    · exact List.mem_flatMap.2 ⟨⟨_, hm⟩, List.mem_attach _ _, ha⟩

/-- The leaves of an expansion are those of the nodes that come up in it. -/
theorem mem_expand_iff : a ∈ E.expand n ↔ ∃ m, E.Reaches n m ∧ .leaf a ∈ E.parts m := by
  constructor
  · intro h
    -- The induction is on the size of the node.
    induction hsize : E.size n using Nat.strong_induction_on generalizing n with
    | _ size ih =>
        rcases mem_expand.1 h with hleaf | ⟨m, hm, ha⟩
        · exact ⟨n, .refl, hleaf⟩
        · obtain ⟨m', hreaches, hleaf⟩ := ih _ (hsize ▸ E.size_lt hm) ha rfl
          exact ⟨m', .head hm hreaches, hleaf⟩
  · rintro ⟨m, hreaches, hleaf⟩
    induction hreaches using Relation.ReflTransGen.head_induction_on with
    | refl => exact mem_expand.2 (.inl hleaf)
    | head hm _ ih => exact mem_expand.2 (.inr ⟨_, hm, ih⟩)

/-- What passes from a node to the nodes among its parts holds of all that come up. -/
theorem Reaches.induct {P : ν → Prop} (h : E.Reaches n m) (hn : P n)
    (hparts : ∀ {n m}, P n → .node m ∈ E.parts n → P m) : P m := by
  induction h with
  | refl => exact hn
  | tail _ hm ih => exact hparts ih hm

end Expansion

end Bond.Lib

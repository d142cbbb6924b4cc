import Bond.Compiler.ParserRuns

set_option autoImplicit false

/-! # Declarations with one name

When declarations that have one name in a common namespace are accepted. -/

namespace Bond.Compiler

/-- Declarations with one name in a common namespace are accepted in a steady run only if they are
    equal or one is a forward declaration of the other. -/
theorem agree_of_steadyRun {table : List Declaration} {ds : List Definition}
    (hrun : Runs [] ds table) (hsteady : SteadyRun [] ds) :
    ∀ a ∈ ds.map Definition.decl, ∀ b ∈ ds.map Definition.decl,
      duplicateDeclaration a b = true → Agree a b := by
  obtain ⟨-, hpairs⟩ := agree_of_run hrun hsteady
  have hself : ∀ a ∈ ds.map Definition.decl, duplicateDeclaration a a = true → Agree a a :=
    fun a _ _ => Or.inl rfl
  have hback : (ds.map Definition.decl).Pairwise
      fun a b => duplicateDeclaration b a = true → Agree b a :=
    hpairs.imp fun h hdup => (h hdup).symm
  have hforth : (ds.map Definition.decl).Pairwise
      fun a b => duplicateDeclaration a b = true → Agree a b :=
    hpairs.imp fun h hdup => h (duplicateDeclaration_comm _ _ ▸ hdup)
  exact fun a ha b hb => hforth.forall_of_forall_of_flip hself hback ha hb

/-! ## Points

A struct, its forward declaration, and another struct of the same name. -/

def pointNamespaces : List Namespace :=
  [⟨none, ["n"]⟩]

def pointForward : Declaration :=
  .forward pointNamespaces "Point" []

def point (type : BasicType) : Definition :=
  .struct pointNamespaces [] "Point" [] none [.mk [] 0 .optional (.basic type) "x" none]

theorem made_point (type : BasicType) (table : List Declaration) : (point type).Made table := by
  refine .struct (.struct (by simp) ⟨by simp, by simp⟩ ?_ ?_)
  · simp only [List.mem_singleton, forall_eq]
    exact ⟨[], 0, .optional, .basic type, "x", none, by cases type <;> rfl⟩
  · simp only [List.mem_singleton, forall_eq]
    exact .basic type

/-- A forward declaration, the struct, and the struct again. -/
theorem agree_points : ∃ table, Runs [] [.other pointForward, point .int32, point .int32] table ∧
    ∀ a ∈ [pointForward, (point .int32).decl, (point .int32).decl],
      ∀ b ∈ [pointForward, (point .int32).decl, (point .int32).decl],
        duplicateDeclaration a b = true → Agree a b := by
  have hforward : define (.other pointForward) [] = .symbols [pointForward] := rfl
  have hpoint : define (point .int32) [pointForward] = .symbols [(point .int32).decl] := rfl
  have hagain : define (point .int32) [(point .int32).decl] = .symbols [(point .int32).decl] := rfl
  have hruns : Runs [] [.other pointForward, point .int32, point .int32]
      [(point .int32).decl] :=
    .cons (.other rfl .forward) hforward (.cons (made_point _ _) hpoint
      (.cons (made_point _ _) hagain (.nil _)))
  refine ⟨_, hruns, agree_of_steadyRun hruns ⟨by simp [Steady], fun table h => ?_⟩⟩
  cases hforward.symm.trans h
  refine ⟨?_, fun table h => ?_⟩
  · simp [Steady, pointForward, point, Definition.decl, Declaration.isForward,
      Declaration.isStructDecl, Declaration.declNamespaces]
  cases hpoint.symm.trans h
  refine ⟨?_, fun _ _ => trivial⟩
  · simp [Steady, point, Definition.decl, Declaration.isForward, Declaration.declNamespaces]

set_option maxRecDepth 10000 in
/-- The second struct is not compared to the first one: its head took the place of it. -/
theorem not_agree_of_accepted : ¬ ∀ text n decls, declarationsOf text n = some decls →
    ∀ a ∈ decls, ∀ b ∈ decls, duplicateDeclaration a b = true → Agree a b := by
  intro h
  have htext : declarationsOf
      "namespace n struct Point{0:int32 x;}struct Point{0:bool x;}" 30 =
        some [(point .int32).decl, (point .bool).decl] := by
    rewrite [declarationsOf_ofList]
    decide +kernel
  have hagree := h _ _ _ htext (point .int32).decl (by simp) (point .bool).decl (by simp)
    (by decide +kernel)
  revert hagree
  decide +kernel

end Bond.Compiler

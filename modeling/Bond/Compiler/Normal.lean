import Bond.Compiler.Accepted

set_option autoImplicit false

/-! # Types without aliases

What a type is with arguments for its parameters and with its aliases resolved, at any depth. The
functions of the compiler that resolve parameters and aliases step by step, some of them only down to
the first constructor, are compared by it. -/

namespace Bond.Compiler

/-- The arguments of an alias or a struct, by its parameters. -/
def argument (params : List TypeParam) (args : List BondType) : TypeParam → BondType :=
  fun p => resolveParam params args (.typeParam p)

theorem argument_of_mem {params : List TypeParam} {args : List BondType} {p : TypeParam}
    (hlength : args.length = params.length) (hp : p ∈ params) : argument params args p ∈ args := by
  obtain ⟨t, ht, hlookup⟩ := lookup_zip_of_mem hlength hp
  rw [argument, resolveParam, hlookup]
  exact ht

-- A type with the given types for its parameters.
mutual

def BondType.normWith (ρ : TypeParam → BondType) : BondType → BondType
  | .basic b => .basic b
  | .container kind t => .container kind (t.normWith ρ)
  | .map k t => .map (k.normWith ρ) (t.normWith ρ)
  | .intTypeArg n => .intTypeArg n
  | .typeParam p => ρ p
  | .userDefined (.typeAlias _ _ params type) args =>
      type.normWith (argument params (normTypes ρ args))
  | .userDefined decl args => .userDefined decl (normTypes ρ args)

def normTypes (ρ : TypeParam → BondType) : List BondType → List BondType
  | [] => []
  | t :: ts => t.normWith ρ :: normTypes ρ ts

end

def BondType.norm (t : BondType) : BondType :=
  t.normWith .typeParam

theorem normTypes_eq_map (ρ : TypeParam → BondType) (ts : List BondType) :
    normTypes ρ ts = ts.map (BondType.normWith ρ) := by
  induction ts with
  | nil => rfl
  | cons t ts ih => rw [normTypes, ih, List.map_cons]

/-- A user type that is no alias keeps its declaration. -/
theorem normWith_userDefined {ρ : TypeParam → BondType} {decl : Declaration} {args : List BondType}
    (h : decl.isAlias = false) :
    (BondType.userDefined decl args).normWith ρ = .userDefined decl (normTypes ρ args) := by
  cases decl with
  | typeAlias => cases h
  | _ => rfl

/-! ## Resolving parameters -/

theorem argument_normTypes {params : List TypeParam} {args : List BondType} {p : TypeParam}
    (ρ : TypeParam → BondType) (hlength : args.length = params.length) (hp : p ∈ params) :
    argument params (normTypes ρ args) p = (argument params args p).normWith ρ := by
  obtain ⟨t, -, hlookup⟩ := lookup_zip_of_mem hlength hp
  rw [argument, argument, resolveParam, resolveParam, normTypes_eq_map, lookup_zip_map, hlookup]
  rfl

-- Parameters may be resolved before the aliases, or with them.
mutual

theorem normWith_resolveParam {params : List TypeParam} {args : List BondType}
    (ρ : TypeParam → BondType) (hlength : args.length = params.length) (t : BondType)
    (h : t.Accepted params) :
    (t.fmapType (resolveParam params args)).normWith ρ =
      t.normWith (argument params (normTypes ρ args)) := by
  cases t with
  | basic b => rfl
  | container kind t =>
      cases h with
      | container ht =>
          have ih := normWith_resolveParam ρ hlength t ht
          simp only [BondType.fmapType, resolveParam, BondType.normWith, ih]
  | map k t =>
      cases h with
      | map hk ht =>
          have ihk := normWith_resolveParam ρ hlength k hk
          have iht := normWith_resolveParam ρ hlength t ht
          simp only [BondType.fmapType, resolveParam, BondType.normWith, ihk, iht]
  | intTypeArg n => rfl
  | typeParam p =>
      cases h with
      | typeParam hp =>
          rw [BondType.fmapType, BondType.normWith, argument_normTypes ρ hlength hp]
          rfl
  | userDefined decl args' =>
      cases h with
      | userDefined _ _ _ hargs =>
          have ih := normTypes_resolveParam ρ hlength args' hargs
          cases decl <;> simp only [BondType.fmapType, resolveParam, BondType.normWith, ih]

theorem normTypes_resolveParam {params : List TypeParam} {args : List BondType}
    (ρ : TypeParam → BondType) (hlength : args.length = params.length) (ts : List BondType)
    (h : ∀ t ∈ ts, t.Accepted params) :
    normTypes ρ (fmapTypes (resolveParam params args) ts) =
      normTypes (argument params (normTypes ρ args)) ts := by
  cases ts with
  | nil => rfl
  | cons t ts =>
      rw [List.forall_mem_cons] at h
      have iht := normWith_resolveParam ρ hlength t h.1
      have ihts := normTypes_resolveParam ρ hlength ts h.2
      simp only [fmapTypes, normTypes, iht, ihts]

end

/-- An alias that is resolved is the same type. -/
theorem normWith_resolveAlias {outer params : List TypeParam} {namespaces : List Namespace}
    {name : String} {type : BondType} {args : List BondType} (ρ : TypeParam → BondType)
    (h : (BondType.userDefined (.typeAlias namespaces name params type) args).Accepted outer) :
    (resolveAlias params type args).normWith ρ =
      (BondType.userDefined (.typeAlias namespaces name params type) args).normWith ρ := by
  cases h with
  | userDefined hdecl _ hcount _ =>
      cases hdecl with
      | typeAlias htype => exact normWith_resolveParam ρ hcount type htype

theorem normWith_resolved {outer : List TypeParam} {t : BondType} (ρ : TypeParam → BondType)
    (h : t.Accepted outer) : t.resolved.normWith ρ = t.normWith ρ := by
  induction hn : t.weight using Nat.strong_induction_on generalizing t with
  | _ n ih =>
      by_cases halias : ∃ namespaces name params type args,
          t = .userDefined (.typeAlias namespaces name params type) args
      · obtain ⟨namespaces, name, params, type, args, rfl⟩ := halias
        rw [weight_alias] at hn
        rw [resolved_alias, ← normWith_resolveAlias ρ h]
        exact ih _ (by omega) h.resolveAlias rfl
      · rw [resolved_eq_self fun _ _ _ _ _ heq => halias ⟨_, _, _, _, _, heq⟩]

end Bond.Compiler

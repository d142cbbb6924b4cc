import Bond.Compiler.SchemaDef

set_option autoImplicit false

/-! # The types of a schema

What `resolveType` makes of the types in a struct, for arguments without parameters. -/

namespace Bond.Compiler

/-! ## Down to the first constructor -/

theorem resolved_resolved (t : BondType) : t.resolved.resolved = t.resolved :=
  resolved_eq_self (resolved_ne_alias t)

theorem resolve_typeParam (params : List TypeParam) (args : List BondType) (p : TypeParam) :
    resolve params args (.typeParam p) = argument params args p := by
  have hself : (BondType.typeParam p).resolved = .typeParam p :=
    resolved_eq_self fun _ _ _ _ _ h => by cases h
  rw [resolve, hself]

theorem BondType.Accepted.ne_typeParam {t : BondType} (h : t.Accepted []) (p : TypeParam) :
    t ≠ .typeParam p := by
  rintro rfl
  cases h with
  | typeParam hp => cases hp

/-- Of a type without parameters only aliases are resolved. -/
theorem resolve_closed (params : List TypeParam) (args : List BondType) {t : BondType}
    (h : t.Accepted []) : resolve params args t = t.resolved := by
  unfold resolve
  split
  · next p hp => exact absurd hp (h.resolved.ne_typeParam p)
  · rfl

/-! ## The whole type -/

section

variable (params : List TypeParam) (args : List BondType)

/-- The type before it is resolved itself: its parts are. -/
def resolveParts : BondType → BondType
  | .container kind t => .container kind (resolveType params args t)
  | .map k t => .map (resolveType params args k) (resolveType params args t)
  | .userDefined decl args' => .userDefined decl (args'.map (resolveType params args))
  | t => t

theorem resolveType_eq (t : BondType) :
    resolveType params args t = resolve params args (resolveParts params args t) := by
  cases t with
  | userDefined decl args' =>
      rw [resolveType, BondType.fmapType, fmapTypes_eq_map]
      rfl
  | _ => rfl

end

section

variable {params : List TypeParam} {args : List BondType}

theorem resolveType_typeParam (p : TypeParam) :
    resolveType params args (.typeParam p) = argument params args p :=
  resolve_typeParam params args p

-- The induction is on the type; each part is resolved before the whole.
mutual

theorem accepted_resolveType (hlength : args.length = params.length)
    (hargs : ∀ t ∈ args, t.Accepted []) (t : BondType) (h : t.Accepted params) :
    (resolveType params args t).Accepted [] := by
  have hclosed : (resolveParts params args t).Accepted [] →
      (resolveType params args t).Accepted [] := by
    intro hparts
    rw [resolveType_eq, resolve_closed params args hparts]
    exact hparts.resolved
  cases t with
  | basic b => exact hclosed (.basic b)
  | container kind t =>
      cases h with
      | container ht => exact hclosed (.container (accepted_resolveType hlength hargs t ht))
  | map k t =>
      cases h with
      | map hk ht =>
          exact hclosed (.map (accepted_resolveType hlength hargs k hk)
            (accepted_resolveType hlength hargs t ht))
  | intTypeArg n => exact hclosed (.intTypeArg n)
  | typeParam p =>
      cases h with
      | typeParam hp =>
          rw [resolveType_typeParam]
          exact hargs _ (argument_of_mem hlength hp)
  | userDefined decl args' =>
      cases h with
      | userDefined hdecl hservice hcount hargs' =>
          refine hclosed (.userDefined hdecl hservice ?_ ?_)
          · rw [List.length_map, hcount]
          · exact accepted_resolveTypes hlength hargs args' hargs'

theorem accepted_resolveTypes (hlength : args.length = params.length)
    (hargs : ∀ t ∈ args, t.Accepted []) (ts : List BondType) (h : ∀ t ∈ ts, t.Accepted params) :
    ∀ t ∈ ts.map (resolveType params args), t.Accepted [] := by
  cases ts with
  | nil => simp
  | cons t ts =>
      rw [List.forall_mem_cons] at h
      rw [List.map_cons, List.forall_mem_cons]
      exact ⟨accepted_resolveType hlength hargs t h.1, accepted_resolveTypes hlength hargs ts h.2⟩

end

/-- A type that is no parameter becomes what its resolved parts make, resolved. -/
theorem resolveType_eq_resolved (hlength : args.length = params.length)
    (hargs : ∀ t ∈ args, t.Accepted []) {t : BondType} (h : t.Accepted params)
    (hparam : ∀ p, t ≠ .typeParam p) :
    (resolveParts params args t).Accepted [] ∧
      resolveType params args t = (resolveParts params args t).resolved := by
  have hparts : (resolveParts params args t).Accepted [] := by
    cases h with
    | basic b => exact .basic b
    | container ht => exact .container (accepted_resolveType hlength hargs _ ht)
    | map hk ht =>
        exact .map (accepted_resolveType hlength hargs _ hk)
          (accepted_resolveType hlength hargs _ ht)
    | intTypeArg n => exact .intTypeArg n
    | typeParam => exact absurd rfl (hparam _)
    | userDefined hdecl hservice hcount hargs' =>
        refine .userDefined hdecl hservice ?_ ?_
        · rw [List.length_map, hcount]
        · exact accepted_resolveTypes hlength hargs _ hargs'
  exact ⟨hparts, by rw [resolveType_eq, resolve_closed params args hparts]⟩

-- Resolving keeps what a type is without its aliases.
mutual

theorem normWith_resolveType (ρ : TypeParam → BondType) (hlength : args.length = params.length)
    (hargs : ∀ t ∈ args, t.Accepted []) (t : BondType) (h : t.Accepted params) :
    (resolveType params args t).normWith ρ =
      t.normWith (argument params (normTypes ρ args)) := by
  by_cases hparam : ∀ p, t ≠ .typeParam p
  · obtain ⟨hparts, heq⟩ := resolveType_eq_resolved hlength hargs h hparam
    rw [heq, normWith_resolved ρ hparts]
    cases t with
    | basic b => rfl
    | container kind t =>
        cases h with
        | container ht =>
            have ih := normWith_resolveType ρ hlength hargs t ht
            simp only [resolveParts, BondType.normWith, ih]
    | map k t =>
        cases h with
        | map hk ht =>
            have ihk := normWith_resolveType ρ hlength hargs k hk
            have iht := normWith_resolveType ρ hlength hargs t ht
            simp only [resolveParts, BondType.normWith, ihk, iht]
    | intTypeArg n => rfl
    | typeParam p => exact absurd rfl (hparam p)
    | userDefined decl args' =>
        cases h with
        | userDefined _ _ _ hargs' =>
            have ih := normTypes_resolveTypes ρ hlength hargs args' hargs'
            cases decl <;> simp only [resolveParts, BondType.normWith, ih]
  · simp only [not_forall, not_not] at hparam
    obtain ⟨p, rfl⟩ := hparam
    cases h with
    | typeParam hp =>
        rw [resolveType_typeParam, BondType.normWith, argument_normTypes ρ hlength hp]

theorem normTypes_resolveTypes (ρ : TypeParam → BondType) (hlength : args.length = params.length)
    (hargs : ∀ t ∈ args, t.Accepted []) (ts : List BondType) (h : ∀ t ∈ ts, t.Accepted params) :
    normTypes ρ (ts.map (resolveType params args)) =
      normTypes (argument params (normTypes ρ args)) ts := by
  cases ts with
  | nil => rfl
  | cons t ts =>
      rw [List.forall_mem_cons] at h
      have iht := normWith_resolveType ρ hlength hargs t h.1
      have ihts := normTypes_resolveTypes ρ hlength hargs ts h.2
      simp only [List.map_cons, normTypes, iht, ihts]

end

end

end Bond.Compiler

import Bond.Compiler.ResolveType
import Bond.Compiler.Substitution

set_option autoImplicit false

/-! # Aliases that are left in schema types

`resolveType` resolves the parts of a type before the whole, and an alias only down to the first
constructor: an alias inside of what an alias stands for is not seen by it. Which types come out
without aliases. -/

namespace Bond.Compiler

/-! ## Aliases and parameters of a type -/

mutual

/-- No alias is applied, at any depth. -/
def BondType.aliasFree : BondType → Bool
  | .basic _ => true
  | .container _ t => t.aliasFree
  | .map k t => k.aliasFree && t.aliasFree
  | .intTypeArg _ => true
  | .typeParam _ => true
  | .userDefined decl args => !decl.isAlias && aliasFreeAll args

def aliasFreeAll : List BondType → Bool
  | [] => true
  | t :: ts => t.aliasFree && aliasFreeAll ts

end

mutual

/-- The parameters that a type is made of. -/
def BondType.typeParams : BondType → List TypeParam
  | .basic _ => []
  | .container _ t => t.typeParams
  | .map k t => k.typeParams ++ t.typeParams
  | .intTypeArg _ => []
  | .typeParam p => [p]
  | .userDefined _ args => typeParamsAll args

def typeParamsAll : List BondType → List TypeParam
  | [] => []
  | t :: ts => t.typeParams ++ typeParamsAll ts

end

theorem aliasFreeAll_iff (ts : List BondType) :
    aliasFreeAll ts = true ↔ ∀ t ∈ ts, t.aliasFree = true := by
  induction ts with
  | nil => simp [aliasFreeAll]
  | cons t ts ih => simp [aliasFreeAll, ih]

theorem not_isAlias_of_aliasFree {t : BondType} (h : t.aliasFree = true) : t.isAlias = false := by
  cases t with
  | userDefined decl args =>
      simp only [BondType.aliasFree, Bool.and_eq_true] at h
      simpa [BondType.isAlias] using h.1
  | _ => rfl

mutual

/-- What is put in for parameters has to be free of aliases, as the rest. -/
theorem aliasFree_substitute (ρ : TypeParam → BondType) (t : BondType) :
    (t.substitute ρ).aliasFree = true ↔
      t.aliasFree = true ∧ ∀ p ∈ t.typeParams, (ρ p).aliasFree = true := by
  cases t with
  | basic | intTypeArg | typeParam => simp [BondType.substitute, BondType.aliasFree, BondType.typeParams]
  | container kind t =>
      have ih := aliasFree_substitute ρ t
      simp only [BondType.substitute, BondType.aliasFree, BondType.typeParams, ih]
  | map k t =>
      have ihk := aliasFree_substitute ρ k
      have iht := aliasFree_substitute ρ t
      simp only [BondType.substitute, BondType.aliasFree, BondType.typeParams, Bool.and_eq_true, ihk,
        iht, List.forall_mem_append]
      tauto
  | userDefined decl args =>
      have ih := aliasFreeAll_substituteAll ρ args
      simp only [BondType.substitute, BondType.aliasFree, BondType.typeParams, Bool.and_eq_true, ih,
        and_assoc]

theorem aliasFreeAll_substituteAll (ρ : TypeParam → BondType) (ts : List BondType) :
    aliasFreeAll (substituteAll ρ ts) = true ↔
      aliasFreeAll ts = true ∧ ∀ p ∈ typeParamsAll ts, (ρ p).aliasFree = true := by
  cases ts with
  | nil => simp [substituteAll, aliasFreeAll, typeParamsAll]
  | cons t ts =>
      have iht := aliasFree_substitute ρ t
      have ihts := aliasFreeAll_substituteAll ρ ts
      simp only [substituteAll, aliasFreeAll, typeParamsAll, Bool.and_eq_true, iht, ihts,
        List.forall_mem_append]
      tauto

end

mutual

theorem typeParams_of_accepted {params : List TypeParam} (t : BondType) (h : t.Accepted params) :
    ∀ p ∈ t.typeParams, p ∈ params := by
  cases t with
  | basic | intTypeArg => simp [BondType.typeParams]
  | typeParam p =>
      cases h with
      | typeParam hp => simpa [BondType.typeParams] using hp
  | container kind t =>
      cases h with
      | container ht => exact typeParams_of_accepted t ht
  | map k t =>
      cases h with
      | map hk ht =>
          rw [BondType.typeParams, List.forall_mem_append]
          exact ⟨typeParams_of_accepted k hk, typeParams_of_accepted t ht⟩
  | userDefined decl args =>
      cases h with
      | userDefined _ _ _ hargs => exact typeParamsAll_of_accepted args hargs

theorem typeParamsAll_of_accepted {params : List TypeParam} (ts : List BondType)
    (h : ∀ t ∈ ts, t.Accepted params) : ∀ p ∈ typeParamsAll ts, p ∈ params := by
  cases ts with
  | nil => simp [typeParamsAll]
  | cons t ts =>
      rw [List.forall_mem_cons] at h
      rw [typeParamsAll, List.forall_mem_append]
      exact ⟨typeParams_of_accepted t h.1, typeParamsAll_of_accepted ts h.2⟩

end

/-! ## Types that come out without aliases -/

section

variable (params : List TypeParam) (args : List BondType)

/-- The arguments of the struct that are used are free of aliases, and so is what every alias stands
    for, resolved down to its first constructor, with the arguments it uses. -/
inductive Settles : BondType → Prop
  | basic (b : BasicType) : Settles (.basic b)
  | container {kind : ContainerKind} {t : BondType} : Settles t → Settles (.container kind t)
  | map {k t : BondType} : Settles k → Settles t → Settles (.map k t)
  | intTypeArg (n : Int64) : Settles (.intTypeArg n)
  | typeParam {p : TypeParam} : (argument params args p).aliasFree = true → Settles (.typeParam p)
  | userDefined {decl : Declaration} {args' : List BondType} : decl.isAlias = false →
      (∀ t ∈ args', Settles t) → Settles (.userDefined decl args')
  | typeAlias {namespaces : List Namespace} {name : String} {params' : List TypeParam}
      {type : BondType} {args' : List BondType} : (∀ p, type.resolved ≠ .typeParam p) →
      type.resolved.aliasFree = true →
      (∀ p ∈ type.resolved.typeParams, Settles (argument params' args' p)) →
      Settles (aliased namespaces name params' type args')
  -- an alias of its parameter: what it is applied to is resolved once more
  | identity {namespaces : List Namespace} {name : String} {params' : List TypeParam}
      {type : BondType} {args' : List BondType} {p : TypeParam} : type.resolved = .typeParam p →
      Settles (argument params' args' p) →
      Settles (aliased namespaces name params' type args')
  | identityParam {namespaces : List Namespace} {name : String} {params' : List TypeParam}
      {type : BondType} {args' : List BondType} {p q : TypeParam} : type.resolved = .typeParam p →
      argument params' args' p = .typeParam q →
      (argument params args q).resolved.aliasFree = true →
      Settles (aliased namespaces name params' type args')

end

section

variable {params : List TypeParam} {args : List BondType} (hlength : args.length = params.length)
  (hargs : ∀ t ∈ args, t.Accepted [])

include hlength hargs

/-- An alias comes out as the type it stands for, with its resolved arguments. -/
theorem resolveType_aliased {namespaces : List Namespace} {name : String} {params' : List TypeParam}
    {type : BondType} {args' : List BondType}
    (h : (aliased namespaces name params' type args').Accepted params) :
    resolveType params args (aliased namespaces name params' type args') =
      (type.resolved.substitute fun p =>
        argument params' (args'.map (resolveType params args)) p).resolved := by
  obtain ⟨hparts, heq⟩ := resolveType_eq_resolved hlength hargs h (by simp [aliased])
  cases h with
  | userDefined hdecl _ _ _ =>
      cases hdecl with
      | typeAlias htype =>
          rw [heq, resolveParts]
          change (aliased namespaces name params' type _).resolved = _
          rw [resolved_alias, resolveAlias_eq_substitute, resolved_substitute _ htype]

omit hlength hargs in
theorem isAlias_substitute (ρ : TypeParam → BondType) {t : BondType}
    (h : ∀ p, t ≠ .typeParam p) : (t.substitute ρ).isAlias = t.isAlias := by
  cases t with
  | typeParam p => exact absurd rfl (h p)
  | _ => rfl

omit hlength hargs in
theorem argument_map {params' : List TypeParam} {args' : List BondType} {p : TypeParam}
    (f : BondType → BondType) (hcount : args'.length = params'.length) (hp : p ∈ params') :
    argument params' (args'.map f) p = f (argument params' args' p) := by
  obtain ⟨t, -, hlookup⟩ := lookup_zip_of_mem hcount hp
  rw [argument, argument, resolveParam, resolveParam, lookup_zip_map, hlookup]
  rfl

/-- What comes out for a type that is no parameter is resolved. -/
theorem resolved_resolveType {t : BondType} (h : t.Accepted params) (hparam : ∀ p, t ≠ .typeParam p) :
    (resolveType params args t).resolved = resolveType params args t := by
  rw [(resolveType_eq_resolved hlength hargs h hparam).2, resolved_resolved]

omit hlength hargs in
/-- What is free of aliases is resolved. -/
theorem resolved_of_aliasFree {t : BondType} (h : t.aliasFree = true) : t.resolved = t :=
  resolved_of_not_isAlias (not_isAlias_of_aliasFree h)

/-- The case of an alias, for arguments that it is known of. -/
theorem aliasFree_aliased_iff {namespaces : List Namespace} {name : String}
    {params' : List TypeParam} {type : BondType} {args' : List BondType}
    (h : (aliased namespaces name params' type args').Accepted params)
    (ih : ∀ a ∈ args', (resolveType params args a).aliasFree = true ↔ Settles params args a) :
    (resolveType params args (aliased namespaces name params' type args')).aliasFree = true ↔
      Settles params args (aliased namespaces name params' type args') := by
  rw [resolveType_aliased hlength hargs h]
  cases h with
  | userDefined hdecl _ hcount hargs' =>
  cases hdecl with
  | typeAlias htype =>
  have htype' : type.resolved.Accepted params' := htype.resolved
  have hmap : ∀ p ∈ params', argument params' (args'.map (resolveType params args)) p =
      resolveType params args (argument params' args' p) :=
    fun p hp => argument_map _ hcount hp
  have hmem : ∀ p ∈ params', argument params' args' p ∈ args' :=
    fun p hp => argument_of_mem hcount hp
  by_cases hparam : ∀ p, type.resolved ≠ .typeParam p
  · -- the type is resolved, with the arguments inside of it
    have hnot : (type.resolved.substitute fun p =>
        argument params' (args'.map (resolveType params args)) p).isAlias = false := by
      rw [isAlias_substitute _ hparam]
      exact isAlias_resolved type
    rw [resolved_of_not_isAlias hnot, aliasFree_substitute]
    have hused := typeParams_of_accepted _ htype'
    constructor
    · rintro ⟨hfree, hfrees⟩
      refine .typeAlias hparam hfree fun p hp => ?_
      have hp' := hused p hp
      exact (ih _ (hmem p hp')).1 (hmap p hp' ▸ hfrees p hp)
    · intro hsettles
      cases hsettles with
      | userDefined halias => cases halias
      | typeAlias _ hfree hsettles =>
          refine ⟨hfree, fun p hp => ?_⟩
          have hp' := hused p hp
          rw [hmap p hp']
          exact (ih _ (hmem p hp')).2 (hsettles p hp)
      | identity heq => exact absurd heq (hparam _)
      | identityParam heq => exact absurd heq (hparam _)
  · -- the argument takes the place of the alias
    simp only [not_forall, not_not] at hparam
    obtain ⟨p, heq⟩ := hparam
    have hp : p ∈ params' := by
      rw [heq] at htype'
      cases htype' with
      | typeParam hp => exact hp
    rw [heq]
    change (argument params' (args'.map (resolveType params args)) p).resolved.aliasFree = true ↔ _
    rw [hmap p hp]
    have hsettled : Settles params args (argument params' args' p) →
        (resolveType params args (argument params' args' p)).resolved.aliasFree = true := by
      intro hsettles
      have hfree := (ih _ (hmem p hp)).2 hsettles
      rwa [resolved_of_aliasFree hfree]
    constructor
    · intro hfree
      by_cases harg : ∀ q, argument params' args' p ≠ .typeParam q
      · rw [resolved_resolveType hlength hargs (hargs' _ (hmem p hp)) harg] at hfree
        exact .identity heq ((ih _ (hmem p hp)).1 hfree)
      · simp only [not_forall, not_not] at harg
        obtain ⟨q, harg⟩ := harg
        rw [harg, resolveType_typeParam] at hfree
        exact .identityParam heq harg hfree
    · intro hsettles
      cases hsettles with
      | userDefined halias => cases halias
      | typeAlias hne => exact absurd heq (hne p)
      | identity heq' hsettles =>
          cases heq.symm.trans heq'
          exact hsettled hsettles
      | identityParam heq' harg hfree =>
          cases heq.symm.trans heq'
          rw [harg, resolveType_typeParam]
          exact hfree

-- The induction is on the type, with the arguments of aliases and structs.
mutual

theorem aliasFree_resolveType_iff (t : BondType) (h : t.Accepted params) :
    (resolveType params args t).aliasFree = true ↔ Settles params args t := by
  cases t with
  | basic b => exact ⟨fun _ => .basic b, fun _ => rfl⟩
  | intTypeArg n => exact ⟨fun _ => .intTypeArg n, fun _ => rfl⟩
  | typeParam p =>
      rw [resolveType_typeParam]
      refine ⟨.typeParam, fun hsettles => ?_⟩
      cases hsettles with
      | typeParam hfree => exact hfree
  | container kind t =>
      cases h with
      | container ht =>
          have ih := aliasFree_resolveType_iff t ht
          refine ⟨fun hfree => .container (ih.1 hfree), fun hsettles => ?_⟩
          cases hsettles with
          | container hsettles => exact ih.2 hsettles
  | map k t =>
      cases h with
      | map hk ht =>
          have ihk := aliasFree_resolveType_iff k hk
          have iht := aliasFree_resolveType_iff t ht
          change ((resolveType params args k).aliasFree && (resolveType params args t).aliasFree) =
            true ↔ _
          rw [Bool.and_eq_true, ihk, iht]
          refine ⟨fun hsettles => .map hsettles.1 hsettles.2, fun hsettles => ?_⟩
          cases hsettles with
          | map hsk hst => exact ⟨hsk, hst⟩
  | userDefined decl args' =>
      have hargs'' : ∀ a ∈ args', a.Accepted params := by
        cases h with
        | userDefined _ _ _ hargs' => exact hargs'
      have ih := aliasFree_resolveTypes_iff args' hargs''
      cases halias : decl.isAlias with
      | true =>
          cases decl with
          | typeAlias namespaces name params' type => exact aliasFree_aliased_iff hlength hargs h ih
          | _ => cases halias
      | false =>
          have hnot : (resolveParts params args (.userDefined decl args')).isAlias = false := halias
          rw [(resolveType_eq_resolved hlength hargs h (by simp)).2, resolved_of_not_isAlias hnot,
            resolveParts, BondType.aliasFree, halias, Bool.not_false, Bool.true_and, aliasFreeAll_iff,
            List.forall_mem_map]
          constructor
          · exact fun hfrees => .userDefined halias fun a ha => (ih a ha).1 (hfrees a ha)
          · intro hsettles a ha
            cases hsettles with
            | userDefined _ hsettles => exact (ih a ha).2 (hsettles a ha)
            | typeAlias | identity | identityParam => cases halias

theorem aliasFree_resolveTypes_iff (ts : List BondType) (h : ∀ t ∈ ts, t.Accepted params) :
    ∀ t ∈ ts, (resolveType params args t).aliasFree = true ↔ Settles params args t := by
  cases ts with
  | nil => simp
  | cons t ts =>
      rw [List.forall_mem_cons] at h ⊢
      exact ⟨aliasFree_resolveType_iff t h.1, aliasFree_resolveTypes_iff ts h.2⟩

end

/-- What comes out has no parameters. -/
theorem typeParams_resolveType {t : BondType} (h : t.Accepted params) (p : TypeParam) :
    p ∉ (resolveType params args t).typeParams := by
  intro hp
  have hclosed := accepted_resolveType hlength hargs t h
  simpa using typeParams_of_accepted _ hclosed p hp

/-- What comes out is the type that the arguments and the aliases say. -/
theorem norm_resolveType_substitute {t : BondType} (h : t.Accepted params) :
    (resolveType params args t).norm = (t.substitute (argument params args)).norm := by
  rw [BondType.norm, normWith_resolveType .typeParam hlength hargs t h, BondType.norm,
    ← fmapType_eq_substitute, normWith_resolveParam .typeParam hlength t h]

end

/-! ## Fields -/

/-- A type comes out without aliases and parameters of the struct, and is what it is with the
    arguments substituted and all aliases expanded. -/
def ResolvesFully (params : List TypeParam) (args : List BondType) (t : BondType) : Prop :=
  (resolveType params args t).aliasFree = true ∧
    (∀ p ∈ params, p ∉ (resolveType params args t).typeParams) ∧
    (resolveType params args t).norm = (t.substitute (argument params args)).norm

/-- The field of a struct is resolved fully exactly if no alias is left inside of one. -/
theorem resolvesFully_iff {namespaces : List Namespace} {attributes : List Attribute} {name : String}
    {params : List TypeParam} {base : Option BondType} {fields : List Field} {args : List BondType}
    {f : Field}
    (hdecl : (Declaration.struct namespaces attributes name params base fields).Accepted)
    (hlength : args.length = params.length) (hargs : ∀ t ∈ args, t.Accepted [])
    (hf : f ∈ fields) :
    ResolvesFully params args f.fieldType ↔ Settles params args f.fieldType := by
  have htype : f.fieldType.Accepted params := by
    cases hdecl with
    | struct _ _ _ hfields => exact hfields f hf
  rw [ResolvesFully, aliasFree_resolveType_iff hlength hargs _ htype]
  refine ⟨fun h => h.1, fun h => ⟨h, fun p _ => ?_, norm_resolveType_substitute hlength hargs htype⟩⟩
  exact typeParams_resolveType hlength hargs htype p

/-! ## A list behind two aliases -/

/-- An alias of a list, an alias with that alias inside of it, and a struct with a field of each. -/
def schemaText : String :=
  "namespace n using I<T>=list<T>;using O<T>=vector<I<T>>;struct A<T>{0:I<T> a;}struct B<T>{0:O<T> b;}"

def inList (t : BondType) : BondType :=
  aliased [⟨none, ["n"]⟩] "I" [tParam] (.container .list (.typeParam tParam)) [t]

def outVector (t : BondType) : BondType :=
  aliased [⟨none, ["n"]⟩] "O" [tParam] (.container .vector (inList (.typeParam tParam))) [t]

def aField : Field :=
  .mk [] 0 .optional (inList (.typeParam tParam)) "a" none

def bField : Field :=
  .mk [] 0 .optional (outVector (.typeParam tParam)) "b" none

def aStruct : Declaration :=
  .struct [⟨none, ["n"]⟩] [] "A" [tParam] none [aField]

def bStruct : Declaration :=
  .struct [⟨none, ["n"]⟩] [] "B" [tParam] none [bField]

set_option maxRecDepth 10000 in
theorem structs_of_schemaText :
    (declarationsOf schemaText 12).map (List.drop 2) = some [aStruct, bStruct] := by
  rewrite [schemaText, declarationsOf_ofList]
  decide +kernel

theorem accepted_aStruct : aStruct.Accepted := by
  have hstructs := structs_of_schemaText
  rcases hdecls : declarationsOf schemaText 12 with _ | decls
  · rw [hdecls] at hstructs
    cases hstructs
  rw [hdecls, Option.map_some, Option.some.injEq] at hstructs
  obtain ⟨consumed, schema, s, rest, rfl, hparse⟩ := parse_of_declarationsOf hdecls
  obtain ⟨ds, hruns, hmem⟩ := runs_of_parseBond hparse
  have haStruct : aStruct ∈ schema.bondDeclarations.drop 2 := by simp [hstructs]
  obtain ⟨d, hd, heq⟩ := List.mem_map.1 (hmem _ (List.mem_of_mem_drop haStruct))
  exact heq ▸ (hruns.accepted (by simp)).2 d hd

theorem resolvesFully_aField : ResolvesFully [tParam] [.basic .int32] aField.fieldType := by
  have hargs : ∀ t ∈ [BondType.basic .int32], t.Accepted [] := by
    simpa using BondType.Accepted.basic .int32
  refine (resolvesFully_iff accepted_aStruct rfl hargs List.mem_cons_self).2 ?_
  have hlist : (BondType.container .list (.typeParam tParam)).resolved =
      .container .list (.typeParam tParam) := rfl
  refine .typeAlias (fun p => by rw [hlist]; simp) rfl fun p hp => ?_
  obtain rfl : p = tParam := List.mem_singleton.1 hp
  exact .typeParam rfl

/-- The field that has an alias inside of an alias keeps it, and there is no schema of the struct. -/
theorem bField_not_resolved :
    (declarationsOf schemaText 12).map (List.drop 2) = some [aStruct, bStruct] ∧
    bField ∈ bStruct.structFields ∧
    resolveType [tParam] [.basic .int32] bField.fieldType =
      .container .vector (inList (.basic .int32)) ∧
    ¬ResolvesFully [tParam] [.basic .int32] bField.fieldType ∧
    (makeSchemaDef (fun _ => .nan) (.userDefined bStruct [.basic .int32])).isOk = false := by
  refine ⟨structs_of_schemaText, by simp [bStruct, Declaration.structFields], by decide +kernel, ?_,
    by decide +kernel⟩
  rintro ⟨hfree, -⟩
  revert hfree
  decide +kernel

end Bond.Compiler

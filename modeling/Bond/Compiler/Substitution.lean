import Bond.Compiler.EnumValues
import Bond.Compiler.Normal
import Mathlib.Data.List.Forall2
import Mathlib.Logic.Relation

set_option autoImplicit false

/-! # Aliases as substitutions

`resolveAlias` replaces the parameters in the type of an alias bottom-up by a lookup. It is the
simultaneous substitution of the arguments, which commutes with other substitutions, and it comes to
an end when it is repeated. -/

namespace Bond.Compiler

open Bond.Lib

/-! ## Substitution -/

-- Every parameter is replaced at once. What is put in is not looked at again, and declarations, which
-- have parameters of their own, are left alone.
mutual

def BondType.substitute (ρ : TypeParam → BondType) : BondType → BondType
  | .basic b => .basic b
  | .container kind t => .container kind (t.substitute ρ)
  | .map k t => .map (k.substitute ρ) (t.substitute ρ)
  | .intTypeArg n => .intTypeArg n
  | .typeParam p => ρ p
  | .userDefined decl args => .userDefined decl (substituteAll ρ args)

def substituteAll (ρ : TypeParam → BondType) : List BondType → List BondType
  | [] => []
  | t :: ts => t.substitute ρ :: substituteAll ρ ts

end

theorem substituteAll_eq_map (ρ : TypeParam → BondType) (ts : List BondType) :
    substituteAll ρ ts = ts.map (BondType.substitute ρ) := by
  induction ts with
  | nil => rfl
  | cons t ts ih => rw [substituteAll, ih, List.map_cons]

/-- An argument for a parameter: that at the first place where the parameter is declared. -/
def ArgumentOf (params : List TypeParam) (args : List BondType) (p : TypeParam) (t : BondType) :
    Prop :=
  ∃ i : Nat, params[i]? = some p ∧ (∀ j < i, params[j]? ≠ some p) ∧ args[i]? = some t

/-- A type with the parameters replaced by what the relation has for them, at every place. -/
inductive Substituted (A : TypeParam → BondType → Prop) : BondType → BondType → Prop
  | basic (b : BasicType) : Substituted A (.basic b) (.basic b)
  | container {kind : ContainerKind} {t t' : BondType} :
      Substituted A t t' → Substituted A (.container kind t) (.container kind t')
  | map {k k' t t' : BondType} :
      Substituted A k k' → Substituted A t t' → Substituted A (.map k t) (.map k' t')
  | intTypeArg (n : Int64) : Substituted A (.intTypeArg n) (.intTypeArg n)
  | typeParam {p : TypeParam} {t : BondType} : A p t → Substituted A (.typeParam p) t
  | userDefined {decl : Declaration} {args args' : List BondType} :
      List.Forall₂ (Substituted A) args args' →
      Substituted A (.userDefined decl args) (.userDefined decl args')

/-! ## The substitution of an alias -/

mutual

theorem fmapType_eq_substitute (params : List TypeParam) (args : List BondType) (t : BondType) :
    t.fmapType (resolveParam params args) = t.substitute (argument params args) := by
  cases t with
  | basic | intTypeArg | typeParam => rfl
  | container kind t =>
      have ih := fmapType_eq_substitute params args t
      simp only [BondType.fmapType, resolveParam, BondType.substitute, ih]
  | map k t =>
      have ihk := fmapType_eq_substitute params args k
      have iht := fmapType_eq_substitute params args t
      simp only [BondType.fmapType, resolveParam, BondType.substitute, ihk, iht]
  | userDefined decl args' =>
      have ih := fmapTypes_eq_substituteAll params args args'
      simp only [BondType.fmapType, resolveParam, BondType.substitute, ih]

theorem fmapTypes_eq_substituteAll (params : List TypeParam) (args ts : List BondType) :
    fmapTypes (resolveParam params args) ts = substituteAll (argument params args) ts := by
  cases ts with
  | nil => rfl
  | cons t ts =>
      have iht := fmapType_eq_substitute params args t
      have ihts := fmapTypes_eq_substituteAll params args ts
      simp only [fmapTypes, substituteAll, iht, ihts]

end

theorem resolveAlias_eq_substitute (params : List TypeParam) (type : BondType)
    (args : List BondType) :
    resolveAlias params type args = type.substitute (argument params args) :=
  fmapType_eq_substitute params args type

/-- The first argument is found, and no other one. -/
theorem argumentOf_iff {params : List TypeParam} {args : List BondType} {p : TypeParam}
    (hlength : args.length = params.length) (hp : p ∈ params) (t : BondType) :
    ArgumentOf params args p t ↔ t = argument params args p := by
  have hlookup : ∀ (params : List TypeParam) (args : List BondType),
      args.length = params.length →
      (ArgumentOf params args p t ↔ (params.zip args).lookup p = some t) := by
    intro params
    induction params with
    | nil => simp [ArgumentOf]
    | cons q params ih =>
        intro args hlength
        rcases args with _ | ⟨arg, args⟩
        · cases hlength
        rw [List.zip_cons_cons, List.lookup_cons]
        by_cases hq : p = q
        · subst hq
          simp only [BEq.rfl, Option.some.injEq]
          constructor
          · rintro ⟨i, -, hfirst, harg⟩
            rcases i with _ | i
            · simpa using harg
            · exact absurd rfl (hfirst 0 (by omega))
          · rintro rfl
            exact ⟨0, rfl, by simp, rfl⟩
        · have hne : (p == q) = false := beq_false_of_ne hq
          rw [hne, ← ih args (Nat.succ.inj hlength)]
          constructor
          · rintro ⟨i, hi, hfirst, harg⟩
            rcases i with _ | i
            · exact absurd (Option.some.inj hi).symm hq
            · exact ⟨i, hi, fun j hj => hfirst (j + 1) (by omega), harg⟩
          · rintro ⟨i, hi, hfirst, harg⟩
            refine ⟨i + 1, hi, fun j hj => ?_, harg⟩
            rcases j with _ | j
            · simpa using Ne.symm hq
            · exact hfirst j (by omega)
  obtain ⟨t', -, ht'⟩ := lookup_zip_of_mem hlength hp
  rw [hlookup params args hlength, argument, resolveParam, ht']
  simp [eq_comm]

-- With an argument for every parameter there is one substituted type.
mutual

theorem substituted_iff {A : TypeParam → BondType → Prop} {ρ : TypeParam → BondType}
    {params : List TypeParam} (hA : ∀ p ∈ params, ∀ t, A p t ↔ t = ρ p) (t : BondType)
    (h : t.Accepted params) (t' : BondType) : Substituted A t t' ↔ t' = t.substitute ρ := by
  cases t with
  | basic b =>
      refine ⟨fun hs => by cases hs; rfl, ?_⟩
      rintro rfl
      exact .basic b
  | intTypeArg n =>
      refine ⟨fun hs => by cases hs; rfl, ?_⟩
      rintro rfl
      exact .intTypeArg n
  | container kind t =>
      cases h with
      | container ht =>
          have ih := substituted_iff hA t ht
          refine ⟨fun hs => ?_, ?_⟩
          · cases hs with
            | container hs => rw [BondType.substitute, (ih _).1 hs]
          · rintro rfl
            exact .container ((ih _).2 rfl)
  | map k t =>
      cases h with
      | map hk ht =>
          have ihk := substituted_iff hA k hk
          have iht := substituted_iff hA t ht
          refine ⟨fun hs => ?_, ?_⟩
          · cases hs with
            | map hsk hst => rw [BondType.substitute, (ihk _).1 hsk, (iht _).1 hst]
          · rintro rfl
            exact .map ((ihk _).2 rfl) ((iht _).2 rfl)
  | typeParam p =>
      cases h with
      | typeParam hp =>
          refine ⟨fun hs => ?_, fun ht => .typeParam ((hA p hp t').2 ht)⟩
          cases hs with
          | typeParam hA' => exact (hA p hp t').1 hA'
  | userDefined decl args =>
      cases h with
      | userDefined _ _ _ hargs =>
          have ih := substitutedAll_iff hA args hargs
          refine ⟨fun hs => ?_, ?_⟩
          · cases hs with
            | userDefined hs => rw [BondType.substitute, (ih _).1 hs]
          · rintro rfl
            exact .userDefined ((ih _).2 rfl)

theorem substitutedAll_iff {A : TypeParam → BondType → Prop} {ρ : TypeParam → BondType}
    {params : List TypeParam} (hA : ∀ p ∈ params, ∀ t, A p t ↔ t = ρ p) (ts : List BondType)
    (h : ∀ t ∈ ts, t.Accepted params) (ts' : List BondType) :
    List.Forall₂ (Substituted A) ts ts' ↔ ts' = substituteAll ρ ts := by
  cases ts with
  | nil => simp [substituteAll, List.forall₂_nil_left_iff]
  | cons t ts =>
      rw [List.forall_mem_cons] at h
      have iht := substituted_iff hA t h.1
      have ihts := substitutedAll_iff hA ts h.2
      rw [List.forall₂_cons_left_iff]
      simp [iht, ihts, substituteAll]

end

/-! ## Two substitutions -/

mutual

/-- Two substitutions after one another are one. -/
theorem substitute_substitute (ρ τ : TypeParam → BondType) (t : BondType) :
    (t.substitute ρ).substitute τ = t.substitute fun p => (ρ p).substitute τ := by
  cases t with
  | basic | intTypeArg | typeParam => rfl
  | container kind t =>
      have ih := substitute_substitute ρ τ t
      simp only [BondType.substitute, ih]
  | map k t =>
      have ihk := substitute_substitute ρ τ k
      have iht := substitute_substitute ρ τ t
      simp only [BondType.substitute, ihk, iht]
  | userDefined decl args =>
      have ih := substituteAll_substituteAll ρ τ args
      simp only [BondType.substitute, ih]

theorem substituteAll_substituteAll (ρ τ : TypeParam → BondType) (ts : List BondType) :
    substituteAll τ (substituteAll ρ ts) = substituteAll (fun p => (ρ p).substitute τ) ts := by
  cases ts with
  | nil => rfl
  | cons t ts =>
      have iht := substitute_substitute ρ τ t
      have ihts := substituteAll_substituteAll ρ τ ts
      simp only [substituteAll, iht, ihts]

end

mutual

/-- Only the parameters of a type count. -/
theorem substitute_congr {ρ τ : TypeParam → BondType} {params : List TypeParam}
    (hρ : ∀ p ∈ params, ρ p = τ p) (t : BondType) (h : t.Accepted params) :
    t.substitute ρ = t.substitute τ := by
  cases t with
  | basic | intTypeArg => rfl
  | typeParam p =>
      cases h with
      | typeParam hp => exact hρ p hp
  | container kind t =>
      cases h with
      | container ht =>
          have ih := substitute_congr hρ t ht
          simp only [BondType.substitute, ih]
  | map k t =>
      cases h with
      | map hk ht =>
          have ihk := substitute_congr hρ k hk
          have iht := substitute_congr hρ t ht
          simp only [BondType.substitute, ihk, iht]
  | userDefined decl args =>
      cases h with
      | userDefined _ _ _ hargs =>
          have ih := substituteAll_congr hρ args hargs
          simp only [BondType.substitute, ih]

theorem substituteAll_congr {ρ τ : TypeParam → BondType} {params : List TypeParam}
    (hρ : ∀ p ∈ params, ρ p = τ p) (ts : List BondType) (h : ∀ t ∈ ts, t.Accepted params) :
    substituteAll ρ ts = substituteAll τ ts := by
  cases ts with
  | nil => rfl
  | cons t ts =>
      rw [List.forall_mem_cons] at h
      have iht := substitute_congr hρ t h.1
      have ihts := substituteAll_congr hρ ts h.2
      simp only [substituteAll, iht, ihts]

end

theorem argument_substituteAll {params : List TypeParam} {args : List BondType} {p : TypeParam}
    (ρ : TypeParam → BondType) (hlength : args.length = params.length) (hp : p ∈ params) :
    argument params (substituteAll ρ args) p = (argument params args p).substitute ρ := by
  obtain ⟨t, -, hlookup⟩ := lookup_zip_of_mem hlength hp
  rw [argument, argument, resolveParam, resolveParam, substituteAll_eq_map, lookup_zip_map, hlookup]
  rfl

/-- A substitution in the arguments of an alias is one in what it stands for. -/
theorem resolveAlias_substituteAll {params : List TypeParam} {type : BondType}
    {args : List BondType} (ρ : TypeParam → BondType) (htype : type.Accepted params)
    (hlength : args.length = params.length) :
    resolveAlias params type (substituteAll ρ args) = (resolveAlias params type args).substitute ρ := by
  rw [resolveAlias_eq_substitute, resolveAlias_eq_substitute, substitute_substitute]
  exact substitute_congr (fun p hp => argument_substituteAll ρ hlength hp) type htype

/-! ## Chains of aliases -/

/-- An alias with its arguments. -/
abbrev aliased (namespaces : List Namespace) (name : String) (params : List TypeParam)
    (type : BondType) (args : List BondType) : BondType :=
  .userDefined (.typeAlias namespaces name params type) args

/-- An alias and what it stands for, which may be an alias. -/
inductive AliasStep : BondType → BondType → Prop
  | step (namespaces : List Namespace) (name : String) (params : List TypeParam) (type : BondType)
      (args : List BondType) :
      AliasStep (aliased namespaces name params type args) (resolveAlias params type args)

/-- From alias to alias there is no endless chain, and the one from a type ends with what it is
    resolved to. -/
def ResolvesTo (t t' : BondType) : Prop :=
  WellFounded (fun u' u => AliasStep u u') ∧ Relation.ReflTransGen AliasStep t t' ∧
    ∀ u, ¬AliasStep t' u

theorem wellFounded_aliasStep : WellFounded fun t' t => AliasStep t t' := by
  refine Subrelation.wf ?_ (measure BondType.weight).wf
  intro t' t h
  cases h with
  | step namespaces name params type args =>
      change (resolveAlias params type args).weight < BondType.weight _
      rw [weight_alias]
      exact Nat.lt_succ_self _

theorem aliasStep_resolved (t : BondType) : Relation.ReflTransGen AliasStep t t.resolved := by
  induction t using wellFounded_aliasStep.induction with
  | _ t ih =>
      cases halias : t.isAlias with
      | false => rw [resolved_of_not_isAlias halias]
      | true =>
          rcases t with _ | _ | _ | _ | _ | ⟨decl, args⟩
          all_goals try cases halias
          rcases decl with _ | _ | _ | ⟨namespaces, name, params, type⟩ | _
          all_goals try cases halias
          rw [resolved_alias]
          have hstep := AliasStep.step namespaces name params type args
          exact .head hstep (ih _ hstep)

theorem not_aliasStep_resolved (t t' : BondType) : ¬AliasStep t.resolved t' := by
  intro h
  have hnot := isAlias_resolved t
  generalize t.resolved = u at h hnot
  cases h
  cases hnot

/-- A substitution before the aliases are resolved is one behind it. -/
theorem resolved_substitute {outer : List TypeParam} (ρ : TypeParam → BondType) {t : BondType}
    (h : t.Accepted outer) : (t.substitute ρ).resolved = (t.resolved.substitute ρ).resolved := by
  induction t using wellFounded_aliasStep.induction with
  | _ t ih =>
      cases halias : t.isAlias with
      | false => rw [resolved_of_not_isAlias halias]
      | true =>
          rcases t with _ | _ | _ | _ | _ | ⟨decl, args⟩
          all_goals try cases halias
          rcases decl with _ | _ | _ | ⟨namespaces, name, params, type⟩ | _
          all_goals try cases halias
          have hnext := ih _ (.step namespaces name params type args) h.resolveAlias
          cases h with
          | userDefined hdecl _ hcount _ =>
              cases hdecl with
              | typeAlias htype =>
                  rw [resolved_alias, ← hnext, ← resolveAlias_substituteAll ρ htype hcount]
                  exact resolved_alias namespaces name params type (substituteAll ρ args)

/-! ## The aliases of a file -/

section

variable {charClasses : CharClasses} {scientific : Scientific}
  {resolveImport : String → String → Except String (String × List Char)} {content rest : List Char}
  {file : String} {n : Nat} {consumed : Bool} {schema : BondSchema} {s : Symbols}

theorem accepted_of_parseBond (h : parseBond charClasses scientific resolveImport content file n =
    .ok consumed schema s rest) : ∀ decl ∈ s.symbols, decl.Accepted :=
  forall_of_parseBond grammar_accepted h

/-- For the aliases of an accepted file and its imports, with any arguments: they are resolved by
    the simultaneous substitution of the arguments for the parameters; repeating it comes to an end,
    with a type that is no alias; and substitutions commute with it, once and to the end. -/
theorem resolveAlias_substitutes
    (h : parseBond charClasses scientific resolveImport content file n =
      .ok consumed schema s rest)
    {namespaces : List Namespace} {name : String} {params : List TypeParam} {type : BondType}
    (halias : .typeAlias namespaces name params type ∈ s.symbols)
    {args : List BondType} (hlength : args.length = params.length) :
    (∀ t, Substituted (ArgumentOf params args) type t ↔ t = resolveAlias params type args) ∧
    ResolvesTo (aliased namespaces name params type args)
      (aliased namespaces name params type args).resolved ∧
    (∀ ρ, resolveAlias params type (substituteAll ρ args) =
      (resolveAlias params type args).substitute ρ) ∧
    ∀ outer ρ, (∀ t ∈ args, t.Accepted outer) →
      ((aliased namespaces name params type args).substitute ρ).resolved =
        ((aliased namespaces name params type args).resolved.substitute ρ).resolved := by
  have haccepted := accepted_of_parseBond h _ halias
  have htype : type.Accepted params := by
    cases haccepted with
    | typeAlias htype => exact htype
  refine ⟨fun t => ?_, ⟨wellFounded_aliasStep, aliasStep_resolved _, not_aliasStep_resolved _⟩,
    fun ρ => resolveAlias_substituteAll ρ htype hlength, fun outer ρ hargs => ?_⟩
  · rw [resolveAlias_eq_substitute]
    exact substituted_iff (fun p hp => argumentOf_iff hlength hp) type htype t
  · exact resolved_substitute ρ (.userDefined haccepted rfl hlength hargs)

end

/-! ## An alias of sets -/

def tParam : TypeParam :=
  ⟨"T", none⟩

/-- A text with an alias that has a parameter. -/
def aliasText : List Char :=
  "namespace n using Sets<T>=list<set<T>>;".toList

def symbolsOf {α : Type} : Reply Symbols α → Option (List Declaration)
  | .ok _ _ s _ => some s.symbols
  | _ => none

theorem ok_of_symbolsOf {r : Reply Symbols BondSchema} {symbols : List Declaration}
    (h : symbolsOf r = some symbols) :
    ∃ consumed schema s rest, r = .ok consumed schema s rest ∧ s.symbols = symbols := by
  cases r with
  | ok consumed schema s rest => exact ⟨consumed, schema, s, rest, rfl, Option.some.inj h⟩
  | error | abort => cases h

set_option maxRecDepth 10000 in
/-- An argument that is made of another parameter of the same name. -/
theorem resolveAlias_sets :
    Substituted (ArgumentOf [tParam] [.container .vector (.typeParam tParam)])
      (.container .list (.container .set (.typeParam tParam)))
      (.container .list (.container .set (.container .vector (.typeParam tParam)))) := by
  have hsymbols : symbolsOf (parseBond asciiClasses ⟨fun v => v, fun _ => .nan⟩
      (fun _ _ => .error "no file") aliasText "text" 30) =
      some [.typeAlias [⟨none, ["n"]⟩] "Sets" [tParam]
        (.container .list (.container .set (.typeParam tParam)))] := by
    have htext : aliasText = _ := String.toList_ofList
    rewrite [htext]
    decide +kernel
  obtain ⟨consumed, schema, s, rest, hparse, hs⟩ := ok_of_symbolsOf hsymbols
  exact ((resolveAlias_substitutes hparse (hs ▸ List.mem_cons_self) rfl).1 _).2 rfl

end Bond.Compiler

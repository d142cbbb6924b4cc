import Bond.Compiler.ParserRuns

set_option autoImplicit false

/-! # Base types

The base clause of a struct takes any user type; what that says of the structs that are parsed. -/

namespace Bond.Compiler

/-! ## Types that are structs -/

/-- A struct or a forward declaration, once its aliases are resolved. -/
inductive RefersToStruct : BondType → Prop
  | struct {namespaces : List Namespace} {attributes : List Attribute} {name : String}
      {params : List TypeParam} {base : Option BondType} {fields : List Field}
      {args : List BondType} :
      RefersToStruct (.userDefined (.struct namespaces attributes name params base fields) args)
  | forward {namespaces : List Namespace} {name : String} {params : List TypeParam}
      {args : List BondType} : RefersToStruct (.userDefined (.forward namespaces name params) args)
  | typeAlias {namespaces : List Namespace} {name : String} {params : List TypeParam}
      {type : BondType} {args : List BondType} :
      RefersToStruct (resolveAlias params type args) →
      RefersToStruct (.userDefined (.typeAlias namespaces name params type) args)

/-- `isStruct` passes on what an alias resolves to. -/
theorem isStruct_alias (namespaces : List Namespace) (name : String) (params : List TypeParam)
    (type : BondType) (args : List BondType) :
    (BondType.userDefined (.typeAlias namespaces name params type) args).isStruct =
      (resolveAlias params type args).isStruct := by
  rw [BondType.isStruct, BondType.isStruct, resolved_alias]

theorem isStruct_of_refersToStruct {t : BondType} (h : RefersToStruct t) : t.isStruct = true := by
  induction h with
  | struct | forward => rfl
  | typeAlias _ ih =>
      rw [isStruct_alias]
      exact ih

theorem refersToStruct_of_isStruct {t : BondType} (h : t.isStruct = true) : RefersToStruct t := by
  induction hn : t.weight using Nat.strong_induction_on generalizing t with
  | _ n ih =>
      cases t with
      | userDefined decl args =>
          cases decl with
          | struct => exact .struct
          | forward => exact .forward
          | typeAlias namespaces name params type =>
              rw [isStruct_alias] at h
              rw [weight_alias] at hn
              exact .typeAlias (ih _ (by omega) h rfl)
          | enum | service => cases h
      | _ => cases h

/-- `isStruct` tests what it says. -/
theorem isStruct_iff (t : BondType) : t.isStruct = true ↔ RefersToStruct t :=
  ⟨refersToStruct_of_isStruct, isStruct_of_refersToStruct⟩

/-- The types of the language, and numbers for types: no declarations and no parameters. -/
def BondType.isBuiltIn (t : BondType) : Bool :=
  match t.resolved with
  | .basic _ | .container _ _ | .map _ _ | .intTypeArg _ => true
  | _ => false

/-- What an accepted type can be besides an enum and a type of the language. -/
theorem refersToStruct_or_param {params : List TypeParam} {t : BondType} (h : t.Accepted params)
    (henum : t.isEnum = false) (hbuiltIn : t.isBuiltIn = false) :
    RefersToStruct t ∨ ∃ p ∈ params, t.resolved = .typeParam p := by
  have hresolved := h.resolved
  cases ht : t.resolved with
  | typeParam p =>
      rw [ht] at hresolved
      cases hresolved with
      | typeParam hp => exact Or.inr ⟨p, hp, rfl⟩
  | userDefined decl args =>
      rw [ht] at hresolved
      cases decl with
      | struct | forward =>
          have hstruct : t.isStruct = true := by rw [BondType.isStruct, ht]
          exact Or.inl (refersToStruct_of_isStruct hstruct)
      | enum => simp [BondType.isEnum, ht] at henum
      | typeAlias => exact absurd ht (resolved_ne_alias t _ _ _ _ _)
      | service =>
          cases hresolved with
          | userDefined _ hservice _ _ => cases hservice
  | _ => simp [BondType.isBuiltIn, ht] at hbuiltIn

/-! ## Structs that are well formed -/

/-- The fields of a struct are ordered and different. Its base, if that is no enum and no type of the
    language, is a struct or one of its parameters. -/
structure Declaration.WellFormed (decl : Declaration) : Prop where
  fields : FieldsOk decl.structFields
  base : ∀ t, decl.structBase = some t → t.isEnum = false → t.isBuiltIn = false →
    RefersToStruct t ∨ ∃ p ∈ decl.declParams, t.resolved = .typeParam p

theorem Declaration.Accepted.wellFormed {decl : Declaration} (h : decl.Accepted) :
    decl.WellFormed := by
  cases h with
  | struct hbase hfields _ _ =>
      exact ⟨hfields, fun t ht henum hbuiltIn =>
        refersToStruct_or_param (hbase t ht) henum hbuiltIn⟩
  | _ => exact ⟨⟨.nil, .nil⟩, fun t ht => by cases ht⟩

/-- Every declaration of an accepted text, and of the files it imports, is well formed. -/
theorem wellFormed_of_parseBond {charClasses : CharClasses} {scientific : Scientific}
    {resolveImport : String → String → Except String (String × List Char)} {content rest : List Char}
    {file : String} {n : Nat} {consumed : Bool} {schema : BondSchema} {s : Symbols}
    (h : parseBond charClasses scientific resolveImport content file n =
      .ok consumed schema s rest) :
    ∃ ds, Runs [] ds s.symbols ∧
      (∀ decl ∈ schema.bondDeclarations, decl ∈ ds.map Definition.decl) ∧
      ∀ d ∈ ds, d.decl.WellFormed := by
  obtain ⟨ds, hruns, hdecls⟩ := runs_of_parseBond h
  exact ⟨ds, hruns, hdecls, fun d hd => ((hruns.accepted (by simp)).2 d hd).wellFormed⟩

set_option maxRecDepth 10000 in
/-- The declarations of a struct with a base, and of a view of it. -/
def derivedDeclarations : { decls // declarationsOf
    "namespace n struct A{}struct B:A{0:bool x;}struct C view_of B{x}" 30 = some decls } :=
  ⟨(declarationsOf "namespace n struct A{}struct B:A{0:bool x;}struct C view_of B{x}" 30).get (by
    rewrite [declarationsOf_ofList]
    decide +kernel), (Option.some_get _).symm⟩

/-- A struct with a base, and a view of it. -/
theorem wellFormed_derived : ∃ decls ds table, declarationsOf
      "namespace n struct A{}struct B:A{0:bool x;}struct C view_of B{x}" 30 = some decls ∧
      Runs [] ds table ∧ (∀ decl ∈ decls, decl ∈ ds.map Definition.decl) ∧
      ∀ d ∈ ds, d.decl.WellFormed := by
  obtain ⟨decls, hdecls⟩ := derivedDeclarations
  obtain ⟨consumed, schema, s, rest, rfl, hparse⟩ := parse_of_declarationsOf hdecls
  obtain ⟨ds, hruns, hmem, hwellFormed⟩ := wellFormed_of_parseBond hparse
  exact ⟨_, ds, _, hdecls, hruns, hmem, hwellFormed⟩

set_option maxRecDepth 10000 in
/-- A type parameter is a base. -/
theorem not_base_refersToStruct : ¬ ∀ text n decls, declarationsOf text n = some decls →
    ∀ decl ∈ decls, FieldsOk decl.structFields ∧
      ∀ t, decl.structBase = some t → RefersToStruct t := by
  intro h
  have htext : declarationsOf "namespace n struct Generic<T>:T{}" 30 =
      some [.struct [⟨none, ["n"]⟩] [] "Generic" [⟨"T", none⟩] (some (.typeParam ⟨"T", none⟩)) []] := by
    rewrite [declarationsOf_ofList]
    decide +kernel
  have hstruct := (h _ _ _ htext _ List.mem_cons_self).2 _ rfl
  cases isStruct_of_refersToStruct hstruct

end Bond.Compiler

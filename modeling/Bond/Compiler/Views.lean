import Bond.Compiler.EnumValues
import Bond.Compiler.ParserRuns

set_option autoImplicit false

/-! # Views

`struct V view_of S { names }`: the fields of `S` that are named go into the view. A name that no field
of `S` has, and a second mention of a name, go unnoticed. -/

namespace Bond.Compiler

open Bond.Lib
open Bond.Lib.Parsec

/-! ## What a view is -/

/-- The fields of the struct that have the names, one for each of the names and in the order of their
    ordinals; the parameters and the base are those of the struct. -/
structure ViewOf (viewed : Declaration) (names : List String) (decl : Declaration) : Prop where
  params : decl.declParams = viewed.declParams
  base : decl.structBase = viewed.structBase
  fields : ∀ f, f ∈ decl.structFields ↔ f ∈ viewed.structFields ∧ f.fieldName ∈ names
  sorted : (decl.structFields.map Field.fieldOrdinal).Pairwise (· < ·)
  names : (decl.structFields.map Field.fieldName).Perm names

/-- What is written of a view behind its name: the struct it is a view of, as it is found in the table,
    and the names between the braces. -/
def viewClause : Parser (Declaration × List String) := do
  attempt (keyword "view_of")
  let viewed ← qualifiedName
  let decl ← findStruct viewed
  let fields ← braces (semiOrCommaSepEnd1 identifier)
  return (decl, fields)

/-- Every name is the name of a field, and none is there twice. -/
def NamesFields (viewed : Declaration) (names : List String) : Prop :=
  names.Nodup ∧ ∀ name ∈ names, ∃ f ∈ viewed.structFields, f.fieldName = name

instance (viewed : Declaration) (names : List String) : Decidable (NamesFields viewed names) :=
  inferInstanceAs (Decidable (_ ∧ _))

section

variable {viewed decl : Declaration} {names : List String} {attr : List Attribute}
  {name : String} {namespaces : List Namespace}

/-- `viewFields` keeps the order of the fields, and no name is in it twice. -/
theorem fieldsOk_viewFields (h : FieldsOk viewed.structFields) :
    FieldsOk (viewed.structFields.filter fun f => decide (f.fieldName ∈ names)) where
  sorted := h.sorted.sublist (List.filter_sublist.map _)
  names := h.names.sublist (List.filter_sublist.map _)

theorem mem_viewFields (f : Field) :
    f ∈ viewed.structFields.filter (fun f => decide (f.fieldName ∈ names)) ↔
      f ∈ viewed.structFields ∧ f.fieldName ∈ names := by
  rw [List.mem_filter, decide_eq_true_iff]

/-- The fields have the names that are written if each of these is the name of a field, once. -/
theorem names_viewFields_iff (h : FieldsOk viewed.structFields) :
    ((viewed.structFields.filter fun f => decide (f.fieldName ∈ names)).map Field.fieldName).Perm
      names ↔ NamesFields viewed names := by
  have hnodup : ((viewed.structFields.filter fun f => decide (f.fieldName ∈ names)).map
      Field.fieldName).Nodup := (fieldsOk_viewFields h).names
  constructor
  · intro hperm
    refine ⟨hperm.nodup_iff.1 hnodup, fun name hname => ?_⟩
    obtain ⟨f, hf, rfl⟩ := List.mem_map.1 (hperm.mem_iff.2 hname)
    exact ⟨f, ((mem_viewFields f).1 hf).1, rfl⟩
  · rintro ⟨hdistinct, hnamed⟩
    refine (List.perm_ext_iff_of_nodup hnodup hdistinct).2 fun name => ?_
    constructor
    · intro hmem
      obtain ⟨f, hf, rfl⟩ := List.mem_map.1 hmem
      exact ((mem_viewFields f).1 hf).2
    · intro hname
      obtain ⟨f, hf, rfl⟩ := hnamed name hname
      exact List.mem_map_of_mem ((mem_viewFields f).2 ⟨hf, hname⟩)

/-- The struct that a view declares is one with the fields of `viewFields`. -/
theorem viewOf_iff (h : FieldsOk viewed.structFields)
    (hdecl : decl = .struct namespaces attr name viewed.declParams viewed.structBase
      (viewed.structFields.filter fun f => decide (f.fieldName ∈ names))) :
    ViewOf viewed names decl ↔ NamesFields viewed names := by
  subst hdecl
  rw [← names_viewFields_iff h]
  constructor
  · intro hview
    exact hview.names
  · intro hnames
    exact ⟨rfl, rfl, mem_viewFields, (fieldsOk_viewFields h).sorted, hnames⟩

end

/-! ## Accepted views -/

theorem Declaration.Accepted.fieldsOk {decl : Declaration} (h : decl.Accepted) :
    FieldsOk decl.structFields := by
  rcases h with ⟨-, hfields, -, -⟩ | _ | _ | _ | _
  · exact hfields
  all_goals exact ⟨.nil, .nil⟩

/-- An accepted view has a clause, which is read from the same table. -/
theorem exists_viewClause {attr : List Attribute} {name : String} {n : Nat} {env : Environment}
    {s s' : Symbols} {input rest : List Char} {consumed : Bool} {decl : Declaration}
    (h : view attr name n env s input = .ok consumed decl s' rest) :
    ∃ c viewed names rest' namespaces,
      viewClause n env s input = .ok c (viewed, names) s rest' ∧ viewed ∈ s.symbols ∧
      decl = .struct namespaces attr name viewed.declParams viewed.structBase
        (viewed.structFields.filter fun f => decide (f.fieldName ∈ names)) := by
  unfold view at h
  obtain ⟨c₁, _, s₁, rest₁, d₁, hkeyword, h₁⟩ := exists_of_bind_eq_ok h
  obtain ⟨c₂, qualified, s₂, rest₂, d₂, hname, h₂⟩ := exists_of_bind_eq_ok h₁
  obtain ⟨c₃, viewed, s₃, rest₃, d₃, hfind, h₃⟩ := exists_of_bind_eq_ok h₂
  obtain ⟨c₄, names, s₄, rest₄, d₄, hbraces, h₄⟩ := exists_of_bind_eq_ok h₃
  obtain ⟨c₅, namespaces, s₅, rest₅, d₅, -, h₅⟩ := exists_of_bind_eq_ok h₄
  obtain ⟨c₆, _, s₆, rest₆, d₆, -, h₆⟩ := exists_of_bind_eq_ok h₅
  -- None of the parsers changes the table.
  obtain ⟨rfl, -⟩ := (reads_keyword _).attempt n _ _ _ _ _ hkeyword
  obtain ⟨rfl, -⟩ := reads_qualifiedName n _ _ _ _ _ hname
  obtain ⟨rfl, hviewed, -⟩ := reads_findStruct qualified n _ _ _ _ _ hfind
  obtain ⟨rfl, -⟩ := reads_braces (Reads.sepEndBy1 reads_semiOrComma reads_identifier) n _ _ _ _ _
    hbraces
  cases h₆
  have hclause : ∃ c, viewClause n env s₄ input = .ok c (viewed, names) s₄ rest₄ := by
    unfold viewClause
    exact exists_bind_eq_ok hkeyword (exists_bind_eq_ok hname (exists_bind_eq_ok hfind
      (exists_bind_eq_ok hbraces ⟨false, rfl⟩)))
  obtain ⟨c, hc⟩ := hclause
  exact ⟨c, viewed, names, rest₄, namespaces, hc, hviewed, rfl⟩

/-- With the symbols of any run, an accepted view is a view of the struct, with the names that are
    written, if and only if each of these is the name of a field and none is there twice. -/
theorem viewOf_iff_of_accepted {ds : List Definition} {attr : List Attribute} {name : String}
    {n : Nat} {env : Environment} {s s' : Symbols} {input rest : List Char} {consumed : Bool}
    {decl : Declaration} (hruns : Runs [] ds s.symbols)
    (h : view attr name n env s input = .ok consumed decl s' rest) :
    ∃ c viewed names rest', viewClause n env s input = .ok c (viewed, names) s rest' ∧
      (ViewOf viewed names decl ↔ NamesFields viewed names) := by
  obtain ⟨c, viewed, names, rest', namespaces, hclause, hviewed, hdecl⟩ := exists_viewClause h
  have haccepted := (hruns.accepted (by simp)).1 viewed hviewed
  exact ⟨c, viewed, names, rest', hclause, viewOf_iff haccepted.fieldsOk hdecl⟩

/-! ## Views of a struct with two fields -/

def pairFields : List Field :=
  [.mk [] 0 .optional (.basic .bool) "first" none, .mk [] 1 .optional (.basic .bool) "second" none]

def pair : Declaration :=
  .struct [⟨none, ["n"]⟩] [] "Pair" [] none pairFields

theorem runs_pair : Runs [] [.struct [⟨none, ["n"]⟩] [] "Pair" [] none pairFields] [pair] := by
  refine .cons (.struct (.struct (by simp) ⟨by decide, by decide⟩ ?_ ?_)) rfl (.nil _)
  · simp only [pairFields, List.forall_mem_cons]
    exact ⟨⟨[], 0, .optional, .basic .bool, "first", none, rfl⟩,
      ⟨[], 1, .optional, .basic .bool, "second", none, rfl⟩, by simp⟩
  · simp only [pairFields, List.forall_mem_cons]
    exact ⟨.basic _, .basic _, by simp⟩

def pairEnvironment : Environment :=
  { noImports with currentNamespaces := [⟨none, ["n"]⟩] }

set_option maxRecDepth 10000 in
/-- A view of one of the fields -/
theorem viewOf_pair : ∃ consumed decl s' rest,
    view [] "V" 30 pairEnvironment ⟨[pair], []⟩ "view_of Pair{second}".toList =
      .ok consumed decl s' rest ∧
    ∃ c viewed names rest', viewClause 30 pairEnvironment ⟨[pair], []⟩
        "view_of Pair{second}".toList = .ok c (viewed, names) ⟨[pair], []⟩ rest' ∧
      (ViewOf viewed names decl ↔ NamesFields viewed names) := by
  have hview : (parsed (view [] "V" 30 pairEnvironment ⟨[pair], []⟩
      "view_of Pair{second}".toList)).isSome = true := by
    rewrite [String.toList_ofList]
    decide +kernel
  obtain ⟨decl, hdecl⟩ := Option.isSome_iff_exists.1 hview
  obtain ⟨consumed, s', rest, h⟩ := ok_of_parsed hdecl
  exact ⟨consumed, decl, s', rest, h, viewOf_iff_of_accepted runs_pair h⟩

set_option maxRecDepth 10000 in
/-- The name of a field that there is not is accepted. -/
theorem not_viewOf_of_accepted : ¬ ∀ (ds : List Definition) (attr : List Attribute) (name : String)
    (n : Nat) (env : Environment) (s s' s'' : Symbols) (input rest rest' : List Char)
    (consumed c : Bool) (decl viewed : Declaration) (names : List String), Runs [] ds s.symbols →
    view attr name n env s input = .ok consumed decl s' rest →
    viewClause n env s input = .ok c (viewed, names) s'' rest' → ViewOf viewed names decl := by
  intro h
  have hview : parsed (view [] "V" 30 pairEnvironment ⟨[pair], []⟩ "view_of Pair{third}".toList) =
      some (.struct [⟨none, ["n"]⟩] [] "V" [] none []) := by
    rewrite [String.toList_ofList]
    decide +kernel
  have hclause : parsed (viewClause 30 pairEnvironment ⟨[pair], []⟩
      "view_of Pair{third}".toList) = some (pair, ["third"]) := by
    rewrite [String.toList_ofList]
    decide +kernel
  obtain ⟨consumed, s', rest, hview⟩ := ok_of_parsed hview
  obtain ⟨c, s'', rest', hclause⟩ := ok_of_parsed hclause
  have hof := h _ [] "V" 30 pairEnvironment ⟨[pair], []⟩ s' s'' _ rest rest' consumed c _ _ _
    runs_pair hview hclause
  exact absurd hof.names.length_eq (by decide)

end Bond.Compiler

import Bond.Compiler.FullyResolved

set_option autoImplicit false

/-! # Set elements and map keys

The element of a set and the key of a map are tested where they are written, and a type parameter
passes the test. What is supplied for a parameter is not tested. When the sets and maps of an
instantiation have scalars, enums and strings for keys, with all aliases expanded. -/

namespace Bond.Compiler

open Bond.Lib

/-! ## Keys that were tested -/

mutual

/-- The set elements and map keys of a type passed the test, as in the declarations it is made of. -/
inductive BondType.Keyed : BondType → Prop
  | basic (b : BasicType) : BondType.Keyed (.basic b)
  | container {kind : ContainerKind} {t : BondType} : kind ≠ .set → BondType.Keyed t →
      BondType.Keyed (.container kind t)
  | set {k : BondType} : BondType.Keyed k → k.IsKeyType → BondType.Keyed (.container .set k)
  | map {k t : BondType} : BondType.Keyed k → k.IsKeyType → BondType.Keyed t →
      BondType.Keyed (.map k t)
  | intTypeArg (n : Int64) : BondType.Keyed (.intTypeArg n)
  | typeParam (p : TypeParam) : BondType.Keyed (.typeParam p)
  | userDefined {decl : Declaration} {args : List BondType} : Declaration.Keyed decl →
      (∀ t ∈ args, BondType.Keyed t) → BondType.Keyed (.userDefined decl args)

inductive Declaration.Keyed : Declaration → Prop
  | struct {namespaces : List Namespace} {attributes : List Attribute} {name : String}
      {params : List TypeParam} {base : Option BondType} {fields : List Field} :
      (∀ t, base = some t → BondType.Keyed t) → (∀ f ∈ fields, BondType.Keyed f.fieldType) →
      Declaration.Keyed (.struct namespaces attributes name params base fields)
  | enum {namespaces : List Namespace} {attributes : List Attribute} {name : String}
      {constants : List Constant} : Declaration.Keyed (.enum namespaces attributes name constants)
  | forward {namespaces : List Namespace} {name : String} {params : List TypeParam} :
      Declaration.Keyed (.forward namespaces name params)
  | typeAlias {namespaces : List Namespace} {name : String} {params : List TypeParam}
      {type : BondType} : BondType.Keyed type →
      Declaration.Keyed (.typeAlias namespaces name params type)
  | service {namespaces : List Namespace} {attributes : List Attribute} {name : String}
      {params : List TypeParam} {base : Option BondType} {methods : List Method} :
      Declaration.Keyed (.service namespaces attributes name params base methods)

end

theorem keyed_view {namespaces : List Namespace} {attributes : List Attribute} {name : String}
    {viewed : Declaration} (fields : List String) (h : viewed.Keyed) :
    (Declaration.struct namespaces attributes name viewed.declParams viewed.structBase
      (viewed.structFields.filter fun f => decide (f.fieldName ∈ fields))).Keyed := by
  cases h with
  | struct hbase hfields => exact .struct hbase fun f hf => hfields f (List.mem_filter.1 hf).1
  | _ => exact .struct (by simp [Declaration.structBase]) (by simp [Declaration.structFields])

theorem grammar_keyed : Grammar (fun params t => t.Accepted params ∧ t.Keyed)
    (fun decl => decl.Accepted ∧ decl.Keyed) where
  basic _ b := ⟨.basic b, .basic b⟩
  container hkind ht := ⟨.container ht.1, .container hkind ht.2⟩
  set hk hkey := ⟨.container hk.1, .set hk.2 hkey⟩
  map hk hkey ht := ⟨.map hk.1 ht.1, .map hk.2 hkey ht.2⟩
  intTypeArg _ n := ⟨.intTypeArg n, .intTypeArg n⟩
  typeParam hp := ⟨.typeParam hp, .typeParam _⟩
  userDefined hdecl hservice hcount hargs :=
    ⟨.userDefined hdecl.1 hservice hcount fun t ht => (hargs t ht).1,
      .userDefined hdecl.2 fun t ht => (hargs t ht).2⟩
  struct hbase hok hmade hfields :=
    ⟨.struct (fun t ht => (hbase t ht).1) hok hmade fun f hf => (hfields f hf).1,
      .struct (fun t ht => (hbase t ht).2) fun f hf => (hfields f hf).2⟩
  view fields h := ⟨accepted_view fields h.1, keyed_view fields h.2⟩
  enum := ⟨.enum, .enum⟩
  forward := ⟨.forward, .forward⟩
  typeAlias htype := ⟨.typeAlias htype.1, .typeAlias htype.2⟩
  service := ⟨.service, .service⟩

/-! ## Keys of an expanded type -/

/-- Scalars, enums and strings. -/
def BondType.isKey : BondType → Bool
  | .basic .blob | .basic .metaName | .basic .metaFullName => false
  | .basic _ => true
  | .userDefined (.enum _ _ _ _) _ => true
  | _ => false

mutual

/-- Every set element and every map key in a type without aliases is a scalar, an enum or a string. -/
def BondType.keysValid : BondType → Bool
  | .container .set k => k.isKey && k.keysValid
  | .container _ t => t.keysValid
  | .map k t => k.isKey && k.keysValid && t.keysValid
  | .userDefined _ args => keysValidAll args
  | .basic _ => true
  | .intTypeArg _ => true
  | .typeParam _ => true

def keysValidAll : List BondType → Bool
  | [] => true
  | t :: ts => t.keysValid && keysValidAll ts

end

/-- A parameter that is still there when the aliases of the type are expanded. -/
inductive Uses : BondType → TypeParam → Prop
  | typeParam (p : TypeParam) : Uses (.typeParam p) p
  | container {kind : ContainerKind} {t : BondType} {p : TypeParam} : Uses t p →
      Uses (.container kind t) p
  | key {k t : BondType} {p : TypeParam} : Uses k p → Uses (.map k t) p
  | mapped {k t : BondType} {p : TypeParam} : Uses t p → Uses (.map k t) p
  | userDefined {decl : Declaration} {args : List BondType} {a : BondType} {p : TypeParam} :
      decl.isAlias = false → a ∈ args → Uses a p → Uses (.userDefined decl args) p
  | typeAlias {namespaces : List Namespace} {name : String} {params : List TypeParam}
      {type : BondType} {args : List BondType} {q p : TypeParam} : Uses type q →
      Uses (argument params args q) p → Uses (aliased namespaces name params type args) p

/-- A key where it is written, in a type or in an alias behind it, with the expanded arguments of the
    parameters there. -/
inductive KeyAt : (TypeParam → BondType) → BondType → (TypeParam → BondType) → BondType → Prop
  | set {ρ : TypeParam → BondType} {k : BondType} : KeyAt ρ (.container .set k) ρ k
  | key {ρ : TypeParam → BondType} {k t : BondType} : KeyAt ρ (.map k t) ρ k
  | container {ρ σ : TypeParam → BondType} {kind : ContainerKind} {t k : BondType} :
      KeyAt ρ t σ k → KeyAt ρ (.container kind t) σ k
  | inKey {ρ σ : TypeParam → BondType} {k' t k : BondType} :
      KeyAt ρ k' σ k → KeyAt ρ (.map k' t) σ k
  | inMapped {ρ σ : TypeParam → BondType} {k' t k : BondType} :
      KeyAt ρ t σ k → KeyAt ρ (.map k' t) σ k
  | userDefined {ρ σ : TypeParam → BondType} {decl : Declaration} {args : List BondType}
      {a k : BondType} : decl.isAlias = false → a ∈ args → KeyAt ρ a σ k →
      KeyAt ρ (.userDefined decl args) σ k
  | inAlias {ρ σ : TypeParam → BondType} {namespaces : List Namespace} {name : String}
      {params : List TypeParam} {type k : BondType} {args : List BondType} :
      KeyAt (argument params (normTypes ρ args)) type σ k →
      KeyAt ρ (aliased namespaces name params type args) σ k
  | inArgument {ρ σ : TypeParam → BondType} {namespaces : List Namespace} {name : String}
      {params : List TypeParam} {type k : BondType} {args : List BondType} {q : TypeParam} :
      Uses type q → KeyAt ρ (argument params args q) σ k →
      KeyAt ρ (aliased namespaces name params type args) σ k

/-- What is supplied for the parameters that are keys is a scalar, an enum or a string. -/
def KeysSupplied (ρ : TypeParam → BondType) (t : BondType) : Prop :=
  ∀ σ k p, KeyAt ρ t σ k → k.resolved = .typeParam p → (σ p).isKey = true

/-- The parameters that are used are supplied with types whose own keys are valid. -/
def UsedValid (ρ : TypeParam → BondType) (t : BondType) : Prop :=
  ∀ p, Uses t p → (ρ p).keysValid = true

/-! ## Expanded types -/

theorem keysValidAll_iff (ts : List BondType) :
    keysValidAll ts = true ↔ ∀ t ∈ ts, t.keysValid = true := by
  induction ts with
  | nil => simp [keysValidAll]
  | cons t ts ih => simp [keysValidAll, ih]

/-- A key that was tested is one when it is expanded, unless it stands for a parameter. -/
theorem isKey_normWith_iff {params : List TypeParam} (ρ : TypeParam → BondType) {k : BondType}
    (h : k.Accepted params) (hkey : k.IsKeyType) :
    (k.normWith ρ).isKey = true ↔ ∀ p, k.resolved = .typeParam p → (ρ p).isKey = true := by
  rw [← normWith_resolved ρ h]
  have hne : ∀ {t : BondType} {p : TypeParam}, (∀ q, t ≠ .typeParam q) → t = .typeParam p → False :=
    fun hne heq => hne _ heq
  have hparam : ∀ p, k.resolved = .typeParam p → ((k.resolved.normWith ρ).isKey = true ↔
      ∀ q, k.resolved = .typeParam q → (ρ q).isKey = true) := by
    intro p hp
    rw [hp]
    simp [BondType.normWith]
  rcases hkey with ⟨p, rfl⟩ | hscalar | hstring
  · exact hparam p (resolved_eq_self fun _ _ _ _ _ h => by cases h)
  · unfold BondType.isScalar at hscalar
    split at hscalar
    all_goals first
      | next heq => exact hparam _ heq
      | next heq => rw [heq]; simp [BondType.normWith, BondType.isKey]
      | cases hscalar
  · unfold BondType.isString at hstring
    split at hstring
    all_goals first
      | next heq => rw [heq]; simp [BondType.normWith, BondType.isKey]
      | cases hstring

theorem uses_mem {params : List TypeParam} {t : BondType} {p : TypeParam} (h : Uses t p)
    (ht : t.Accepted params) : p ∈ params := by
  induction h generalizing params with
  | typeParam p =>
      cases ht with
      | typeParam hp => exact hp
  | container _ ih =>
      cases ht with
      | container ht => exact ih ht
  | key _ ih =>
      cases ht with
      | map hk _ => exact ih hk
  | mapped _ ih =>
      cases ht with
      | map _ ht => exact ih ht
  | userDefined _ ha _ ih =>
      cases ht with
      | userDefined _ _ _ hargs => exact ih (hargs _ ha)
  | typeAlias _ _ ihq ihp =>
      cases ht with
      | userDefined hdecl _ hcount hargs =>
          cases hdecl with
          | typeAlias htype => exact ihp (hargs _ (argument_of_mem hcount (ihq htype)))

theorem keysValid_container {kind : ContainerKind} (hkind : kind ≠ .set) (t : BondType) :
    (BondType.container kind t).keysValid = t.keysValid := by
  cases kind <;> first | rfl | exact absurd rfl hkind

theorem keysValid_set (k : BondType) :
    (BondType.container .set k).keysValid = (k.isKey && k.keysValid) := rfl

/-- What an alias stands for and the arguments it uses, with what is known of them. -/
theorem keysValid_aliased_iff {outer : List TypeParam} (ρ : TypeParam → BondType)
    {namespaces : List Namespace} {name : String} {params : List TypeParam} {type : BondType}
    {args : List BondType} (h : (aliased namespaces name params type args).Accepted outer)
    (htype : (type.normWith (argument params (normTypes ρ args))).keysValid = true ↔
      KeysSupplied (argument params (normTypes ρ args)) type ∧
        UsedValid (argument params (normTypes ρ args)) type)
    (hargs : ∀ a ∈ args, (a.normWith ρ).keysValid = true ↔ KeysSupplied ρ a ∧ UsedValid ρ a) :
    ((aliased namespaces name params type args).normWith ρ).keysValid = true ↔
      KeysSupplied ρ (aliased namespaces name params type args) ∧
        UsedValid ρ (aliased namespaces name params type args) := by
  change (type.normWith (argument params (normTypes ρ args))).keysValid = true ↔ _
  cases h with
  | userDefined hdecl _ hcount _ =>
  cases hdecl with
  | typeAlias haccepted =>
  have hused : ∀ q, Uses type q → (argument params (normTypes ρ args) q =
      (argument params args q).normWith ρ) ∧ argument params args q ∈ args := by
    intro q hq
    have hmem := uses_mem hq haccepted
    exact ⟨argument_normTypes ρ hcount hmem, argument_of_mem hcount hmem⟩
  rw [htype]
  constructor
  · rintro ⟨hsupplied, hvalid⟩
    have hargument : ∀ q, Uses type q → KeysSupplied ρ (argument params args q) ∧
        UsedValid ρ (argument params args q) := by
      intro q hq
      obtain ⟨heq, hmem⟩ := hused q hq
      exact (hargs _ hmem).1 (heq ▸ hvalid q hq)
    refine ⟨fun σ k p hk hp => ?_, fun p hp => ?_⟩
    · cases hk with
      | userDefined hnot => cases hnot
      | inAlias hk => exact hsupplied σ k p hk hp
      | inArgument hq hk => exact (hargument _ hq).1 σ k p hk hp
    · cases hp with
      | userDefined hnot => cases hnot
      | typeAlias hq hp => exact (hargument _ hq).2 p hp
  · rintro ⟨hsupplied, hvalid⟩
    refine ⟨fun σ k p hk hp => hsupplied σ k p (.inAlias hk) hp, fun q hq => ?_⟩
    obtain ⟨heq, hmem⟩ := hused q hq
    rw [heq, hargs _ hmem]
    exact ⟨fun σ k p hk hp => hsupplied σ k p (.inArgument hq hk) hp,
      fun p hp => hvalid p (.typeAlias hq hp)⟩

-- The induction is on the type, and goes on in the type of an alias with other arguments.
mutual

theorem keysValid_normWith_iff {params : List TypeParam} (ρ : TypeParam → BondType) (t : BondType)
    (h : t.Accepted params) (hkeyed : t.Keyed) :
    (t.normWith ρ).keysValid = true ↔ KeysSupplied ρ t ∧ UsedValid ρ t := by
  cases t with
  | basic b =>
      refine ⟨fun _ => ⟨fun σ k p hk _ => ?_, fun p hp => ?_⟩, fun _ => rfl⟩
      · cases hk
      · cases hp
  | intTypeArg n =>
      refine ⟨fun _ => ⟨fun σ k p hk _ => ?_, fun p hp => ?_⟩, fun _ => rfl⟩
      · cases hk
      · cases hp
  | typeParam q =>
      refine ⟨fun hvalid => ⟨fun σ k p hk _ => ?_, fun p hp => ?_⟩, fun hvalid => ?_⟩
      · cases hk
      · cases hp
        exact hvalid
      · exact hvalid.2 q (.typeParam q)
  | container kind t =>
      have ht : t.Accepted params := by
        cases h with
        | container ht => exact ht
      rw [BondType.normWith]
      by_cases hkind : kind = .set
      · subst hkind
        cases hkeyed with
        | container hkind => exact absurd rfl hkind
        | set hkeyed hkey =>
            have ih := keysValid_normWith_iff ρ t ht hkeyed
            rw [keysValid_set, Bool.and_eq_true, ih, isKey_normWith_iff ρ ht hkey]
            constructor
            · rintro ⟨hset, hsupplied, hvalid⟩
              refine ⟨fun σ k p hk hp => ?_, fun p hp => ?_⟩
              · cases hk with
                | set => exact hset p hp
                | container hk => exact hsupplied σ k p hk hp
              · cases hp with
                | container hp => exact hvalid p hp
            · rintro ⟨hsupplied, hvalid⟩
              exact ⟨fun p hp => hsupplied ρ t p .set hp,
                fun σ k p hk hp => hsupplied σ k p (.container hk) hp,
                fun p hp => hvalid p (.container hp)⟩
      · cases hkeyed with
        | set => exact absurd rfl hkind
        | container _ hkeyed =>
            have ih := keysValid_normWith_iff ρ t ht hkeyed
            rw [keysValid_container hkind, ih]
            constructor
            · rintro ⟨hsupplied, hvalid⟩
              refine ⟨fun σ k p hk hp => ?_, fun p hp => ?_⟩
              · cases hk with
                | set => exact absurd rfl hkind
                | container hk => exact hsupplied σ k p hk hp
              · cases hp with
                | container hp => exact hvalid p hp
            · rintro ⟨hsupplied, hvalid⟩
              exact ⟨fun σ k p hk hp => hsupplied σ k p (.container hk) hp,
                fun p hp => hvalid p (.container hp)⟩
  | map k t =>
      cases h with
      | map hk ht =>
      cases hkeyed with
      | map hkeyedk hkey hkeyedt =>
          have ihk := keysValid_normWith_iff ρ k hk hkeyedk
          have iht := keysValid_normWith_iff ρ t ht hkeyedt
          rw [BondType.normWith, BondType.keysValid, Bool.and_eq_true, Bool.and_eq_true, ihk, iht,
            isKey_normWith_iff ρ hk hkey]
          constructor
          · rintro ⟨⟨hset, hsuppliedk, hvalidk⟩, hsuppliedt, hvalidt⟩
            refine ⟨fun σ k p hk hp => ?_, fun p hp => ?_⟩
            · cases hk with
              | key => exact hset p hp
              | inKey hk => exact hsuppliedk σ k p hk hp
              | inMapped hk => exact hsuppliedt σ k p hk hp
            · cases hp with
              | key hp => exact hvalidk p hp
              | mapped hp => exact hvalidt p hp
          · rintro ⟨hsupplied, hvalid⟩
            exact ⟨⟨fun p hp => hsupplied ρ k p .key hp,
              fun σ k p hk hp => hsupplied σ k p (.inKey hk) hp, fun p hp => hvalid p (.key hp)⟩,
              fun σ k p hk hp => hsupplied σ k p (.inMapped hk) hp,
              fun p hp => hvalid p (.mapped hp)⟩
  | userDefined decl args =>
      have hargs : ∀ a ∈ args, a.Accepted params ∧ a.Keyed := by
        intro a ha
        cases h with
        | userDefined _ _ _ hargs =>
            cases hkeyed with
            | userDefined _ hkeyed => exact ⟨hargs a ha, hkeyed a ha⟩
      have ih := keysValid_normTypes_iff ρ args hargs
      cases decl with
      | typeAlias namespaces name params' type =>
          have htype : type.Accepted params' ∧ type.Keyed := by
            cases h with
            | userDefined hdecl =>
                cases hdecl with
                | typeAlias haccepted =>
                    cases hkeyed with
                    | userDefined hdecl =>
                        cases hdecl with
                        | typeAlias hkeyed => exact ⟨haccepted, hkeyed⟩
          exact keysValid_aliased_iff ρ h (keysValid_normWith_iff _ type htype.1 htype.2) ih
      | _ =>
          rw [normWith_userDefined rfl, BondType.keysValid, keysValidAll_iff, normTypes_eq_map,
            List.forall_mem_map]
          constructor
          · intro hall
            refine ⟨fun σ k p hk hp => ?_, fun p hp => ?_⟩
            · cases hk with
              | userDefined _ ha hk => exact ((ih _ ha).1 (hall _ ha)).1 σ k p hk hp
            · cases hp with
              | userDefined _ ha hp => exact ((ih _ ha).1 (hall _ ha)).2 p hp
          · rintro ⟨hsupplied, hvalid⟩ a ha
            exact (ih a ha).2 ⟨fun σ k p hk hp => hsupplied σ k p (.userDefined rfl ha hk) hp,
              fun p hp => hvalid p (.userDefined rfl ha hp)⟩

theorem keysValid_normTypes_iff {params : List TypeParam} (ρ : TypeParam → BondType)
    (ts : List BondType) (h : ∀ t ∈ ts, t.Accepted params ∧ t.Keyed) :
    ∀ t ∈ ts, (t.normWith ρ).keysValid = true ↔ KeysSupplied ρ t ∧ UsedValid ρ t := by
  cases ts with
  | nil => simp
  | cons t ts =>
      rw [List.forall_mem_cons] at h ⊢
      exact ⟨keysValid_normWith_iff ρ t h.1.1 h.1.2, keysValid_normTypes_iff ρ ts h.2⟩

end

/-- Every key that is met was tested. -/
theorem isKeyType_of_keyAt {ρ σ : TypeParam → BondType} {t k : BondType} (h : KeyAt ρ t σ k)
    {params : List TypeParam} (ht : t.Accepted params) (hkeyed : t.Keyed) : k.IsKeyType := by
  induction h generalizing params with
  | set =>
      cases hkeyed with
      | container hkind => exact absurd rfl hkind
      | set _ hkey => exact hkey
  | key =>
      cases hkeyed with
      | map _ hkey _ => exact hkey
  | container _ ih =>
      cases ht with
      | container ht =>
          cases hkeyed with
          | container _ hkeyed => exact ih ht hkeyed
          | set hkeyed => exact ih ht hkeyed
  | inKey _ ih =>
      cases ht with
      | map hk _ =>
          cases hkeyed with
          | map hkeyed => exact ih hk hkeyed
  | inMapped _ ih =>
      cases ht with
      | map _ ht =>
          cases hkeyed with
          | map _ _ hkeyed => exact ih ht hkeyed
  | userDefined _ ha _ ih =>
      cases ht with
      | userDefined _ _ _ hargs =>
          cases hkeyed with
          | userDefined _ hkeyed => exact ih (hargs _ ha) (hkeyed _ ha)
  | inAlias _ ih =>
      cases ht with
      | userDefined hdecl =>
          cases hkeyed with
          | userDefined hdecl' =>
              cases hdecl with
              | typeAlias htype =>
                  cases hdecl' with
                  | typeAlias hkeyed => exact ih htype hkeyed
  | inArgument hq _ ih =>
      cases ht with
      | userDefined hdecl _ hcount hargs =>
          cases hdecl with
          | typeAlias htype =>
              have hmem := argument_of_mem hcount (uses_mem hq htype)
              cases hkeyed with
              | userDefined _ hkeyed => exact ih (hargs _ hmem) (hkeyed _ hmem)

/-! ## Instantiations -/

/-- The types that a declaration is made of: the base and the fields of a struct, and what an alias
    stands for. -/
def Declaration.bodyTypes : Declaration → List BondType
  | .struct _ _ _ _ base fields => base.toList ++ fields.map Field.fieldType
  | .typeAlias _ _ _ type => [type]
  | _ => []

theorem bodyTypes_keyed {decl : Declaration} (h : decl.Accepted ∧ decl.Keyed) {t : BondType}
    (ht : t ∈ decl.bodyTypes) : t.Accepted decl.declParams ∧ t.Keyed := by
  obtain ⟨haccepted, hkeyed⟩ := h
  cases haccepted with
  | struct hbase _ _ hfields =>
      cases hkeyed with
      | struct hkbase hkfields =>
          rcases List.mem_append.1 ht with ht | ht
          · have ht' := Option.mem_toList.1 ht
            exact ⟨hbase t ht', hkbase t ht'⟩
          · obtain ⟨f, hf, rfl⟩ := List.mem_map.1 ht
            exact ⟨hfields f hf, hkfields f hf⟩
  | typeAlias htype =>
      cases hkeyed with
      | typeAlias hktype =>
          obtain rfl := List.mem_singleton.1 ht
          exact ⟨htype, hktype⟩
  | _ => cases ht

theorem argument_norm (params : List TypeParam) (args : List BondType) :
    argument params (normTypes .typeParam args) = fun p => (argument params args p).norm := by
  funext p
  simp only [argument, resolveParam, normTypes_eq_map, lookup_zip_map]
  cases (params.zip args).lookup p <;> rfl

/-- In the structs and aliases of an accepted file, every set element and map key was written as a
    scalar, an enum, a string or a type parameter. With arguments, and with all aliases expanded, all
    of them are scalars, enums and strings exactly if what is supplied for the parameters that stand
    there is, through however many aliases, and the arguments that are used have such keys. -/
theorem keysValid_instance_iff {charClasses : CharClasses} {scientific : Scientific}
    {resolveImport : String → String → Except String (String × List Char)} {content rest : List Char}
    {file : String} {n : Nat} {consumed : Bool} {schema : BondSchema} {s : Symbols}
    (h : parseBond charClasses scientific resolveImport content file n =
      .ok consumed schema s rest)
    {decl : Declaration} (hdecl : decl ∈ s.symbols) {t : BondType} (ht : t ∈ decl.bodyTypes)
    {args : List BondType} (hlength : args.length = decl.declParams.length) :
    (∀ ρ σ k, KeyAt ρ t σ k → k.IsKeyType) ∧
    ((t.substitute (argument decl.declParams args)).norm.keysValid = true ↔
      KeysSupplied (fun p => (argument decl.declParams args p).norm) t ∧
        UsedValid (fun p => (argument decl.declParams args p).norm) t) := by
  obtain ⟨haccepted, hkeyed⟩ := bodyTypes_keyed (forall_of_parseBond grammar_keyed h _ hdecl) ht
  refine ⟨fun ρ σ k hk => isKeyType_of_keyAt hk haccepted hkeyed, ?_⟩
  rw [BondType.norm, ← fmapType_eq_substitute, normWith_resolveParam .typeParam hlength t haccepted,
    argument_norm, keysValid_normWith_iff _ t haccepted hkeyed]

/-! ## A set of structs -/

/-- A set of a parameter, and two instantiations of it. -/
def setText : String :=
  "namespace n struct F{}struct S<T>{0:set<T> s;}struct U{0:S<F> u;}struct V{0:S<int8> v;}"

def fStruct : Declaration :=
  .struct [⟨none, ["n"]⟩] [] "F" [] none []

def setField : Field :=
  .mk [] 0 .optional (.container .set (.typeParam tParam)) "s" none

def setStruct : Declaration :=
  .struct [⟨none, ["n"]⟩] [] "S" [tParam] none [setField]

/-- A struct with a field that is the set of the given type. -/
def user (name field : String) (t : BondType) : Declaration :=
  .struct [⟨none, ["n"]⟩] [] name [] none
    [.mk [] 0 .optional (.userDefined setStruct [t]) field none]

def userOfStructs : Declaration :=
  user "U" "u" (.userDefined fStruct [])

def userOfInts : Declaration :=
  user "V" "v" (.basic .int8)

set_option maxRecDepth 10000 in
theorem symbols_of_setText :
    symbolsOf (parseBond asciiClasses ⟨fun v => v, fun _ => .nan⟩ (fun _ _ => .error "no file")
      setText.toList "text" 14) = some [userOfInts, userOfStructs, setStruct, fStruct] := by
  rewrite [setText, String.toList_ofList]
  decide +kernel

theorem set_of_ints_valid :
    (setField.fieldType.substitute (argument [tParam] [.basic .int8])).norm.keysValid = true := by
  obtain ⟨consumed, schema, s, rest, hparse, hs⟩ := ok_of_symbolsOf symbols_of_setText
  have hdecl : setStruct ∈ s.symbols := by simp [hs]
  have htype : setField.fieldType ∈ setStruct.bodyTypes := by
    simp [setStruct, Declaration.bodyTypes]
  have hlength : [BondType.basic .int8].length = setStruct.declParams.length := rfl
  refine (keysValid_instance_iff hparse hdecl htype hlength).2.2 ⟨?_, ?_⟩
  · intro σ k p hk hp
    cases hk with
    | set =>
        cases hp
        rfl
    | container hk => cases hk
  · intro p hp
    cases hp with
    | container hp =>
        cases hp
        rfl

/-- A file that instantiates the set with a struct is accepted. -/
theorem set_of_structs_accepted :
    ∃ consumed schema s rest,
      parseBond asciiClasses ⟨fun v => v, fun _ => .nan⟩ (fun _ _ => .error "no file")
        setText.toList "text" 14 = .ok consumed schema s rest ∧
      userOfStructs ∈ s.symbols ∧
      .userDefined setStruct [.userDefined fStruct []] ∈ userOfStructs.bodyTypes ∧
      setField.fieldType ∈ setStruct.bodyTypes ∧
      (setField.fieldType.substitute (argument setStruct.declParams
        [.userDefined fStruct []])).norm.keysValid = false := by
  obtain ⟨consumed, schema, s, rest, hparse, hs⟩ := ok_of_symbolsOf symbols_of_setText
  refine ⟨consumed, schema, s, rest, hparse, by simp [hs], ?_, ?_, by decide +kernel⟩
  · simp [userOfStructs, user, Declaration.bodyTypes, Field.fieldType]
  · simp [setStruct, Declaration.bodyTypes]

end Bond.Compiler

import Bond.Compiler.Parser

set_option autoImplicit false

/-! # What the parser makes sure of

Every declaration that is parsed is made of declarations of the table, with the checks of the parser
passed; this is shown parser by parser. -/

namespace Bond.Compiler

open Bond.Lib
open Bond.Lib.Parsec

/-! ## Declarations that are accepted -/

def Declaration.isAlias : Declaration → Bool
  | .typeAlias _ _ _ _ => true
  | _ => false

def BondType.isAlias : BondType → Bool
  | .userDefined decl _ => decl.isAlias
  | _ => false

theorem isAlias_resolved (t : BondType) : t.resolved.isAlias = false := by
  cases h : t.resolved with
  | userDefined decl args =>
      cases decl with
      | typeAlias => exact absurd h (resolved_ne_alias t _ _ _ _ _)
      | _ => rfl
  | _ => rfl

theorem resolved_of_not_isAlias {t : BondType} (h : t.isAlias = false) : t.resolved = t := by
  refine resolved_eq_self fun namespaces name params type args ht => ?_
  subst ht
  cases h

def Declaration.isService : Declaration → Bool
  | .service _ _ _ _ _ _ => true
  | _ => false

/-- A field that `makeField` made. -/
def Field.Made (f : Field) : Prop :=
  ∃ a o m t n d, makeField a o m t n d = .ok f

/-- Ordered by ordinal, and no ordinal and no name twice. -/
structure FieldsOk (fields : List Field) : Prop where
  sorted : (fields.map Field.fieldOrdinal).Pairwise (· < ·)
  names : (fields.map Field.fieldName).Nodup

mutual

/-- A type over the given parameters, of accepted declarations with as many arguments as they have
    parameters. -/
inductive BondType.Accepted : List TypeParam → BondType → Prop
  | basic {params : List TypeParam} (b : BasicType) : BondType.Accepted params (.basic b)
  | container {params : List TypeParam} {kind : ContainerKind} {t : BondType} :
      BondType.Accepted params t → BondType.Accepted params (.container kind t)
  | map {params : List TypeParam} {k t : BondType} :
      BondType.Accepted params k → BondType.Accepted params t → BondType.Accepted params (.map k t)
  | intTypeArg {params : List TypeParam} (n : Int64) : BondType.Accepted params (.intTypeArg n)
  | typeParam {params : List TypeParam} {p : TypeParam} :
      p ∈ params → BondType.Accepted params (.typeParam p)
  | userDefined {params : List TypeParam} {decl : Declaration} {args : List BondType} :
      Declaration.Accepted decl → decl.isService = false →
      args.length = decl.declParams.length → (∀ t ∈ args, BondType.Accepted params t) →
      BondType.Accepted params (.userDefined decl args)

/-- A declaration as the parser makes them. -/
inductive Declaration.Accepted : Declaration → Prop
  | struct {namespaces : List Namespace} {attributes : List Attribute} {name : String}
      {params : List TypeParam} {base : Option BondType} {fields : List Field} :
      (∀ t, base = some t → BondType.Accepted params t) → FieldsOk fields →
      (∀ f ∈ fields, f.Made) → (∀ f ∈ fields, BondType.Accepted params f.fieldType) →
      Declaration.Accepted (.struct namespaces attributes name params base fields)
  | enum {namespaces : List Namespace} {attributes : List Attribute} {name : String}
      {constants : List Constant} : Declaration.Accepted (.enum namespaces attributes name constants)
  | forward {namespaces : List Namespace} {name : String} {params : List TypeParam} :
      Declaration.Accepted (.forward namespaces name params)
  | typeAlias {namespaces : List Namespace} {name : String} {params : List TypeParam}
      {type : BondType} : BondType.Accepted params type →
      Declaration.Accepted (.typeAlias namespaces name params type)
  | service {namespaces : List Namespace} {attributes : List Attribute} {name : String}
      {params : List TypeParam} {base : Option BondType} {methods : List Method} :
      Declaration.Accepted (.service namespaces attributes name params base methods)

end

/-! ## Grammars -/

/-- The types that are keys where they are written: type parameters, and what the test lets through. -/
def BondType.IsKeyType (t : BondType) : Prop :=
  (∃ p, t = .typeParam p) ∨ t.isScalar = true ∨ t.isString = true

/-- Predicates on the types over some parameters and on declarations that the grammar keeps. -/
structure Grammar (T : List TypeParam → BondType → Prop) (D : Declaration → Prop) : Prop where
  basic : ∀ params b, T params (.basic b)
  container : ∀ {params kind t}, kind ≠ .set → T params t → T params (.container kind t)
  set : ∀ {params k}, T params k → k.IsKeyType → T params (.container .set k)
  map : ∀ {params k t}, T params k → k.IsKeyType → T params t → T params (.map k t)
  intTypeArg : ∀ params n, T params (.intTypeArg n)
  typeParam : ∀ {params p}, p ∈ params → T params (.typeParam p)
  userDefined : ∀ {params decl args}, D decl → decl.isService = false →
    args.length = decl.declParams.length → (∀ t ∈ args, T params t) →
    T params (.userDefined decl args)
  struct : ∀ {namespaces attributes name params base fields}, (∀ t, base = some t → T params t) →
    FieldsOk fields → (∀ f ∈ fields, f.Made) → (∀ f ∈ fields, T params f.fieldType) →
    D (.struct namespaces attributes name params base fields)
  view : ∀ {namespaces attributes name viewed} (fields : List String), D viewed →
    D (.struct namespaces attributes name viewed.declParams viewed.structBase
      (viewed.structFields.filter fun f => decide (f.fieldName ∈ fields)))
  enum : ∀ {namespaces attributes name constants}, D (.enum namespaces attributes name constants)
  forward : ∀ {namespaces name params}, D (.forward namespaces name params)
  typeAlias : ∀ {namespaces name params type}, T params type →
    D (.typeAlias namespaces name params type)
  service : ∀ {namespaces attributes name params base methods},
    D (.service namespaces attributes name params base methods)

/-- A view has some of the fields of the struct. -/
theorem accepted_view {namespaces : List Namespace} {attributes : List Attribute} {name : String}
    {viewed : Declaration} (fields : List String) (hviewed : viewed.Accepted) :
    (Declaration.struct namespaces attributes name viewed.declParams viewed.structBase
      (viewed.structFields.filter fun f => decide (f.fieldName ∈ fields))).Accepted := by
  have hnone : ∀ params, (Declaration.struct namespaces attributes name params none
      []).Accepted := fun params =>
    .struct (by simp) ⟨.nil, .nil⟩ (by simp) (by simp)
  cases hviewed with
  | struct hbase hok hmade haccepted =>
      refine .struct hbase ⟨?_, ?_⟩ ?_ ?_
      · exact hok.sorted.sublist (List.filter_sublist.map _)
      · exact hok.names.sublist (List.filter_sublist.map _)
      · exact fun f hf => hmade f (List.mem_filter.1 hf).1
      · exact fun f hf => haccepted f (List.mem_filter.1 hf).1
  | _ => exact hnone _

theorem grammar_accepted : Grammar BondType.Accepted Declaration.Accepted where
  basic _ b := .basic b
  container _ ht := .container ht
  set hk _ := .container hk
  map hk _ ht := .map hk ht
  intTypeArg _ n := .intTypeArg n
  typeParam hp := .typeParam hp
  userDefined hdecl hservice hcount hargs := .userDefined hdecl hservice hcount hargs
  struct hbase hok hmade hfields := .struct hbase hok hmade hfields
  view fields hviewed := accepted_view fields hviewed
  enum := .enum
  forward := .forward
  typeAlias htype := .typeAlias htype
  service := .service

/-! ## Resolving accepted types -/

/-- A parameter has an argument, which is one of the list. -/
theorem lookup_zip_of_mem {α β : Type} [BEq α] [LawfulBEq α] {ks : List α} {vs : List β} {k : α}
    (hlength : vs.length = ks.length) (hk : k ∈ ks) :
    ∃ v ∈ vs, (ks.zip vs).lookup k = some v := by
  induction ks generalizing vs with
  | nil => cases hk
  | cons k' ks ih =>
      cases vs with
      | nil => cases hlength
      | cons v vs =>
          rw [List.zip_cons_cons, List.lookup_cons]
          by_cases heq : k == k'
          · exact ⟨v, List.mem_cons_self, by rw [heq]⟩
          · have hmem : k ∈ ks := by
              rcases List.mem_cons.1 hk with rfl | hmem
              · exact absurd (beq_self_eq_true k) heq
              · exact hmem
            obtain ⟨v', hv', hlookup⟩ := ih (Nat.succ.inj hlength) hmem
            exact ⟨v', List.mem_cons_of_mem _ hv', by simp [heq, hlookup]⟩

-- With arguments for the parameters of a type, it is a type over the parameters of the arguments.
mutual

theorem BondType.Accepted.resolveParam {params outer : List TypeParam} {args : List BondType}
    (hlength : args.length = params.length) (hargs : ∀ t ∈ args, t.Accepted outer) (t : BondType)
    (h : t.Accepted params) : (t.fmapType (resolveParam params args)).Accepted outer := by
  cases t with
  | basic b => exact .basic b
  | container kind t =>
      cases h with
      | container ht => exact .container (BondType.Accepted.resolveParam hlength hargs t ht)
  | map k t =>
      cases h with
      | map hk ht =>
          exact .map (BondType.Accepted.resolveParam hlength hargs k hk)
            (BondType.Accepted.resolveParam hlength hargs t ht)
  | intTypeArg n => exact .intTypeArg n
  | typeParam p =>
      cases h with
      | typeParam hp =>
          obtain ⟨t, ht, hlookup⟩ := lookup_zip_of_mem hlength hp
          rw [BondType.fmapType, Compiler.resolveParam, hlookup]
          exact hargs t ht
  | userDefined decl args' =>
      cases h with
      | userDefined hdecl hservice hcount hargs' =>
          have hresolved := acceptedTypes_resolveParam hlength hargs args' hargs'
          refine .userDefined hdecl hservice ?_ hresolved
          rw [fmapTypes_eq_map, List.length_map, hcount]

theorem acceptedTypes_resolveParam {params outer : List TypeParam} {args : List BondType}
    (hlength : args.length = params.length) (hargs : ∀ t ∈ args, t.Accepted outer)
    (ts : List BondType) (h : ∀ t ∈ ts, t.Accepted params) :
    ∀ t ∈ fmapTypes (resolveParam params args) ts, t.Accepted outer := by
  cases ts with
  | nil => simp [fmapTypes]
  | cons t ts =>
      rw [List.forall_mem_cons] at h
      rw [fmapTypes, List.forall_mem_cons]
      exact ⟨BondType.Accepted.resolveParam hlength hargs t h.1,
        acceptedTypes_resolveParam hlength hargs ts h.2⟩

end

theorem BondType.Accepted.resolveAlias {params params' : List TypeParam}
    {namespaces : List Namespace} {name : String} {type : BondType} {args : List BondType}
    (h : (BondType.userDefined (.typeAlias namespaces name params' type) args).Accepted params) :
    (resolveAlias params' type args).Accepted params := by
  cases h with
  | userDefined hdecl _ hcount hargs =>
      cases hdecl with
      | typeAlias htype => exact BondType.Accepted.resolveParam hcount hargs _ htype

/-- What an accepted type resolves to is accepted. -/
theorem BondType.Accepted.resolved {params : List TypeParam} {t : BondType}
    (h : t.Accepted params) : t.resolved.Accepted params := by
  induction hn : t.weight using Nat.strong_induction_on generalizing t with
  | _ n ih =>
      by_cases halias : ∃ namespaces name params' type args,
          t = .userDefined (.typeAlias namespaces name params' type) args
      · obtain ⟨namespaces, name, params', type, args, rfl⟩ := halias
        rw [weight_alias] at hn
        rw [resolved_alias]
        exact ih _ (by omega) h.resolveAlias rfl
      · rw [resolved_eq_self fun _ _ _ _ _ heq => halias ⟨_, _, _, _, _, heq⟩]
        exact h

/-! ## Words and numbers -/

section

variable {env : Environment} {s : Symbols} {α : Type} {p : Parser α} {P : α → Prop}

theorem reads_sc : Reads env s sc fun _ => True := by
  have hspace : Reads env s spaceChar fun _ => True :=
    (Reads.ask (P := fun _ => True) trivial).bind fun _ _ => Reads.satisfy.mono fun _ _ => trivial
  have hline : Reads env s lineCmnt fun _ => True :=
    Reads.string.bind fun _ _ => Reads.satisfy.skipMany
  have hblock : Reads env s blockCmnt fun _ => True :=
    Reads.string.bind fun _ _ =>
      (Reads.manyTill Reads.satisfy Reads.string).bind fun _ _ => Reads.pure trivial
  have hspaces : Reads env s (do let _ ← many1 spaceChar) fun _ => True :=
    hspace.many1.bind fun _ _ => Reads.pure trivial
  exact (Reads.orElse hspaces (Reads.orElse hline hblock)).skipMany

theorem reads_lexeme (hp : Reads env s p P) : Reads env s (lexeme p) P :=
  hp.bind fun _ ha => reads_sc.bind fun _ _ => Reads.pure ha

theorem reads_symbol (text : String) : Reads env s (symbol text) fun _ => True :=
  reads_lexeme Reads.string

theorem reads_wordChar : Reads env s (alphaNumChar <|> Parsec.char '_') fun _ => True := by
  have hletter : Reads env s alphaNumChar fun _ => True :=
    (Reads.ask (P := fun _ => True) trivial).bind fun _ _ => Reads.satisfy.mono fun _ _ => trivial
  exact Reads.orElse hletter Reads.char

theorem reads_keyword (word : String) : Reads env s (keyword word) fun _ => True :=
  reads_lexeme (Reads.string.bind fun _ _ => Reads.notFollowedBy)

theorem reads_identifierExcept (restricted : List String) :
    Reads env s (identifierExcept restricted) fun _ => True := by
  have hletter : Reads env s letterChar fun _ => True :=
    (Reads.ask (P := fun _ => True) trivial).bind fun _ _ => Reads.satisfy.mono fun _ _ => trivial
  refine reads_lexeme (Reads.attempt ?_)
  refine (Reads.orElse hletter Reads.char).bind fun c _ => ?_
  refine reads_wordChar.many.bind fun cs _ => ?_
  dsimp only
  split
  · exact Reads.fail _
  · exact Reads.pure trivial

theorem reads_identifier : Reads env s identifier fun _ => True :=
  reads_identifierExcept _

theorem reads_angles (hp : Reads env s p P) : Reads env s (angles p) P :=
  Reads.between (reads_symbol _) (reads_symbol _) hp

theorem reads_braces (hp : Reads env s p P) : Reads env s (braces p) P :=
  Reads.between (reads_symbol _) (reads_symbol _) hp

theorem reads_brackets (hp : Reads env s p P) : Reads env s (brackets p) P :=
  Reads.between (reads_symbol _) (reads_symbol _) hp

theorem reads_parens (hp : Reads env s p P) : Reads env s (parens p) P :=
  Reads.between (reads_symbol _) (reads_symbol _) hp

theorem reads_semiOrComma : Reads env s semiOrComma fun _ => True :=
  Reads.orElse (reads_symbol _) (reads_symbol _)

theorem reads_optionalSemi : Reads env s (optional semi) fun _ => True :=
  (reads_symbol ";").optional.mono fun _ _ => trivial

theorem reads_digitsOf (base : Nat) : Reads env s (digitsOf base) fun _ => True :=
  Reads.satisfy.many1.bind fun _ _ => Reads.pure trivial

theorem reads_natural : Reads env s natural fun _ => True := by
  have hprefixed : ∀ base lower upper, Reads env s (prefixed base lower upper) fun _ => True :=
    fun base lower upper => reads_lexeme (Reads.attempt
      (Reads.char.bind fun _ _ => Reads.satisfy.bind fun _ _ => reads_digitsOf base))
  exact Reads.orElse (hprefixed _ _ _) (Reads.orElse (hprefixed _ _ _)
    (reads_lexeme (reads_digitsOf 10)))

theorem reads_sign {space : Parser Unit} (hspace : Reads env s space fun _ => True) :
    Reads env s (sign space) fun _ => True := by
  have hplus : Reads env s (do let _ ← Parsec.char '+'; return false : Parser Bool) fun _ => True :=
    Reads.char.bind fun _ _ => Reads.pure trivial
  have hminus : Reads env s (do let _ ← Parsec.char '-'; return true : Parser Bool) fun _ => True :=
    Reads.char.bind fun _ _ => Reads.pure trivial
  refine Reads.option trivial ((Reads.orElse hplus hminus).bind fun _ _ => ?_)
  exact hspace.bind fun _ _ => Reads.pure trivial

theorem reads_integer : Reads env s integer fun _ => True :=
  (reads_sign reads_sc).bind fun _ _ => reads_natural.bind fun _ _ => Reads.pure trivial

theorem reads_float : Reads env s float fun _ => True := by
  have hexponent : Reads env s exponentPart fun _ => True :=
    Reads.satisfy.bind fun _ _ => (reads_sign (Reads.pure trivial)).bind fun _ _ =>
      (reads_digitsOf 10).bind fun _ _ => Reads.pure trivial
  have hnumber : Reads env s scientificNumber fun _ => True := by
    refine (reads_digitsOf 10).bind fun whole _ => Reads.orElse ?_ ?_
    · refine Reads.char.bind fun _ _ => Reads.satisfy.many1.bind fun _ _ => ?_
      exact (Reads.option trivial hexponent.attempt).bind fun _ _ => Reads.pure trivial
    · exact hexponent.bind fun _ _ => Reads.pure trivial
  refine (reads_sign reads_sc).bind fun _ _ => (Reads.ask (P := fun _ => True) trivial).bind ?_
  exact fun _ _ => (reads_lexeme hnumber).bind fun _ _ => Reads.pure trivial

theorem reads_charLiteral : Reads env s charLiteral fun _ => True := by
  intro n input consumed c s' rest h
  unfold charLiteral at h
  cases input with
  | nil => cases h
  | cons c₁ input =>
      dsimp only at h
      split at h
      · cases h
        exact ⟨rfl, trivial⟩
      · cases h

theorem reads_stringLiteral : Reads env s stringLiteral fun _ => True :=
  Reads.char.bind fun _ _ =>
    (Reads.manyTill reads_charLiteral Reads.char).bind fun _ _ => Reads.pure trivial

theorem reads_unescapedStringLiteral : Reads env s unescapedStringLiteral fun _ => True :=
  (Reads.between (reads_symbol _) (reads_symbol _) Reads.satisfy.many).bind fun _ _ =>
    Reads.pure trivial

end

/-! ## Types -/

section

variable {env : Environment} {s : Symbols}

theorem reads_qualifiedName : Reads env s qualifiedName fun _ => True :=
  (Reads.sepBy1 Reads.char (reads_identifierExcept _)).mono fun _ _ => trivial

theorem reads_parameters : Reads env s parameters fun _ => True := by
  have hvalue : Reads env s (do let _ ← colon; keyword "value"; return Constraint.value)
      fun _ => True :=
    (reads_symbol _).bind fun _ _ => (reads_keyword _).bind fun _ _ => Reads.pure trivial
  have hparam : Reads env s (do
      let name ← identifier
      let constraint ← optional (do
        let _ ← colon
        keyword "value"
        return Constraint.value)
      return (⟨name, constraint⟩ : TypeParam)) fun _ => True :=
    reads_identifier.bind fun _ _ => hvalue.optional.bind fun _ _ => Reads.pure trivial
  refine Reads.option trivial (reads_angles ?_)
  exact (Reads.sepBy1 (reads_symbol _) hparam).mono fun _ _ => trivial

theorem reads_attributes : Reads env s attributes fun _ => True := by
  have hattribute : Reads env s (brackets (do
      let name ← qualifiedName
      let value ← parens stringLiteral
      return (⟨name, value⟩ : Attribute))) fun _ => True :=
    reads_brackets (reads_qualifiedName.bind fun _ _ =>
      (reads_parens reads_stringLiteral).bind fun _ _ => Reads.pure trivial)
  exact hattribute.many.mono fun _ _ => trivial

theorem reads_basicType : Reads env s basicType fun t => ∃ b, t = .basic b ∧ t.IsKeyType := by
  have hword : ∀ word b, (BondType.basic b).IsKeyType →
      Reads env s (do keyword word; return .basic b : Parser BondType)
        fun t => ∃ b, t = .basic b ∧ t.IsKeyType :=
    fun word b hb => (reads_keyword word).bind fun _ _ => Reads.pure ⟨b, rfl, hb⟩
  refine Reads.orElse (hword _ _ (Or.inr (Or.inl rfl))) ?_
  iterate 9 refine Reads.orElse (hword _ _ (Or.inr (Or.inl rfl))) ?_
  refine Reads.orElse (hword _ _ (Or.inr (Or.inr rfl))) ?_
  exact Reads.orElse (hword _ _ (Or.inr (Or.inr rfl))) (hword _ _ (Or.inr (Or.inl rfl)))

/-- A symbol that is found is one of the table. -/
theorem reads_findSymbol (name : QualifiedName) :
    Reads env s (findSymbol name) (· ∈ s.symbols) := by
  refine (Reads.ask (P := fun e => e = env) rfl).bind fun _ _ => ?_
  refine (Reads.getState (P := fun s' => s' = s) rfl).bind fun s' hs' => ?_
  subst hs'
  split
  · next decl hfind => exact Reads.pure (List.mem_of_find?_eq_some hfind)
  · exact Reads.fail _

theorem reads_findStruct (name : QualifiedName) :
    Reads env s (findStruct name) fun decl => decl ∈ s.symbols ∧
      ∃ namespaces attributes name params base fields,
        decl = .struct namespaces attributes name params base fields := by
  refine (reads_findSymbol name).bind fun decl hdecl => ?_
  cases decl with
  | struct namespaces attributes name params base fields =>
      exact Reads.pure ⟨hdecl, _, _, _, _, _, _, rfl⟩
  | _ => exact Reads.fail _

variable {T : List TypeParam → BondType → Prop} {D : Declaration → Prop} (G : Grammar T D)
  (hsymbols : ∀ x ∈ s.symbols, D x)

include G hsymbols

section

variable {type_ : Parser BondType}
  (htype : Reads env s type_ (T env.currentParams))

include htype

theorem reads_userSymbolWith : Reads env s (userSymbolWith type_) fun x =>
    match x with
    | .inl param => param ∈ env.currentParams
    | .inr (decl, args) => D decl ∧ args.length = decl.declParams.length ∧
        ∀ t ∈ args, T env.currentParams t := by
  refine reads_qualifiedName.bind fun name _ => ?_
  refine (Reads.ask (P := fun e => e = env) rfl).bind fun e he => ?_
  subst he
  split
  · next param hfind => exact Reads.pure (List.mem_of_find?_eq_some hfind)
  · refine (reads_findSymbol name).bind fun decl hdecl => ?_
    have hint : Reads e s (do let n ← integer; return .intTypeArg (Int64.ofInt n))
        (T e.currentParams) :=
      reads_integer.bind fun _ _ => Reads.pure (G.intTypeArg _ _)
    have hargs := Reads.sepBy1 (reads_symbol ",") (Reads.orElse htype hint)
    refine (Reads.option (by simp) (reads_angles hargs)).bind fun args hargs => ?_
    split
    · exact Reads.fail _
    · next hcount => exact Reads.pure ⟨hsymbols decl hdecl, not_not.1 hcount, hargs⟩

theorem reads_userTypeWith :
    Reads env s (userTypeWith type_) (T env.currentParams) := by
  refine (reads_userSymbolWith G hsymbols htype).bind fun x hx => ?_
  cases x with
  | inl param => exact Reads.pure (G.typeParam hx)
  | inr x =>
      obtain ⟨decl, args⟩ := x
      obtain ⟨hdecl, hcount, hargs⟩ := hx
      cases decl with
      | service => exact Reads.fail _
      | _ => exact Reads.pure (G.userDefined hdecl rfl hcount hargs)

theorem reads_checkUserTypeWith (check : BondType → Bool) :
    Reads env s (checkUserTypeWith type_ check) fun t =>
      T env.currentParams t ∧ ((∃ p, t = .typeParam p) ∨ check t = true) := by
  refine (reads_userTypeWith G hsymbols htype).bind fun t ht => ?_
  have hreturn : ∀ valid : Bool, (valid = true → (∃ p, t = .typeParam p) ∨ check t = true) →
      Reads env s (if valid then return t else fail "unexpected type" : Parser BondType)
        fun t => T env.currentParams t ∧ ((∃ p, t = .typeParam p) ∨ check t = true) := by
    intro valid hvalid
    cases valid with
    | true => exact Reads.pure ⟨ht, hvalid rfl⟩
    | false => exact Reads.fail _
  refine hreturn _ fun hvalid => ?_
  cases t with
  | typeParam p => exact Or.inl ⟨p, rfl⟩
  | _ => exact Or.inr hvalid

theorem reads_keyTypeWith :
    Reads env s (keyTypeWith type_) fun t => T env.currentParams t ∧ t.IsKeyType := by
  refine Reads.attempt (Reads.orElse (reads_basicType.mono fun t ht => ?_) ?_)
  · obtain ⟨b, rfl, hkey⟩ := ht
    exact ⟨G.basic _ b, hkey⟩
  · refine (reads_checkUserTypeWith G hsymbols htype _).mono fun t ht => ⟨ht.1, ?_⟩
    rcases ht.2 with hparam | hcheck
    · exact Or.inl hparam
    · exact Or.inr (by simpa using hcheck)

theorem reads_complexTypeWith :
    Reads env s (complexTypeWith type_) (T env.currentParams) := by
  have hcontainer : ∀ word kind, kind ≠ .set →
      Reads env s (do keyword word; angles (.container kind <$> type_)) (T env.currentParams) := by
    intro word kind hkind
    refine (reads_keyword word).bind fun _ _ => reads_angles (Reads.map ?_)
    exact htype.mono fun _ ht => G.container hkind ht
  refine Reads.orElse (hcontainer _ _ (by simp)) (Reads.orElse ?_ ?_)
  · exact (reads_keyword _).bind fun _ _ => Reads.pure (G.basic _ _)
  refine Reads.orElse (hcontainer _ _ (by simp)) (Reads.orElse (hcontainer _ _ (by simp)) ?_)
  refine Reads.orElse ?_ (Reads.orElse ?_ ?_)
  · refine (reads_keyword _).bind fun _ _ => reads_angles (Reads.map ?_)
    exact (reads_keyTypeWith G hsymbols htype).mono fun _ hk => G.set hk.1 hk.2
  · refine (reads_keyword _).bind fun _ _ => reads_angles ?_
    refine (reads_keyTypeWith G hsymbols htype).bind fun k hk => (reads_symbol _).bind fun _ _ => ?_
    exact Reads.bind htype fun t ht => Reads.pure (G.map hk.1 hk.2 ht)
  · refine (reads_keyword _).bind fun _ _ => reads_angles (Reads.map ?_)
    refine (Reads.attempt (reads_checkUserTypeWith G hsymbols htype _)).mono fun _ ht => ?_
    exact G.container (by simp) ht.1

end

theorem reads_type : Reads env s type_ (T env.currentParams) := by
  refine Reads.bounded fun k => ?_
  induction k with
  | zero => exact Ensures.exhausted
  | succ k ih =>
      refine Reads.orElse (Reads.attempt (reads_basicType.mono fun t ht => ?_)) ?_
      · obtain ⟨b, rfl, -⟩ := ht
        exact G.basic _ b
      refine Reads.orElse ?_ ?_
      · exact Reads.attempt (reads_complexTypeWith G hsymbols ih)
      · exact Reads.attempt (reads_userTypeWith G hsymbols ih)

theorem reads_ftype : Reads env s ftype (T env.currentParams) := by
  refine Reads.orElse ?_ (Reads.orElse ?_ (reads_type G hsymbols))
  · exact (reads_keyword _).bind fun _ _ => Reads.pure (G.basic _ _)
  · exact (reads_keyword _).bind fun _ _ => Reads.pure (G.basic _ _)

end

/-! ## Fields -/

theorem makeField_type {a : List Attribute} {o : UInt16} {m : Modifier} {t : BondType} {n : String}
    {d : Option Default} {f : Field} (h : makeField a o m t n d = .ok f) :
    f.fieldType = t ∨ f.fieldType = .container .maybe t := by
  have hchecked : ∀ d, makeField a o m t n d = .ok f →
      d ≠ some .nothing → f.fieldType = t := by
    intro d h hd
    unfold makeField at h
    split at h
    · exact absurd rfl hd
    · split at h
      · cases h
      · split at h
        · cases h
          rfl
        · cases h
  by_cases hd : d = some .nothing
  · subst hd
    unfold makeField at h
    dsimp only at h
    split at h
    · cases h
    · cases h
      exact Or.inr rfl
  · exact Or.inl (hchecked d h hd)

/-- Without duplicates, all values are different from each other and from those seen before. -/
theorem nodup_of_findDuplicatesBy {α β : Type} [DecidableEq β] {accessor : α → β} {seen : List β}
    {xs : List α} (h : findDuplicatesBy accessor seen xs = []) :
    (xs.map accessor).Nodup ∧ ∀ x ∈ xs, accessor x ∉ seen := by
  induction xs generalizing seen with
  | nil => simp
  | cons x xs ih =>
      rw [findDuplicatesBy] at h
      split at h
      · cases h
      · next hx =>
          obtain ⟨hnodup, hnew⟩ := ih h
          rw [List.map_cons, List.nodup_cons]
          refine ⟨⟨?_, hnodup⟩, ?_⟩
          · intro hmem
            obtain ⟨y, hy, hxy⟩ := List.mem_map.1 hmem
            exact hnew y hy (by rw [hxy]; exact List.mem_cons_self)
          · rw [List.forall_mem_cons]
            exact ⟨hx, fun y hy hseen => hnew y hy (List.mem_cons_of_mem _ hseen)⟩

theorem sortFields_perm (fields : List Field) : (sortFields fields).Perm fields :=
  List.mergeSort_perm fields _

theorem sortFields_sorted (fields : List Field) :
    ((sortFields fields).map Field.fieldOrdinal).Pairwise (· ≤ ·) := by
  have htrans : ∀ f g h : Field, decide (f.fieldOrdinal ≤ g.fieldOrdinal) = true →
      decide (g.fieldOrdinal ≤ h.fieldOrdinal) = true →
      decide (f.fieldOrdinal ≤ h.fieldOrdinal) = true := by
    intro f g h hfg hgh
    exact decide_eq_true (UInt16.le_trans (of_decide_eq_true hfg) (of_decide_eq_true hgh))
  have htotal : ∀ f g : Field, (decide (f.fieldOrdinal ≤ g.fieldOrdinal) ||
      decide (g.fieldOrdinal ≤ f.fieldOrdinal)) = true := by
    intro f g
    rcases UInt16.le_total f.fieldOrdinal g.fieldOrdinal with h | h <;> simp [h]
  have hsorted := List.pairwise_mergeSort htrans htotal fields
  rw [List.pairwise_map]
  exact hsorted.imp fun h => of_decide_eq_true h

/-- The fields of a struct are ordered and different once they are sorted. -/
theorem fieldsOk_sortFields {fields : List Field}
    (h : findDuplicatesBy Field.fieldOrdinal [] fields ++
      findDuplicatesBy Field.fieldName [] fields = []) : FieldsOk (sortFields fields) := by
  obtain ⟨hordinals, hnames⟩ := List.append_eq_nil_iff.1 h
  have hperm := sortFields_perm fields
  constructor
  · have hnodup : ((sortFields fields).map Field.fieldOrdinal).Nodup :=
      (hperm.map _).nodup_iff.2 (nodup_of_findDuplicatesBy hordinals).1
    have hboth := (sortFields_sorted fields).and hnodup
    refine hboth.imp fun ⟨hle, hne⟩ => ?_
    rw [UInt16.lt_iff_le_and_ne]
    exact ⟨hle, hne⟩
  · exact (hperm.map _).nodup_iff.2 (nodup_of_findDuplicatesBy hnames).1

section

variable {env : Environment} {s : Symbols}

theorem reads_ordinal : Reads env s ordinal fun _ => True := by
  refine reads_integer.bind fun i _ => ?_
  split
  · exact (reads_symbol _).bind fun _ _ => Reads.pure trivial
  · exact Reads.fail _

theorem reads_modifier : Reads env s modifier fun _ => True := by
  have hword : ∀ word m, Reads env s (do keyword word; return m : Parser Modifier) fun _ => True :=
    fun word m => (reads_keyword word).bind fun _ _ => Reads.pure trivial
  exact Reads.option trivial (Reads.orElse (hword _ _) (Reads.orElse (hword _ _) (hword _ _)))

theorem reads_defaultValue : Reads env s defaultValue fun _ => True := by
  have hword : ∀ word d, Reads env s (do keyword word; return d : Parser Default) fun _ => True :=
    fun word d => (reads_keyword word).bind fun _ _ => Reads.pure trivial
  have hstring : Reads env s (do let _ ← optional (Parsec.char 'L'); stringLiteral) fun _ => True :=
    Reads.char.optional.bind fun _ _ => reads_stringLiteral
  refine (reads_symbol _).bind fun _ _ => ?_
  refine Reads.orElse (hword _ _) (Reads.orElse (hword _ _) (Reads.orElse (hword _ _) ?_))
  refine Reads.orElse (Reads.map (hstring.attempt.mono fun _ _ => trivial)) ?_
  refine Reads.orElse (Reads.map (reads_identifier.mono fun _ _ => trivial)) ?_
  refine Reads.orElse (Reads.map (reads_float.attempt.mono fun _ _ => trivial)) ?_
  exact Reads.map (reads_integer.mono fun _ _ => trivial)

variable {T : List TypeParam → BondType → Prop} {D : Declaration → Prop} (G : Grammar T D)
  (hsymbols : ∀ x ∈ s.symbols, D x)

include G hsymbols

theorem reads_field :
    Reads env s field fun f => f.Made ∧ T env.currentParams f.fieldType := by
  refine reads_attributes.bind fun a _ => reads_ordinal.bind fun o _ => ?_
  refine reads_modifier.bind fun m _ => (reads_ftype G hsymbols).bind fun t ht => ?_
  refine reads_identifier.bind fun n _ => reads_defaultValue.optional.bind fun d _ => ?_
  split
  · next f hf =>
      refine Reads.pure ⟨⟨a, o, m, t, n, d, hf⟩, ?_⟩
      rcases makeField_type hf with h | h
      · rw [h]
        exact ht
      · rw [h]
        exact G.container (by simp) ht
  · exact Reads.fail _

theorem reads_structBody : Reads env s structBody fun fields => FieldsOk fields ∧
    (∀ f ∈ fields, f.Made) ∧ ∀ f ∈ fields, T env.currentParams f.fieldType := by
  have hfield : Reads env s (do let f ← field; let _ ← semi; return f)
      fun f => f.Made ∧ T env.currentParams f.fieldType :=
    (reads_field G hsymbols).bind fun f hf => (reads_symbol _).bind fun _ _ => Reads.pure hf
  refine (reads_braces hfield.many).bind fun fields hfields => ?_
  have hunique : Reads env s (unique fields) fun fields' => fields' = fields ∧
      findDuplicatesBy Field.fieldOrdinal [] fields ++
        findDuplicatesBy Field.fieldName [] fields = [] := by
    unfold unique
    split
    · next h => exact Reads.pure ⟨rfl, h⟩
    · exact Reads.fail _
  refine hunique.bind fun fields' hfields' => ?_
  obtain ⟨rfl, hduplicates⟩ := hfields'
  have hmem : ∀ f ∈ sortFields fields', f ∈ fields' := fun f hf =>
    (sortFields_perm fields').mem_iff.1 hf
  exact Reads.pure ⟨fieldsOk_sortFields hduplicates, fun f hf => (hfields f (hmem f hf)).1,
    fun f hf => (hfields f (hmem f hf)).2⟩

end

end Bond.Compiler

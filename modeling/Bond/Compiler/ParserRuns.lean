import Bond.Compiler.Symbols

set_option autoImplicit false

/-! # Parses as runs of the table

What is parsed from a text, imports included, is a run of definitions over the table of symbols. -/

namespace Bond.Compiler

open Bond.Lib
open Bond.Lib.Parsec

/-! ## The table keeps accepted declarations -/

theorem Update.mem {decl z : Declaration} {table table' : List Declaration}
    (h : Update decl table table') (hz : z ∈ table') : z = decl ∨ z ∈ table := by
  cases h with
  | new => exact List.mem_cons.1 hz
  | replaced =>
      rcases List.mem_cons.1 hz with hz | hz
      · exact Or.inl hz
      · exact Or.inr (List.mem_filter.1 hz).1
  | repeated => exact Or.inr hz

/-- What holds of a declaration and of the table still holds of the table with it. -/
theorem forall_of_updated {D : Declaration → Prop} {decl : Declaration}
    {table table' : List Declaration} (h : updated decl table = .symbols table') (hdecl : D decl)
    (htable : ∀ x ∈ table, D x) : ∀ x ∈ table', D x := by
  intro x hx
  rcases (update_of_updated h).mem hx with rfl | hx
  · exact hdecl
  · exact htable x hx

theorem Definition.Made.accepted {table : List Declaration} {d : Definition} (h : d.Made table)
    (htable : ∀ x ∈ table, x.Accepted) : d.decl.Accepted := by
  cases h with
  | struct haccepted => exact haccepted
  | view hviewed => exact accepted_view _ (htable _ hviewed)
  | other _ haccepted => exact haccepted

theorem accepted_of_define {d : Definition} {table table' : List Declaration}
    (h : define d table = .symbols table') (hd : d.decl.Accepted)
    (htable : ∀ x ∈ table, x.Accepted) : ∀ x ∈ table', x.Accepted := by
  cases d with
  | other decl => exact forall_of_updated h hd htable
  | struct namespaces attributes name params base fields =>
      cases hhead : updated (.forward namespaces name params) table with
      | rejected | impossible => simp only [define, hhead] at h; cases h
      | symbols table₁ =>
          simp only [define, hhead] at h
          exact forall_of_updated h hd (forall_of_updated hhead .forward htable)

/-- Whatever is defined in a run and whatever is in the table is accepted. -/
theorem Runs.accepted {table table' : List Declaration} {ds : List Definition}
    (h : Runs table ds table') (htable : ∀ x ∈ table, x.Accepted) :
    (∀ x ∈ table', x.Accepted) ∧ ∀ d ∈ ds, d.decl.Accepted := by
  induction h with
  | nil table => exact ⟨htable, by simp⟩
  | cons hmade hd _ ih =>
      have haccepted := hmade.accepted htable
      obtain ⟨htable', hds⟩ := ih (accepted_of_define hd haccepted htable)
      exact ⟨htable', List.forall_mem_cons.2 ⟨haccepted, hds⟩⟩

/-! ## Declarations -/

section

variable {env : Environment} {s : Symbols} {T : List TypeParam → BondType → Prop}
  {D : Declaration → Prop}

theorem ensures_updateSymbols (decl : Declaration) :
    Ensures env s (updateSymbols decl) fun _ s' =>
      updated decl s.symbols = .symbols s'.symbols := by
  refine Ensures.bind (Ensures.getState (Q := fun a s' => a = s ∧ s' = s) ⟨rfl, rfl⟩) ?_
  rintro a s' ⟨rfl, rfl⟩
  split
  · next symbols h => exact Ensures.modifyState h
  · exact Ensures.fail _
  · exact Ensures.abort _

theorem reads_currentNamespaces : Reads env s currentNamespaces fun _ => True :=
  (Reads.ask (P := fun _ => True) trivial).bind fun _ _ => Reads.pure trivial

theorem reads_forward (G : Grammar T D) :
    Reads env s forward fun decl => decl.isStruct = false ∧ D decl := by
  refine reads_currentNamespaces.bind fun _ _ => (reads_keyword _).bind fun _ _ => ?_
  refine reads_identifier.bind fun _ _ => reads_parameters.bind fun _ _ => ?_
  exact (reads_symbol _).bind fun _ _ => Reads.pure ⟨rfl, G.forward⟩

theorem reads_enum (G : Grammar T D) (attr : List Attribute) :
    Reads env s (enum attr) fun decl => decl.isStruct = false ∧ D decl := by
  have hvalue : Reads env s (do let _ ← equal; let i ← integer; return Int64.ofInt i)
      fun _ => True :=
    (reads_symbol _).bind fun _ _ => reads_integer.bind fun _ _ => Reads.pure trivial
  have hconstant : Reads env s constant fun _ => True :=
    reads_identifier.bind fun _ _ => hvalue.optional.bind fun _ _ => Reads.pure trivial
  refine reads_currentNamespaces.bind fun _ _ => (reads_keyword _).attempt.bind fun _ _ => ?_
  refine reads_identifier.bind fun _ _ => ?_
  refine (reads_braces (Reads.sepEndBy1 reads_semiOrComma hconstant)).bind fun _ _ => ?_
  exact reads_optionalSemi.bind fun _ _ => Reads.pure ⟨rfl, G.enum⟩

/-- A view is made of a struct of the table. -/
theorem reads_view (attr : List Attribute) (name : String) :
    Reads env s (view attr name) fun decl => ∃ viewed ∈ s.symbols, ∃ namespaces,
      ∃ fields : List String, decl = .struct namespaces attr name viewed.declParams viewed.structBase
        (viewed.structFields.filter fun f => decide (f.fieldName ∈ fields)) := by
  refine (reads_keyword _).attempt.bind fun _ _ => reads_qualifiedName.bind fun viewed _ => ?_
  refine (reads_findStruct viewed).bind fun decl hdecl => ?_
  refine (reads_braces (Reads.sepEndBy1 reads_semiOrComma reads_identifier)).bind fun fields _ => ?_
  refine reads_currentNamespaces.bind fun namespaces _ => reads_optionalSemi.bind fun _ _ => ?_
  exact Reads.pure ⟨decl, hdecl.1, namespaces, fields, rfl⟩

section

variable (G : Grammar T D) (hsymbols : ∀ x ∈ s.symbols, D x)

include G hsymbols

theorem reads_alias : Reads env s alias_ fun decl => decl.isStruct = false ∧ D decl := by
  refine (reads_keyword _).attempt.bind fun _ _ => reads_identifier.bind fun _ _ => ?_
  refine reads_parameters.bind fun params _ => reads_currentNamespaces.bind fun _ _ => ?_
  refine Reads.withEnv ((reads_symbol _).bind fun _ _ => ?_)
  refine (reads_type G hsymbols).bind fun type htype => (reads_symbol _).bind fun _ _ => ?_
  exact Reads.pure ⟨rfl, G.typeAlias htype⟩

theorem reads_userStructRef : Reads env s userStructRef fun _ => True :=
  (reads_checkUserTypeWith G hsymbols (reads_type G hsymbols) _).attempt.mono fun _ _ => trivial

theorem reads_input : Reads env s input fun _ => True := by
  have hstruct : Reads env s userStructRef fun _ => True := reads_userStructRef G hsymbols
  have hvoid : Reads env s methodTypeVoid fun _ => True :=
    Reads.attempt ((reads_keyword _).bind fun _ _ => Reads.pure trivial)
  have hstreaming : Reads env s methodInputTypeStreaming fun _ => True :=
    Reads.attempt ((reads_keyword _).bind fun _ _ => Reads.map hstruct)
  have hunary : Reads env s methodTypeUnary fun _ => True := Reads.map hstruct
  have htypes := Reads.orElse hvoid (Reads.orElse hstreaming hunary)
  exact (reads_parens htypes.optional).bind fun _ _ => Reads.pure trivial

theorem reads_method : Reads env s method fun _ => True := by
  have hstruct : Reads env s userStructRef fun _ => True := reads_userStructRef G hsymbols
  have hvoid : Reads env s methodTypeVoid fun _ => True :=
    Reads.attempt ((reads_keyword _).bind fun _ _ => Reads.pure trivial)
  have hstreaming : Reads env s methodResultTypeStreaming fun _ => True :=
    Reads.attempt ((reads_keyword _).bind fun _ _ => hstruct.bind fun _ _ =>
      reads_identifier.lookAhead.bind fun _ _ => Reads.pure trivial)
  have hunary : Reads env s methodTypeUnary fun _ => True := Reads.map hstruct
  refine reads_attributes.bind fun a _ => Reads.orElse ?_ ?_
  · refine (reads_keyword _).lookAhead.bind fun _ _ => (reads_keyword _).bind fun _ _ => ?_
    refine reads_identifier.bind fun _ _ => (reads_input G hsymbols).bind fun methodInput _ => ?_
    cases methodInput with
    | streaming => exact Reads.fail _
    | _ => exact Reads.pure trivial
  · refine (Reads.orElse hvoid (Reads.orElse hstreaming hunary)).bind fun _ _ => ?_
    exact reads_identifier.bind fun _ _ => (reads_input G hsymbols).bind fun _ _ => Reads.pure trivial

theorem reads_serviceType : Reads env s serviceType fun _ => True := by
  refine (reads_userSymbolWith G hsymbols (reads_type G hsymbols)).bind fun x _ => ?_
  rcases x with param | ⟨decl, args⟩
  · exact Reads.fail _
  · cases decl with
    | service => exact Reads.pure trivial
    | _ => exact Reads.fail _

theorem reads_service (attr : List Attribute) :
    Reads env s (service attr) fun decl => decl.isStruct = false ∧ D decl := by
  refine (reads_keyword _).attempt.bind fun _ _ => reads_identifier.bind fun _ _ => ?_
  refine reads_parameters.bind fun params _ => reads_currentNamespaces.bind fun _ _ => ?_
  refine Reads.withEnv ?_
  refine ((reads_symbol _).bind fun _ _ => reads_serviceType G hsymbols).optional.bind fun _ _ => ?_
  refine (reads_braces (Reads.endBy (reads_symbol _) (reads_method G hsymbols))).bind
    fun methods _ => ?_
  have hunique : ∀ e, Reads e s (checkUniqueMethodNames methods) fun _ => True := by
    intro e
    unfold checkUniqueMethodNames
    split
    · exact Reads.pure trivial
    · exact Reads.fail _
    · exact Reads.fail _
  exact (hunique _).bind fun _ _ => reads_optionalSemi.bind fun _ _ => Reads.pure ⟨rfl, G.service⟩

/-- The head of a struct definition goes into the table before its base and fields are parsed. -/
theorem ensures_struct (attr : List Attribute) (name : String) :
    Ensures env s (struct_ attr name) fun decl s' => ∃ namespaces params base fields,
      decl = .struct namespaces attr name params base fields ∧ D decl ∧
      updated (.forward namespaces name params) s.symbols = .symbols s'.symbols := by
  refine Ensures.bind reads_parameters fun params s' hs' => ?_
  obtain ⟨rfl, -⟩ := hs'
  refine Ensures.bind reads_currentNamespaces fun namespaces s' hs' => ?_
  obtain ⟨rfl, -⟩ := hs'
  refine (ensures_updateSymbols _).bind fun _ s₁ hhead => Ensures.withEnv ?_
  have hsymbols₁ : ∀ x ∈ s₁.symbols, D x := forall_of_updated hhead G.forward hsymbols
  have hbody : Reads { env with currentParams := params } s₁ (do
      let base ← structBaseClause
      let fields ← structBody
      let _ ← optional semi
      return .struct namespaces attr name params base fields : Parser Declaration)
      fun decl => ∃ base fields, decl = .struct namespaces attr name params base fields ∧ D decl := by
    have htype : Reads { env with currentParams := params } s₁ userType
        (T params) :=
      reads_userTypeWith G hsymbols₁ (reads_type G hsymbols₁)
    have hbase := ((reads_symbol ":").bind fun _ _ => htype).optional
    refine hbase.bind fun base hbase => (reads_structBody G hsymbols₁).bind fun fields hfields => ?_
    refine reads_optionalSemi.bind fun _ _ => Reads.pure ⟨base, fields, rfl, ?_⟩
    exact G.struct hbase hfields.1 hfields.2.1 hfields.2.2
  refine Ensures.mono hbody fun decl s₂ h => ?_
  obtain ⟨rfl, base, fields, hdecl, haccepted⟩ := h
  exact ⟨namespaces, params, base, fields, hdecl, haccepted, hhead⟩

end

variable (hsymbols : ∀ x ∈ s.symbols, x.Accepted)

include hsymbols

/-- A declaration that was parsed is a step of a run, once it goes into the table. -/
def Pending (table table' : List Declaration) (decl : Declaration) : Prop :=
  ∃ d : Definition, d.decl = decl ∧ d.Made table ∧
    ∀ table'', updated decl table' = .symbols table'' → define d table = .symbols table''

omit hsymbols in
theorem pending_of_reads {p : Parser Declaration}
    (hp : Reads env s p fun decl => (Definition.other decl).Made s.symbols) :
    Ensures env s p fun decl s' => Pending s.symbols s'.symbols decl := by
  refine Ensures.mono hp fun decl s' h => ?_
  obtain ⟨rfl, hmade⟩ := h
  exact ⟨.other decl, rfl, hmade, fun _ h => h⟩

theorem ensures_structDeclaration (attr : List Attribute) :
    Ensures env s (structDeclaration attr) fun decl s' => Pending s.symbols s'.symbols decl := by
  refine Ensures.bind (reads_keyword _) fun _ s' hs' => ?_
  obtain ⟨rfl, -⟩ := hs'
  refine Ensures.bind reads_identifier fun name s' hs' => ?_
  obtain ⟨rfl, -⟩ := hs'
  have hview : Reads env s' (view attr name) fun decl => (Definition.other decl).Made s'.symbols :=
    (reads_view attr name).mono fun decl h => by
      obtain ⟨viewed, hviewed, namespaces, fields, rfl⟩ := h
      exact .view hviewed
  refine Ensures.orElse' (pending_of_reads hview) ?_
  refine (ensures_struct grammar_accepted hsymbols attr name).mono fun decl s' h => ?_
  obtain ⟨namespaces, params, base, fields, rfl, haccepted, hhead⟩ := h
  refine ⟨.struct namespaces attr name params base fields, rfl, .struct haccepted, ?_⟩
  intro table' h
  simp only [define, hhead]
  exact h

/-- A declaration is one step of a run. -/
theorem ensures_declaration : Ensures env s declaration fun decl s' =>
    ∃ d : Definition, d.decl = decl ∧ d.Made s.symbols ∧
      define d s.symbols = .symbols s'.symbols := by
  have hother : ∀ {p : Parser Declaration},
      Reads env s p (fun decl => decl.isStruct = false ∧ decl.Accepted) →
      Ensures env s p fun decl s' => Pending s.symbols s'.symbols decl :=
    fun hp => pending_of_reads (hp.mono fun _ h => .other h.1 h.2)
  have hattributed : Ensures env s (do
      let a ← attributes
      service a <|> enum a <|> structDeclaration a)
      fun decl s' => Pending s.symbols s'.symbols decl := by
    refine Ensures.bind reads_attributes fun attr s' hs' => ?_
    obtain ⟨rfl, -⟩ := hs'
    refine Ensures.orElse' (hother (reads_service grammar_accepted hsymbols attr)) ?_
    exact Ensures.orElse' (hother (reads_enum grammar_accepted attr)) (ensures_structDeclaration hsymbols attr)
  refine Ensures.bind (Ensures.orElse' (hother (reads_forward grammar_accepted).attempt)
    (Ensures.orElse' (hother (reads_alias grammar_accepted hsymbols)) hattributed)) fun decl s' h => ?_
  obtain ⟨d, hd, hmade, hdefine⟩ := h
  refine (ensures_updateSymbols decl).bind fun _ s'' hs'' => Ensures.pure ?_
  exact ⟨d, hd, hmade, hdefine _ hs''⟩

end

/-! ## Files -/

theorem ensures_declarations {env : Environment} {s : Symbols}
    (hsymbols : ∀ x ∈ s.symbols, x.Accepted) :
    Ensures env s (many declaration) fun decls s' =>
      ∃ ds, Runs s.symbols ds s'.symbols ∧ ds.map Definition.decl = decls := by
  refine Ensures.many_values ⟨[], .nil _, rfl⟩ fun decls s' h => ?_
  obtain ⟨ds, hruns, rfl⟩ := h
  refine (ensures_declaration (hruns.accepted hsymbols).1).mono fun decl s'' h => ?_
  obtain ⟨d, rfl, hmade, hdefine⟩ := h
  refine ⟨ds ++ [d], hruns.append (.cons hmade hdefine (.nil _)), ?_⟩
  rw [List.map_append, List.map_singleton]

/-- An import does to the table what its file does, or nothing. -/
theorem ensures_import {bond : Parser BondSchema} {env : Environment} {s : Symbols}
    {I : List Declaration → Prop} (hs : I s.symbols)
    (hbond : ∀ (env : Environment) (s' : Symbols), s'.symbols = s.symbols →
      Ensures env s' bond fun _ s'' => I s''.symbols) :
    Ensures env s (import_ bond) fun _ s' => I s'.symbols := by
  have hprocess : ∀ i, Ensures env s (processImport bond i) fun _ s' => I s'.symbols := by
    intro i
    refine Ensures.bind (Reads.ask (P := fun e => e = env) rfl) fun e s' h => ?_
    obtain ⟨rfl, rfl⟩ := h
    split
    · exact Ensures.abort _
    · next path content _ =>
        refine Ensures.bind (Reads.getState (P := fun s₁ => s₁ = s') rfl) fun s₁ s₂ h => ?_
        obtain ⟨rfl, rfl⟩ := h
        split
        · exact Ensures.pure hs
        · refine Ensures.bind (Ensures.modifyState (Q := fun _ s₃ => s₃.symbols = s₁.symbols) rfl) ?_
          intro _ s₃ hs₃
          refine Ensures.bind (Reads.setInput) fun _ s₄ h => ?_
          obtain ⟨rfl, -⟩ := h
          exact Ensures.bind (Ensures.withEnv (hbond _ _ hs₃)) fun _ s₅ h => Ensures.pure h
  refine Ensures.bind (reads_keyword _) fun _ s' h => ?_
  obtain ⟨rfl, -⟩ := h
  refine Ensures.bind reads_unescapedStringLiteral fun path s₁ h => ?_
  obtain ⟨rfl, -⟩ := h
  refine Ensures.bind reads_optionalSemi fun _ s₂ h => ?_
  obtain ⟨rfl, -⟩ := h
  refine Ensures.bind Reads.getInput fun src s₃ h => ?_
  obtain ⟨rfl, -⟩ := h
  refine (hprocess ⟨path⟩).bind fun _ s₄ h => Ensures.bind Reads.setInput fun _ s₅ h' => ?_
  obtain ⟨rfl, -⟩ := h'
  exact Ensures.pure h

theorem reads_namespaceDeclaration {env : Environment} {s : Symbols} :
    Reads env s namespaceDeclaration fun _ => True := by
  have hword : ∀ word l, Reads env s (do keyword word; return l : Parser Language) fun _ => True :=
    fun word l => (reads_keyword word).bind fun _ _ => Reads.pure trivial
  refine (reads_keyword _).bind fun _ _ => ?_
  refine (Reads.optional (Reads.orElse (hword _ _) (Reads.orElse (hword _ _)
    (Reads.orElse (hword _ _) (hword _ _))))).bind fun _ _ => ?_
  exact reads_qualifiedName.bind fun _ _ => reads_optionalSemi.bind fun _ _ => Reads.pure trivial

/-- A file is a run: those of its imports, then its own declarations. -/
theorem ensures_bond (k : Nat) {env : Environment} {s : Symbols}
    (hsymbols : ∀ x ∈ s.symbols, x.Accepted) :
    Ensures env s (bondBounded k) fun schema s' =>
      ∃ ds, Runs s.symbols ds s'.symbols ∧
        ∀ decl ∈ schema.bondDeclarations, decl ∈ ds.map Definition.decl := by
  induction k generalizing env s with
  | zero => exact Ensures.exhausted
  | succ k ih =>
      refine Ensures.bind reads_sc fun _ s' h => ?_
      obtain ⟨rfl, -⟩ := h
      have himports : Ensures env s' (many (import_ (bondBounded k))) fun _ s'' =>
          ∃ ds, Runs s'.symbols ds s''.symbols := by
        refine Ensures.many_values ⟨[], .nil _⟩ fun _ s₁ h => ?_
        obtain ⟨ds, hruns⟩ := h
        have hsymbols₁ := (hruns.accepted hsymbols).1
        refine ensures_import (I := fun table => ∃ ds, Runs s'.symbols ds table) ⟨ds, hruns⟩
          fun env s₂ hs₂ => ?_
        refine (ih (hs₂ ▸ hsymbols₁)).mono fun _ s₃ h => ?_
        obtain ⟨ds', hruns', -⟩ := h
        exact ⟨ds ++ ds', hruns.append (hs₂ ▸ hruns')⟩
      refine himports.bind fun imports s₁ h => ?_
      obtain ⟨ds, hruns⟩ := h
      refine Ensures.bind reads_namespaceDeclaration.many1 fun namespaces s₂ h => ?_
      obtain ⟨rfl, -⟩ := h
      refine Ensures.withEnv ?_
      refine (ensures_declarations (hruns.accepted hsymbols).1).bind fun decls s₃ h => ?_
      obtain ⟨ds', hruns', rfl⟩ := h
      refine Ensures.bind Reads.eof fun _ s₄ h => ?_
      obtain ⟨rfl, -⟩ := h
      refine Ensures.pure ⟨ds ++ ds', hruns.append hruns', fun decl hdecl => ?_⟩
      rw [List.map_append]
      exact List.mem_append_right _ hdecl

/-- An accepted text is a run from the empty table. -/
theorem runs_of_parseBond {charClasses : CharClasses} {scientific : Scientific}
    {resolveImport : String → String → Except String (String × List Char)} {content rest : List Char}
    {file : String} {n : Nat} {consumed : Bool} {schema : BondSchema} {s : Symbols}
    (h : parseBond charClasses scientific resolveImport content file n =
      .ok consumed schema s rest) :
    ∃ ds, Runs [] ds s.symbols ∧
      ∀ decl ∈ schema.bondDeclarations, decl ∈ ds.map Definition.decl :=
  ensures_bond n (by simp) n _ consumed schema s rest h

/-! ## What the grammar keeps -/

section

variable {T : List TypeParam → BondType → Prop} {D : Declaration → Prop} (G : Grammar T D)

include G

theorem ensures_declaration_forall {env : Environment} {s : Symbols} (hsymbols : ∀ x ∈ s.symbols, D x) :
    Ensures env s declaration fun _ s' => ∀ x ∈ s'.symbols, D x := by
  have hreads : ∀ {p : Parser Declaration}, Reads env s p D →
      Ensures env s p fun decl s' => D decl ∧ ∀ x ∈ s'.symbols, D x := by
    refine fun hp => Ensures.mono hp fun decl s' h => ?_
    obtain ⟨rfl, hdecl⟩ := h
    exact ⟨hdecl, hsymbols⟩
  have hother : ∀ {p : Parser Declaration}, Reads env s p (fun decl => decl.isStruct = false ∧ D decl) →
      Ensures env s p fun decl s' => D decl ∧ ∀ x ∈ s'.symbols, D x :=
    fun hp => hreads (hp.mono fun _ h => h.2)
  have hview : ∀ attr name, Reads env s (view attr name) D :=
    fun attr name => (reads_view attr name).mono fun decl h => by
      obtain ⟨viewed, hviewed, namespaces, fields, rfl⟩ := h
      exact G.view fields (hsymbols viewed hviewed)
  have hstruct : ∀ attr, Ensures env s (structDeclaration attr) fun decl s' =>
      D decl ∧ ∀ x ∈ s'.symbols, D x := by
    intro attr
    refine Ensures.bind (reads_keyword _) fun _ s' hs' => ?_
    obtain ⟨rfl, -⟩ := hs'
    refine Ensures.bind reads_identifier fun name s' hs' => ?_
    obtain ⟨rfl, -⟩ := hs'
    refine Ensures.orElse' (hreads (hview attr name)) ?_
    refine (ensures_struct G hsymbols attr name).mono fun decl s' h => ?_
    obtain ⟨namespaces, params, base, fields, rfl, hdecl, hhead⟩ := h
    exact ⟨hdecl, forall_of_updated hhead G.forward hsymbols⟩
  have hattributed : Ensures env s (do
      let a ← attributes
      service a <|> enum a <|> structDeclaration a)
      fun decl s' => D decl ∧ ∀ x ∈ s'.symbols, D x := by
    refine Ensures.bind reads_attributes fun attr s' hs' => ?_
    obtain ⟨rfl, -⟩ := hs'
    refine Ensures.orElse' (hother (reads_service G hsymbols attr)) ?_
    exact Ensures.orElse' (hother (reads_enum G attr)) (hstruct attr)
  refine Ensures.bind (Ensures.orElse' (hother (reads_forward G).attempt)
    (Ensures.orElse' (hother (reads_alias G hsymbols)) hattributed)) fun decl s' h => ?_
  refine (ensures_updateSymbols decl).bind fun _ s'' hs'' => Ensures.pure ?_
  exact forall_of_updated hs'' h.1 h.2

theorem ensures_bond_forall (k : Nat) {env : Environment} {s : Symbols}
    (hsymbols : ∀ x ∈ s.symbols, D x) :
    Ensures env s (bondBounded k) fun _ s' => ∀ x ∈ s'.symbols, D x := by
  induction k generalizing env s with
  | zero => exact Ensures.exhausted
  | succ k ih =>
      refine Ensures.bind reads_sc fun _ s' h => ?_
      obtain ⟨rfl, -⟩ := h
      have himports : Ensures env s' (many (import_ (bondBounded k))) fun _ s'' =>
          ∀ x ∈ s''.symbols, D x := by
        refine Ensures.many_values hsymbols fun _ s₁ h => ?_
        exact ensures_import (I := fun table => ∀ x ∈ table, D x) h fun env s₂ hs₂ => ih (hs₂ ▸ h)
      refine himports.bind fun imports s₁ h => ?_
      refine Ensures.bind reads_namespaceDeclaration.many1 fun namespaces s₂ h' => ?_
      obtain ⟨rfl, -⟩ := h'
      refine Ensures.withEnv ?_
      refine Ensures.bind (Ensures.many_values h fun _ s₃ h => ensures_declaration_forall G h)
        fun decls s₃ h => ?_
      refine Ensures.bind Reads.eof fun _ s₄ h' => ?_
      obtain ⟨rfl, -⟩ := h'
      exact Ensures.pure h

/-- What the grammar keeps holds of all symbols of an accepted text. -/
theorem forall_of_parseBond {charClasses : CharClasses} {scientific : Scientific}
    {resolveImport : String → String → Except String (String × List Char)} {content rest : List Char}
    {file : String} {n : Nat} {consumed : Bool} {schema : BondSchema} {s : Symbols}
    (h : parseBond charClasses scientific resolveImport content file n =
      .ok consumed schema s rest) : ∀ decl ∈ s.symbols, D decl :=
  ensures_bond_forall G n (by simp) n _ consumed schema s rest h

end

/-! ## Texts

Letters, digits and white space of ASCII; the texts have no fractions and no imports. -/

def asciiClasses : CharClasses :=
  ⟨fun c => c.isAlpha, fun c => c.isAlphanum, fun c => c.isWhitespace⟩

/-- The declarations of a text of its own, if it is accepted. -/
def declarationsOf (text : String) (n : Nat) : Option (List Declaration) :=
  match parseBond asciiClasses ⟨fun v => v, fun _ => .nan⟩ (fun _ _ => .error "no file")
      text.toList "text" n with
  | .ok _ schema _ _ => some schema.bondDeclarations
  | _ => none

/-- The characters of a literal. To evaluate `toList` of it takes longer than to parse them. -/
theorem declarationsOf_ofList (text : List Char) (n : Nat) :
    declarationsOf (.ofList text) n =
      match parseBond asciiClasses ⟨fun v => v, fun _ => .nan⟩ (fun _ _ => .error "no file")
          text "text" n with
      | .ok _ schema _ _ => some schema.bondDeclarations
      | _ => none := by
  rw [declarationsOf, String.toList_ofList]

theorem parse_of_declarationsOf {text : String} {n : Nat} {decls : List Declaration}
    (h : declarationsOf text n = some decls) :
    ∃ consumed schema s rest, schema.bondDeclarations = decls ∧
      parseBond asciiClasses ⟨fun v => v, fun _ => .nan⟩ (fun _ _ => .error "no file")
        text.toList "text" n = .ok consumed schema s rest := by
  unfold declarationsOf at h
  split at h
  · next consumed schema s rest hparse =>
      cases h
      exact ⟨consumed, schema, s, rest, rfl, hparse⟩
  · cases h

end Bond.Compiler

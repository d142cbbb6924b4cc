import Bond.Compiler.Accepted

set_option autoImplicit false

/-! # The table of symbols over a whole run

Declarations come to `updateSymbols` one by one, those of imported files among them, and a struct
definition comes twice: its head as a forward declaration, then the struct. What the table says
afterwards of the declarations that were accepted. -/

namespace Bond.Compiler

/-! ## Definitions and runs -/

def Declaration.isStruct : Declaration → Bool
  | .struct _ _ _ _ _ _ => true
  | _ => false

/-- A declaration and how the parser hands it to `updateSymbols`: the head of a struct definition goes
    first. Views are among the others. -/
inductive Definition where
  | struct (namespaces : List Namespace) (attributes : List Attribute) (name : String)
      (params : List TypeParam) (base : Option BondType) (fields : List Field)
  | other (decl : Declaration)

def Definition.decl : Definition → Declaration
  | struct namespaces attributes name params base fields =>
      .struct namespaces attributes name params base fields
  | other decl => decl

def define : Definition → List Declaration → Updated
  | .struct namespaces attributes name params base fields, table =>
      match updated (.forward namespaces name params) table with
      | .symbols table => updated (.struct namespaces attributes name params base fields) table
      | rejected => rejected
  | .other decl, table => updated decl table

/-- What the parser makes: the head and body of a struct, a view of a struct of the table, anything
    else. -/
inductive Definition.Made (table : List Declaration) : Definition → Prop
  | struct {namespaces : List Namespace} {attributes : List Attribute} {name : String}
      {params : List TypeParam} {base : Option BondType} {fields : List Field} :
      (Declaration.struct namespaces attributes name params base fields).Accepted →
      Definition.Made table (.struct namespaces attributes name params base fields)
  | view {namespaces : List Namespace} {attributes : List Attribute} {name : String}
      {viewed : Declaration} {fields : List String} :
      viewed ∈ table →
      Definition.Made table (.other (.struct namespaces attributes name viewed.declParams
        viewed.structBase (viewed.structFields.filter fun f => decide (f.fieldName ∈ fields))))
  | other {decl : Declaration} : decl.isStruct = false → decl.Accepted →
      Definition.Made table (.other decl)

/-- Definitions that are parsed and accepted one after the other, with the table before and behind
    them. -/
inductive Runs : List Declaration → List Definition → List Declaration → Prop where
  | nil (table : List Declaration) : Runs table [] table
  | cons {table table' table'' : List Declaration} {d : Definition} {ds : List Definition} :
      d.Made table → define d table = .symbols table' → Runs table' ds table'' →
      Runs table (d :: ds) table''

theorem Runs.append {table table' table'' : List Declaration} {ds ds' : List Definition}
    (h : Runs table ds table') (h' : Runs table' ds' table'') : Runs table (ds ++ ds') table'' := by
  induction h with
  | nil table => exact h'
  | cons hmade hd _ ih => exact .cons hmade hd (ih h')

/-! ## Duplicates -/

theorem duplicateDeclaration_iff {x y : Declaration} :
    duplicateDeclaration x y = true ↔
      x.declName = y.declName ∧ ∃ ns ∈ x.declNamespaces, ns ∈ y.declNamespaces := by
  simp [duplicateDeclaration]

/-- Duplicates are found by name and namespaces. -/
theorem duplicateDeclaration_congr {x x' : Declaration} (hname : x.declName = x'.declName)
    (hnamespaces : x.declNamespaces = x'.declNamespaces) :
    duplicateDeclaration x = duplicateDeclaration x' := by
  funext y
  rw [duplicateDeclaration, duplicateDeclaration, hname, hnamespaces]

theorem paramsMatch_iff {x y : Declaration} :
    paramsMatch x y = true ↔
      x.declParams.map TypeParam.paramConstraint = y.declParams.map TypeParam.paramConstraint := by
  simp [paramsMatch]

def Declaration.isForward : Declaration → Bool
  | .forward _ _ _ => true
  | _ => false

/-- The declarations of structs: forward ones and definitions. -/
def Declaration.isStructDecl : Declaration → Bool
  | .forward _ _ _ | .struct _ _ _ _ _ _ => true
  | _ => false

theorem Declaration.isStructDecl_of_isForward {x : Declaration} (h : x.isForward = true) :
    x.isStructDecl = true := by
  cases x <;> first | rfl | cases h

/-! ## One update -/

/-- What an accepted update did to the table: there were no duplicates, or one. -/
inductive Update (y : Declaration) (table : List Declaration) : List Declaration → Prop where
  | new : (∀ x ∈ table, duplicateDeclaration y x = false) → Update y table (y :: table)
  | replaced (x : Declaration) : x ∈ table → duplicateDeclaration y x = true →
      (∀ z ∈ table, duplicateDeclaration y z = true → z = x) →
      x.isStructDecl = true → y.isStructDecl = true → x.isForward = !y.isForward →
      paramsMatch x y = true →
      Update y table (y :: table.filter fun z => !duplicateDeclaration y z)
  | repeated (x : Declaration) : x ∈ table → duplicateDeclaration y x = true →
      (∀ z ∈ table, duplicateDeclaration y z = true → z = x) →
      x = y ∨ (x.isForward = true ∧ y.isForward = true ∧ paramsMatch x y = true) →
      Update y table table

theorem update_of_updated {y : Declaration} {table table' : List Declaration}
    (h : updated y table = .symbols table') : Update y table table' := by
  unfold updated at h
  dsimp only at h
  cases hprevious : table.filter (duplicateDeclaration y) with
  | nil =>
      have hnone : ∀ x ∈ table, duplicateDeclaration y x = false := by
        intro x hx
        have hnot := List.filter_eq_nil_iff.1 hprevious x hx
        simpa using hnot
      have hothers : table.filter (fun x => !duplicateDeclaration y x) = table := by
        rw [List.filter_eq_self]
        intro x hx
        simp [hnone x hx]
      rw [hprevious, hothers] at h
      cases h
      exact .new hnone
  | cons x previous =>
      rw [hprevious] at h
      cases previous with
      | cons => cases h
      | nil =>
          have hx : x ∈ table.filter (duplicateDeclaration y) := by rw [hprevious]; simp
          have hmem := (List.mem_filter.1 hx).1
          have hdup := (List.mem_filter.1 hx).2
          have hunique : ∀ z ∈ table, duplicateDeclaration y z = true → z = x := by
            intro z hz hzdup
            have hzmem := List.mem_filter.2 ⟨hz, hzdup⟩
            rw [hprevious] at hzmem
            exact List.mem_singleton.1 hzmem
          have hreconcile : ∀ accepted added, reconcile [x] y = some ⟨accepted, added⟩ →
              accepted = true ∧
                table' = if added then y :: table.filter (fun z => !duplicateDeclaration y z)
                  else table := by
            intro accepted added heq
            rw [heq] at h
            cases accepted <;> cases added <;> first | cases h; exact ⟨rfl, rfl⟩ | cases h
          have hequal : reconcile [x] y = some ⟨decide (x = y), false⟩ →
              Update y table table' := by
            intro heq
            obtain ⟨haccepted, rfl⟩ := hreconcile _ _ heq
            exact .repeated x hmem hdup hunique (Or.inl (of_decide_eq_true haccepted))
          cases x with
          | forward =>
              cases y with
              | struct =>
                  obtain ⟨haccepted, rfl⟩ := hreconcile _ _ rfl
                  exact .replaced _ hmem hdup hunique rfl rfl rfl haccepted
              | forward =>
                  obtain ⟨haccepted, rfl⟩ := hreconcile _ _ rfl
                  exact .repeated _ hmem hdup hunique (Or.inr ⟨rfl, rfl, haccepted⟩)
              | _ => exact hequal rfl
          | struct =>
              cases y with
              | forward =>
                  obtain ⟨haccepted, rfl⟩ := hreconcile _ _ rfl
                  exact .replaced _ hmem hdup hunique rfl rfl rfl haccepted
              | _ => exact hequal rfl
          | _ => exact hequal rfl

/-! ## One definition -/

/-- What an accepted definition did to the table. -/
inductive Defined (d : Definition) (table table' : List Declaration) : Prop where
  | new : (∀ x ∈ table, duplicateDeclaration d.decl x = false) → d.decl ∈ table' →
      (∀ z ∈ table, z ∈ table') → Defined d table table'
  | replaced (x : Declaration) : x ∈ table → duplicateDeclaration d.decl x = true →
      (∀ z ∈ table, duplicateDeclaration d.decl z = true → z = x) →
      x.isStructDecl = true → d.decl.isStructDecl = true →
      (x.isForward = true → d.decl.isForward = false) → paramsMatch x d.decl = true →
      d.decl ∈ table' →
      (∀ z ∈ table, duplicateDeclaration d.decl z = false → z ∈ table') → Defined d table table'
  | repeated (x : Declaration) : x ∈ table → duplicateDeclaration d.decl x = true →
      (∀ z ∈ table, duplicateDeclaration d.decl z = true → z = x) →
      x = d.decl ∨ (x.isForward = true ∧ d.decl.isForward = true ∧ paramsMatch x d.decl = true) →
      table' = table → Defined d table table'

theorem Update.defined {decl : Declaration} {table table' : List Declaration}
    (h : Update decl table table') : Defined (.other decl) table table' := by
  cases h with
  | new hnone => exact .new hnone List.mem_cons_self fun z hz => List.mem_cons_of_mem _ hz
  | replaced x hx hdup hunique hxs hys hkinds hparams =>
      have hforward : x.isForward = true → decl.isForward = false := fun hx => by simpa [hx] using hkinds
      refine .replaced x hx hdup hunique hxs hys hforward hparams List.mem_cons_self fun z hz hnot => ?_
      have hnot' : duplicateDeclaration decl z = false := hnot
      exact List.mem_cons_of_mem _ (List.mem_filter.2 ⟨hz, by simp [hnot']⟩)
  | repeated x hx hdup hunique hsame => exact .repeated x hx hdup hunique hsame rfl

theorem defined_of_define {d : Definition} {table table' : List Declaration}
    (h : define d table = .symbols table') : Defined d table table' := by
  cases d with
  | other decl => exact (update_of_updated h).defined
  | struct namespaces attributes name params base fields =>
      let head : Declaration := .forward namespaces name params
      let decl : Declaration := .struct namespaces attributes name params base fields
      have hdups : duplicateDeclaration head = duplicateDeclaration decl :=
        duplicateDeclaration_congr rfl rfl
      cases hhead : updated head table with
      | rejected | impossible => simp only [define, head, hhead] at h; cases h
      | symbols table₁ =>
          simp only [define, head, hhead] at h
          have hfirst : Update head table table₁ := update_of_updated hhead
          have hsecond : Update decl table₁ table' := update_of_updated h
          cases hfirst with
          | new hnone =>
              -- the head is new, and the struct replaces it
              rw [hdups] at hnone
              refine .new hnone ?_ ?_
              · cases hsecond with
                | new | replaced => exact List.mem_cons_self
                | repeated x hx _ _ hsame =>
                    rcases hsame with rfl | ⟨_, hforward, _⟩
                    · exact hx
                    · cases hforward
              · intro z hz
                have hnot : duplicateDeclaration decl z = false := hnone z hz
                cases hsecond with
                | new => exact List.mem_cons_of_mem _ (List.mem_cons_of_mem _ hz)
                | replaced =>
                    refine List.mem_cons_of_mem _ (List.mem_filter.2 ?_)
                    exact ⟨List.mem_cons_of_mem _ hz, by simp [hnot]⟩
                | repeated => exact List.mem_cons_of_mem _ hz
          | repeated x hx hdup hunique hsame =>
              -- the head is known, and the struct replaces what was known of it
              rw [hdups] at hdup hunique
              have hforward : x.isForward = true := by
                rcases hsame with rfl | ⟨hx, _, _⟩
                · rfl
                · exact hx
              cases hsecond with
              | new hnone =>
                  rw [hnone x hx] at hdup
                  cases hdup
              | replaced z hz hzdup _ hzs hys _ hparams =>
                  obtain rfl := hunique z hz hzdup
                  refine .replaced z hz hzdup hunique hzs hys (fun _ => rfl) hparams
                    List.mem_cons_self ?_
                  intro e he hnot
                  have hnot' : duplicateDeclaration decl e = false := hnot
                  exact List.mem_cons_of_mem _ (List.mem_filter.2 ⟨he, by simp [hnot']⟩)
              | repeated z hz hzdup _ hzsame =>
                  obtain rfl := hunique z hz hzdup
                  rcases hzsame with rfl | ⟨_, hdecl, _⟩
                  · cases hforward
                  · cases hdecl
          | replaced x hx hdup hunique hxs _ _ hparams =>
              -- the head replaces a struct, and the struct replaces the head
              have hself : duplicateDeclaration decl head = true := by
                obtain ⟨-, ns, hns, -⟩ := duplicateDeclaration_iff.1 hdup
                exact duplicateDeclaration_iff.2 ⟨rfl, ns, hns, hns⟩
              rw [hdups] at hdup hunique
              have hkept : ∀ z ∈ table, duplicateDeclaration decl z = false →
                  z ∈ head :: table.filter fun z => !duplicateDeclaration head z := by
                intro z hz hnot
                rw [hdups]
                exact List.mem_cons_of_mem _ (List.mem_filter.2 ⟨hz, by simp [hnot]⟩)
              cases hsecond with
              | new hnone =>
                  rw [hnone head List.mem_cons_self] at hself
                  cases hself
              | replaced =>
                  refine .replaced x hx hdup hunique hxs rfl (fun _ => rfl) hparams
                    List.mem_cons_self ?_
                  intro z hz hnot
                  have hnot' : duplicateDeclaration decl z = false := hnot
                  exact List.mem_cons_of_mem _
                    (List.mem_filter.2 ⟨hkept z hz hnot, by simp [hnot']⟩)
              | repeated z hz hzdup hzunique hzsame =>
                  have hz' : head = z := hzunique head List.mem_cons_self hself
                  rcases hzsame with hzsame | ⟨_, hdecl, _⟩
                  · exact absurd (hz'.trans hzsame) (by simp [head])
                  · cases hdecl

/-! ## Declarations that agree -/

/-- A forward declaration of a struct that the other one declares or defines, with parameters that
    match. -/
def ForwardOf (x y : Declaration) : Prop :=
  x.isForward = true ∧ y.isStructDecl = true ∧ paramsMatch x y = true

/-- What declarations with one name in a common namespace have to be. -/
def Agree (x y : Declaration) : Prop :=
  x = y ∨ ForwardOf x y ∨ ForwardOf y x

instance (x y : Declaration) : Decidable (Agree x y) :=
  inferInstanceAs (Decidable (_ ∨ (_ ∧ _ ∧ _) ∨ (_ ∧ _ ∧ _)))

theorem Agree.symm {x y : Declaration} (h : Agree x y) : Agree y x := by
  rcases h with rfl | h | h
  · exact Or.inl rfl
  · exact Or.inr (Or.inr h)
  · exact Or.inr (Or.inl h)

theorem duplicateDeclaration_comm (x y : Declaration) :
    duplicateDeclaration x y = duplicateDeclaration y x := by
  rw [Bool.eq_iff_iff, duplicateDeclaration_iff, duplicateDeclaration_iff]
  constructor
  · rintro ⟨hname, ns, hx, hy⟩
    exact ⟨hname.symm, ns, hy, hx⟩
  · rintro ⟨hname, ns, hy, hx⟩
    exact ⟨hname.symm, ns, hx, hy⟩

/-- A declaration is represented in the table, in each of its namespaces: by itself, or if it is a
    forward declaration by one of the same struct. -/
def Covered (table : List Declaration) (a : Declaration) : Prop :=
  ∀ ns ∈ a.declNamespaces, ∃ e ∈ table, e.declName = a.declName ∧ ns ∈ e.declNamespaces ∧
    (e = a ∨ ForwardOf a e)

/-- The namespaces of a forward declaration that a struct takes the place of, or of one that is
    repeated, are not lost; and the struct that a definition takes the place of is the same. -/
def Steady (table : List Declaration) (d : Definition) : Prop :=
  ∀ x ∈ table, duplicateDeclaration d.decl x = true →
    (x.isForward = true → d.decl.isForward = false →
      ∀ ns ∈ x.declNamespaces, ns ∈ d.decl.declNamespaces) ∧
    (x.isForward = true → d.decl.isForward = true →
      ∀ ns ∈ d.decl.declNamespaces, ns ∈ x.declNamespaces) ∧
    (x.isStructDecl = true → x.isForward = false → x = d.decl)

/-- Every step of a run is steady. -/
def SteadyRun : List Declaration → List Definition → Prop
  | _, [] => True
  | table, d :: ds =>
      Steady table d ∧ ∀ table', define d table = .symbols table' → SteadyRun table' ds

/-- What a forward declaration of a struct is a forward declaration of. -/
theorem ForwardOf.trans {x y z : Declaration} (hxy : ForwardOf x y) (hz : z.isStructDecl = true)
    (hyz : paramsMatch y z = true) : ForwardOf x z :=
  ⟨hxy.1, hz, paramsMatch_iff.2 ((paramsMatch_iff.1 hxy.2.2).trans (paramsMatch_iff.1 hyz))⟩

section

variable {d : Definition} {table table' : List Declaration} (h : define d table = .symbols table')
  (hsteady : Steady table d)

include h hsteady

/-- What the table has of the next declaration is that declaration or a forward one. -/
theorem found_of_steady {e : Declaration} (he : e ∈ table)
    (hdup : duplicateDeclaration d.decl e = true) : e = d.decl ∨ ForwardOf e d.decl := by
  obtain ⟨-, -, hstruct⟩ := hsteady e he hdup
  cases defined_of_define h with
  | new hnone _ _ =>
      rw [hnone e he] at hdup
      cases hdup
  | replaced x hx _ hunique hxs hds _ hparams _ _ =>
      obtain rfl := hunique e he hdup
      cases hforward : e.isForward with
      | true => exact Or.inr ⟨hforward, hds, hparams⟩
      | false => exact Or.inl (hstruct hxs hforward)
  | repeated x hx _ hunique hsame _ =>
      obtain rfl := hunique e he hdup
      rcases hsame with hsame | ⟨hforward, hdforward, hparams⟩
      · exact Or.inl hsame
      · exact Or.inr ⟨hforward, Declaration.isStructDecl_of_isForward hdforward, hparams⟩

/-- A declaration that is represented agrees with the next one that is accepted. -/
theorem agree_of_covered {a : Declaration} (ha : Covered table a)
    (hdup : duplicateDeclaration d.decl a = true) : Agree a d.decl := by
  obtain ⟨hname, ns, hnsd, hnsa⟩ := duplicateDeclaration_iff.1 hdup
  obtain ⟨e, he, hename, hnse, hea⟩ := ha ns hnsa
  have hedup : duplicateDeclaration d.decl e = true :=
    duplicateDeclaration_iff.2 ⟨hname.trans hename.symm, ns, hnsd, hnse⟩
  have hfound := found_of_steady h hsteady he hedup
  rcases hea with rfl | hforward
  · rcases hfound with hsame | hforward
    · exact Or.inl hsame
    · exact Or.inr (Or.inl hforward)
  · rcases hfound with rfl | ⟨-, hds, hparams⟩
    · exact Or.inr (Or.inl hforward)
    · exact Or.inr (Or.inl (hforward.trans hds hparams))

/-- What was represented still is. -/
theorem Covered.define {a : Declaration} (ha : Covered table a) : Covered table' a := by
  intro ns hns
  obtain ⟨e, he, hename, hnse, hea⟩ := ha ns hns
  cases defined_of_define h with
  | new _ _ hkept => exact ⟨e, hkept e he, hename, hnse, hea⟩
  | repeated _ _ _ _ _ htable => exact ⟨e, htable ▸ he, hename, hnse, hea⟩
  | replaced x hx hdup hunique hxs hds hforward hparams hnew hkept =>
      cases hedup : duplicateDeclaration d.decl e with
      | false => exact ⟨e, hkept e he hedup, hename, hnse, hea⟩
      | true =>
          obtain rfl := hunique e he hedup
          obtain ⟨hforwardNs, -, -⟩ := hsteady e he hedup
          have hname : d.decl.declName = e.declName := (duplicateDeclaration_iff.1 hedup).1
          rcases found_of_steady h hsteady he hedup with rfl | hed
          · exact ⟨_, hnew, hename, hnse, hea⟩
          · have hnsd : ns ∈ d.decl.declNamespaces := hforwardNs hed.1 (hforward hed.1) ns hnse
            refine ⟨d.decl, hnew, hname.trans hename, hnsd, Or.inr ?_⟩
            rcases hea with rfl | hae
            · exact hed
            · exact hae.trans hds hparams

/-- A definition that is accepted is represented. -/
theorem covered_of_define : Covered table' d.decl := by
  intro ns hns
  cases defined_of_define h with
  | new _ hnew _ => exact ⟨d.decl, hnew, rfl, hns, Or.inl rfl⟩
  | replaced _ _ _ _ _ _ _ _ hnew _ => exact ⟨d.decl, hnew, rfl, hns, Or.inl rfl⟩
  | repeated x hx hdup hunique hsame htable =>
      subst htable
      rcases hsame with rfl | ⟨hforward, hdforward, hparams⟩
      · exact ⟨_, hx, rfl, hns, Or.inl rfl⟩
      · obtain ⟨-, hforwardNs, -⟩ := hsteady x hx hdup
        have hname : d.decl.declName = x.declName := (duplicateDeclaration_iff.1 hdup).1
        have hdx : ForwardOf d.decl x :=
          ⟨hdforward, Declaration.isStructDecl_of_isForward hforward,
            paramsMatch_iff.2 (paramsMatch_iff.1 hparams).symm⟩
        exact ⟨x, hx, hname.symm, hforwardNs hforward hdforward ns hns, Or.inr hdx⟩

end

/-! ## Whole runs -/

/-- In a steady run the declarations that are accepted agree with those before them. -/
theorem agree_of_run {table table' : List Declaration} {ds : List Definition}
    (hrun : Runs table ds table') (hsteady : SteadyRun table ds) :
    (∀ a, Covered table a → ∀ b ∈ ds.map Definition.decl, duplicateDeclaration b a = true →
      Agree a b) ∧
    (ds.map Definition.decl).Pairwise fun a b => duplicateDeclaration b a = true → Agree a b := by
  induction hrun with
  | nil table => exact ⟨by simp, by simp⟩
  | cons _ hd _ ih =>
      obtain ⟨hstep, hrest⟩ := hsteady
      obtain ⟨hbefore, hpairs⟩ := ih (hrest _ hd)
      constructor
      · intro a ha b hb hdup
        rcases List.mem_cons.1 hb with rfl | hb
        · exact agree_of_covered hd hstep ha hdup
        · exact hbefore a (ha.define hd hstep) b hb hdup
      · rw [List.map_cons, List.pairwise_cons]
        exact ⟨hbefore _ (covered_of_define hd hstep), hpairs⟩

end Bond.Compiler

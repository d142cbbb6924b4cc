import Bond.Cpp.Validate
import Mathlib.Data.List.TakeWhile
import Mathlib.Logic.Relation

set_option autoImplicit false

/-! # What `Validate` sees

`Validate` returns `true` if it has seen no difference between two schemas. It looks at every pair
of structs that is reached from the roots, but it does not see a field that has been replaced by
one with another id: the numbers of fields are the same, and each of the two is passed over as one
that the other schema lacks. -/

namespace Bond.Cpp

variable {n m : Nat}

/-! ## Wire-format equivalence -/

/-- Types of one wire format: recursively the same type ids, and `bonded` at the same places. -/
def sameType : TypeDef n → TypeDef m → Bool
  | .basic src, .basic dst => src = dst
  | .struct _ src, .struct _ dst => src = dst
  | .list src, .list dst => sameType src dst
  | .set src, .set dst => sameType src dst
  | .map srcKey src, .map dstKey dst => sameType src dst && sameType srcKey dstKey
  | _, _ => false

/-- The structs at corresponding places of two types, those inside `bonded` excepted. -/
def structPairs : TypeDef n → TypeDef m → List (Fin n × Fin m)
  | .struct src _, .struct dst false => [(src, dst)]
  | .list src, .list dst => structPairs src dst
  | .set src, .set dst => structPairs src dst
  | .map srcKey src, .map dstKey dst => structPairs src dst ++ structPairs srcKey dstKey
  | _, _ => []

/-- From a pair of structs to the pairs it refers to: the bases, and the structs in the types of
    fields with the same id. -/
inductive Refers (S : SchemaDef n) (T : SchemaDef m) : Fin n × Fin m → Fin n × Fin m → Prop
  | base {src dst srcBase dstBase} (hsrc : (S.structs src).baseDef = some srcBase)
      (hdst : (T.structs dst).baseDef = some dstBase) : Refers S T (src, dst) (srcBase, dstBase)
  | field {src dst f g q} (hf : f ∈ (S.structs src).fields) (hg : g ∈ (T.structs dst).fields)
      (hid : f.id = g.id) (hq : q ∈ structPairs f.type g.type) : Refers S T (src, dst) q

/-- The pairs of structs reached from the roots. -/
def Reached (S : SchemaDef n) (T : SchemaDef m) (p : Fin n × Fin m) : Prop :=
  Relation.ReflTransGen (Refers S T) (S.root, T.root) p

def SameIds (S : SchemaDef n) (T : SchemaDef m) (p : Fin n × Fin m) : Prop :=
  (S.structs p.1).fields.map FieldDef.id = (T.structs p.2).fields.map FieldDef.id

def SameTypes (S : SchemaDef n) (T : SchemaDef m) (p : Fin n × Fin m) : Prop :=
  ∀ f ∈ (S.structs p.1).fields, ∀ g ∈ (T.structs p.2).fields,
    f.id = g.id → sameType f.type g.type = true

/-- At every pair of structs reached from the roots there are the same fields, of the same types,
    and hierarchies of the same depth. -/
def WireEquivalent (S : SchemaDef n) (T : SchemaDef m) : Prop :=
  ∀ p, Reached S T p →
    S.hierarchyDepth p.1 = T.hierarchyDepth p.2 ∧ SameIds S T p ∧ SameTypes S T p

/-- A pair of structs between which the validator sees no difference. -/
structure SeenEqual (S : SchemaDef n) (T : SchemaDef m) (p : Fin n × Fin m) : Prop where
  depth : ∃ d, S.schemaDepth p.1 = some d ∧ T.schemaDepth p.2 = some d
  count : (S.structs p.1).fields.length = (T.structs p.2).fields.length
  types : SameTypes S T p
  present : ∀ g ∈ (T.structs p.2).fields, g.metadata.modifier = .required →
    ∃ f ∈ (S.structs p.1).fields, f.id = g.id
  modifiers : ∀ f ∈ (S.structs p.1).fields, ∀ g ∈ (T.structs p.2).fields, f.id = g.id →
    ¬ (g.metadata.modifier = .required ∧ f.metadata.modifier = .optional)

/-! ## What a validator does that leaves the flag set -/

/-- A `ValidateStruct` that does not set the flag once it is cleared. -/
def KeepsCleared (validateStruct : Fin n → Fin m → Bool → Except ValidateFailure Bool) : Prop :=
  ∀ src dst identical, validateStruct src dst identical = .ok true → identical = true

theorem KeepsCleared.eq_true_iff
    {validateStruct : Fin n → Fin m → Bool → Except ValidateFailure Bool}
    (hR : KeepsCleared validateStruct) (src : Fin n) (dst : Fin m) (identical : Bool) :
    validateStruct src dst identical = .ok true ↔
      identical = true ∧ validateStruct src dst true = .ok true := by
  constructor
  · intro h
    obtain rfl := hR src dst identical h
    exact ⟨rfl, h⟩
  · rintro ⟨rfl, h⟩
    exact h

theorem validateType_basic_iff
    (validateStruct : Fin n → Fin m → Bool → Except ValidateFailure Bool) (src dst : BasicType)
    (identical valid : Bool) :
    validateType validateStruct (.basic src) (.basic dst) identical = .ok (valid, true) ↔
      valid = true ∧ identical = true ∧ src = dst := by
  rw [validateType]
  by_cases h : src = dst
  · subst h
    simp [TypeDef.id, TypeDef.bondedType, pure, Except.pure, eq_comm]
  · have hne : dst ≠ src := fun heq => h heq.symm
    simp [TypeDef.id, h, hne, pure, Except.pure]

theorem validateType_struct_iff
    {validateStruct : Fin n → Fin m → Bool → Except ValidateFailure Bool}
    (hR : KeepsCleared validateStruct) (src : Fin n) (dst : Fin m) (srcBonded dstBonded : Bool)
    (identical valid : Bool) :
    validateType validateStruct (.struct src srcBonded) (.struct dst dstBonded) identical
        = .ok (valid, true) ↔
      valid = true ∧ identical = true ∧ srcBonded = dstBonded ∧
        (dstBonded = false → validateStruct src dst true = .ok true) := by
  rw [validateType]
  cases dstBonded with
  | true => cases srcBonded <;> cases identical <;>
      simp [TypeDef.id, TypeDef.bondedType, pure, Except.pure, eq_comm]
  | false =>
      have hbind (flag : Bool) :
          (do let identical ← validateStruct src dst flag; return (true, identical)
            : Except ValidateFailure (Bool × Bool)) = .ok (valid, true) ↔
            valid = true ∧ validateStruct src dst flag = .ok true := by
        cases validateStruct src dst flag <;>
          simp [bind, Except.bind, pure, Except.pure, eq_comm]
      cases srcBonded with
      | true =>
          simp only [TypeDef.id, TypeDef.bondedType, ne_eq, not_true_eq_false, if_false,
            reduceCtorEq, not_false_eq_true, if_true, hbind, hR.eq_true_iff src dst false]
          simp
      | false =>
          simp only [TypeDef.id, TypeDef.bondedType, ne_eq, not_true_eq_false, if_false, hbind,
            hR.eq_true_iff src dst identical]
          simp

/-- The flag stays set over a type if it was set, the types have one wire format, and it stays
    set over the structs in them. -/
theorem validateType_eq_true_iff
    {validateStruct : Fin n → Fin m → Bool → Except ValidateFailure Bool}
    (hR : KeepsCleared validateStruct) (src : TypeDef n) (dst : TypeDef m)
    (identical valid : Bool) :
    validateType validateStruct src dst identical = .ok (valid, true) ↔
      valid = true ∧ identical = true ∧ sameType src dst = true ∧
        ∀ q ∈ structPairs src dst, validateStruct q.1 q.2 true = .ok true := by
  induction src generalizing dst identical valid with
  | basic s =>
      cases dst with
      | basic d => simp [validateType_basic_iff, sameType, structPairs]
      | struct | list | set | map => simp [validateType, TypeDef.id, sameType, pure, Except.pure]
  | struct s sBonded =>
      cases dst with
      | struct d dBonded =>
          rw [validateType_struct_iff hR, sameType, decide_eq_true_eq]
          cases dBonded <;> simp [structPairs]
      | basic | list | set | map => simp [validateType, TypeDef.id, sameType, pure, Except.pure]
  | list s ih =>
      cases dst with
      | list d =>
          rw [validateType]
          simpa [TypeDef.id, TypeDef.bondedType, sameType, structPairs] using ih d identical valid
      | basic | struct | set | map => simp [validateType, TypeDef.id, sameType, pure, Except.pure]
  | set s ih =>
      cases dst with
      | set d =>
          rw [validateType]
          simpa [TypeDef.id, TypeDef.bondedType, sameType, structPairs] using ih d identical valid
      | basic | struct | list | map => simp [validateType, TypeDef.id, sameType, pure, Except.pure]
  | map sKey s ihKey ih =>
      cases dst with
      | map dKey d =>
          rw [validateType]
          simp only [TypeDef.id, TypeDef.bondedType, ne_eq, not_true_eq_false, if_false,
            sameType, structPairs, Bool.and_eq_true, List.mem_append, or_imp, forall_and]
          have hfirst := ih d identical
          cases hresult : validateType validateStruct s d identical with
          | error e =>
              constructor
              · intro h
                cases h
              · rintro ⟨-, hflag, ⟨htype, -⟩, hpairs, -⟩
                have hok := (hfirst true).2 ⟨rfl, hflag, htype, hpairs⟩
                rw [hresult] at hok
                cases hok
          | ok result =>
              obtain ⟨first, flag⟩ := result
              simp only [hresult, Except.ok.injEq, Prod.mk.injEq] at hfirst
              cases first with
              | false =>
                  constructor
                  · intro h
                    obtain ⟨-, rfl⟩ := Prod.mk.inj (Except.ok.inj h)
                    exact absurd ((hfirst false).1 ⟨rfl, rfl⟩).1 Bool.false_ne_true
                  · rintro ⟨-, hflag, ⟨htype, -⟩, hpairs, -⟩
                    have hok := (hfirst true).2 ⟨rfl, hflag, htype, hpairs⟩
                    exact absurd hok.1 Bool.false_ne_true
              | true =>
                  have hflag := hfirst true
                  have hsecond := ihKey dKey flag valid
                  change validateType validateStruct sKey dKey flag = _ ↔ _
                  rw [hsecond]
                  tauto
      | basic | struct | list | set => simp [validateType, TypeDef.id, sameType, pure, Except.pure]
/-! ## Fields -/

/-- Fields with the same id between which the validator sees no difference. -/
def FieldAgrees (validateStruct : Fin n → Fin m → Bool → Except ValidateFailure Bool)
    (f : FieldDef n) (g : FieldDef m) : Prop :=
  ¬ (g.metadata.modifier = .required ∧ f.metadata.modifier = .optional) ∧
    sameType f.type g.type = true ∧
    ∀ q ∈ structPairs f.type g.type, validateStruct q.1 q.2 true = .ok true

/-- Lists of fields between which the validator sees no difference, their lengths apart. -/
def FieldsAgree (validateStruct : Fin n → Fin m → Bool → Except ValidateFailure Bool)
    (fs : List (FieldDef n)) (gs : List (FieldDef m)) : Prop :=
  (∀ g ∈ gs, g.metadata.modifier = .required → ∃ f ∈ fs, f.id = g.id) ∧
    ∀ f ∈ fs, ∀ g ∈ gs, f.id = g.id → FieldAgrees validateStruct f g

section

variable {validateStruct : Fin n → Fin m → Bool → Except ValidateFailure Bool}
  {fs : List (FieldDef n)} {gs : List (FieldDef m)} {f : FieldDef n} {g : FieldDef m}

theorem fieldsAgree_congr {fs' : List (FieldDef n)}
    (h : ∀ f, ∀ g ∈ gs, f.id = g.id → (f ∈ fs ↔ f ∈ fs')) :
    FieldsAgree validateStruct fs gs ↔ FieldsAgree validateStruct fs' gs := by
  have hpresent (g : FieldDef m) (hg : g ∈ gs) :
      (∃ f ∈ fs, f.id = g.id) ↔ ∃ f ∈ fs', f.id = g.id := by
    constructor
    · rintro ⟨f, hf, hid⟩
      exact ⟨f, (h f g hg hid).1 hf, hid⟩
    · rintro ⟨f, hf, hid⟩
      exact ⟨f, (h f g hg hid).2 hf, hid⟩
  unfold FieldsAgree
  refine and_congr ?_ ?_
  · exact forall₂_congr fun g hg => imp_congr_right fun _ => hpresent g hg
  · constructor
    · intro hall f hf g hg hid
      exact hall f ((h f g hg hid).2 hf) g hg hid
    · intro hall f hf g hg hid
      exact hall f ((h f g hg hid).1 hf) g hg hid

/-- Source fields with ids smaller than those that are left in `dst` do not matter. -/
theorem fieldsAgree_dropWhile (hgs : Increasing (g :: gs)) :
    FieldsAgree validateStruct fs (g :: gs) ↔
      FieldsAgree validateStruct (fs.dropWhile fun f => f.id < g.id) (g :: gs) := by
  refine fieldsAgree_congr fun f g' hg' hid => ?_
  have hge : g.id ≤ f.id := by
    rw [hid]
    rcases List.mem_cons.1 hg' with rfl | hg'
    · exact UInt16.le_refl _
    · exact UInt16.le_of_lt ((List.pairwise_cons.1 hgs).1 g' hg')
  constructor
  · intro hf
    rw [← List.takeWhile_append_dropWhile (p := fun f => decide (f.id < g.id)) (l := fs)] at hf
    rcases List.mem_append.1 hf with hf | hf
    · have hlt := List.mem_takeWhile_imp hf
      exact absurd hge (UInt16.not_le.2 (of_decide_eq_true hlt))
    · exact hf
  · exact fun hf => (List.dropWhile_sublist _).subset hf

theorem fieldsAgree_absent (h : ∀ f ∈ fs, f.id ≠ g.id) :
    FieldsAgree validateStruct fs (g :: gs) ↔
      g.metadata.modifier ≠ .required ∧ FieldsAgree validateStruct fs gs := by
  constructor
  · rintro ⟨hpresent, hagree⟩
    refine ⟨fun hreq => ?_, fun g' hg' => hpresent g' (List.mem_cons_of_mem g hg'),
      fun f hf g' hg' => hagree f hf g' (List.mem_cons_of_mem g hg')⟩
    obtain ⟨f, hf, hid⟩ := hpresent g List.mem_cons_self hreq
    exact h f hf hid
  · rintro ⟨hreq, hpresent, hagree⟩
    refine ⟨fun g' hg' hreq' => ?_, fun f hf g' hg' hid => ?_⟩
    · rcases List.mem_cons.1 hg' with rfl | hg'
      · exact absurd hreq' hreq
      · exact hpresent g' hg' hreq'
    · rcases List.mem_cons.1 hg' with rfl | hg'
      · exact absurd hid (h f hf)
      · exact hagree f hf g' hg' hid

theorem fieldsAgree_found (hfs : Increasing (f :: fs)) (hgs : Increasing (g :: gs))
    (hid : f.id = g.id) :
    FieldsAgree validateStruct (f :: fs) (g :: gs) ↔
      FieldAgrees validateStruct f g ∧ FieldsAgree validateStruct fs gs := by
  have hrest : FieldsAgree validateStruct (f :: fs) gs ↔ FieldsAgree validateStruct fs gs := by
    refine fieldsAgree_congr fun f' g' hg' hid' => ?_
    have hlt := (List.pairwise_cons.1 hgs).1 g' hg'
    rw [List.mem_cons, or_iff_right]
    rintro rfl
    rw [← hid', hid] at hlt
    exact UInt16.lt_irrefl _ hlt
  constructor
  · intro h
    refine ⟨h.2 f List.mem_cons_self g List.mem_cons_self hid, hrest.1 ⟨fun g' hg' => ?_, ?_⟩⟩
    · exact h.1 g' (List.mem_cons_of_mem g hg')
    · exact fun f' hf' g' hg' => h.2 f' hf' g' (List.mem_cons_of_mem g hg')
  · rintro ⟨hagree, hgs'⟩
    obtain ⟨hpresent, hall⟩ := hrest.2 hgs'
    refine ⟨fun g' hg' hreq => ?_, fun f' hf' g' hg' hid' => ?_⟩
    · rcases List.mem_cons.1 hg' with rfl | hg'
      · exact ⟨f, List.mem_cons_self, hid⟩
      · exact hpresent g' hg' hreq
    · rcases List.mem_cons.1 hg' with rfl | hg'
      · rcases List.mem_cons.1 hf' with rfl | hf'
        · exact hagree
        · have hlt := (List.pairwise_cons.1 hfs).1 f' hf'
          rw [hid', hid] at hlt
          exact absurd hlt (UInt16.lt_irrefl _)
      · exact hall f' hf' g' hg' hid'

end

/-- The flag stays set over the fields of a struct if it was set and no difference is seen. -/
theorem validateFieldsLoop_eq_true_iff
    {validateStruct : Fin n → Fin m → Bool → Except ValidateFailure Bool}
    (hR : KeepsCleared validateStruct) (s_src : StructDef n) (s_dst : StructDef m)
    {fs : List (FieldDef n)} (hfs : Increasing fs) {gs : List (FieldDef m)} (hgs : Increasing gs)
    (identical : Bool) :
    validateFieldsLoop validateStruct s_src s_dst fs gs identical = .ok true ↔
      identical = true ∧ FieldsAgree validateStruct fs gs := by
  induction gs generalizing fs identical with
  | nil => 
      rw [validateFieldsLoop]
      simp [FieldsAgree, pure, Except.pure]
  | cons g gs ih =>
      have hdrop : Increasing (fs.dropWhile fun f => f.id < g.id) :=
        List.Pairwise.sublist (List.dropWhile_sublist _) hfs
      have htail : Increasing gs := (List.pairwise_cons.1 hgs).2
      rw [fieldsAgree_dropWhile hgs, validateFieldsLoop]
      cases hrest : fs.dropWhile fun f => f.id < g.id with
      | nil =>
          rw [fieldsAgree_absent (by simp)]
          by_cases hreq : g.metadata.modifier = .required
          · simp [hreq, throw, throwThe, MonadExceptOf.throw]
          · simp only [hreq, if_false, ne_eq, not_false_eq_true, true_and]
            exact ih List.Pairwise.nil htail identical
      | cons f fs' =>
          rw [hrest] at hdrop
          have hge : ¬ f.id < g.id := by
            have hnot := List.head_dropWhile_not (fun f : FieldDef n => decide (f.id < g.id)) (l := fs)
              (by rw [hrest]; exact List.cons_ne_nil _ _)
            simpa [hrest] using hnot
          by_cases hgt : f.id > g.id
          · -- `dst` has a field that `src` lacks
            have habsent : ∀ f' ∈ f :: fs', f'.id ≠ g.id := by
              intro f' hf' hid
              rcases List.mem_cons.1 hf' with rfl | hf'
              · exact UInt16.ne_of_lt hgt hid.symm
              · have hlt := UInt16.lt_trans hgt ((List.pairwise_cons.1 hdrop).1 f' hf')
                exact UInt16.ne_of_lt hlt hid.symm
            rw [fieldsAgree_absent habsent]
            simp only [hgt, if_true]
            by_cases hreq : g.metadata.modifier = .required
            · simp [hreq, throw, throwThe, MonadExceptOf.throw]
            · simp only [hreq, if_false, ne_eq, not_false_eq_true, true_and]
              exact ih hdrop htail identical
          · -- both have the field
            have hid : f.id = g.id :=
              UInt16.le_antisymm (UInt16.not_lt.1 hgt) (UInt16.not_lt.1 hge)
            rw [fieldsAgree_found hdrop hgs hid]
            simp only [hgt, if_false]
            by_cases hmod : g.metadata.modifier = .required ∧ f.metadata.modifier = .optional
            · simp [hmod, FieldAgrees, throw, throwThe, MonadExceptOf.throw]
            · simp only [hmod, if_false]
              have htype := validateType_eq_true_iff hR f.type g.type identical
              have hstep (valid flag : Bool) :
                  (if (!valid) = true then
                      throw (.exception (.fieldTypeIncompatible s_src.metadata.name f.metadata.name
                        s_dst.metadata.name g.metadata.name))
                    else validateFieldsLoop validateStruct s_src s_dst fs' gs flag) = .ok true ↔
                    valid = true ∧ flag = true ∧ FieldsAgree validateStruct fs' gs := by
                cases valid with
                | false => simp [throw, throwThe, MonadExceptOf.throw]
                | true => simpa using ih (List.pairwise_cons.1 hdrop).2 htail flag
              cases hresult : validateType validateStruct f.type g.type identical with
              | error e =>
                  constructor
                  · intro h
                    cases h
                  · rintro ⟨hflag, ⟨-, hsame, hpairs⟩, -⟩
                    have hok := (htype true).2 ⟨rfl, hflag, hsame, hpairs⟩
                    rw [hresult] at hok
                    cases hok
              | ok result =>
                  obtain ⟨valid, flag⟩ := result
                  have hboth := htype true
                  simp only [hresult, Except.ok.injEq, Prod.mk.injEq] at hboth
                  change (if (!valid) = true then _ else _) = _ ↔ _
                  rw [hstep]
                  unfold FieldAgrees
                  tauto

theorem validateFields_eq_true_iff
    {validateStruct : Fin n → Fin m → Bool → Except ValidateFailure Bool}
    (hR : KeepsCleared validateStruct) (s_src : StructDef n) (s_dst : StructDef m)
    (identical : Bool) :
    validateFields validateStruct s_src s_dst identical = .ok true ↔
      identical = true ∧ s_src.fields.length = s_dst.fields.length ∧
        FieldsAgree validateStruct s_src.fields s_dst.fields := by
  rw [validateFields, validateFieldsLoop_eq_true_iff hR s_src s_dst s_src.increasing s_dst.increasing]
  by_cases hcount : s_src.fields.length = s_dst.fields.length
  · simp [hcount]
  · simp [hcount, Ne.symm hcount]

/-! ## Structs -/

variable (S : SchemaDef n) (T : SchemaDef m)

/-- No difference is seen at a pair, and validating the pairs it refers to with the chain `next`
    leaves the flag set. -/
structure StructAgrees (k : Nat) (next : List (Fin n × Fin m)) (p : Fin n × Fin m) : Prop where
  depth : ∃ d, S.schemaDepth p.1 = some d ∧ T.schemaDepth p.2 = some d
  base : ∀ srcBase dstBase, (S.structs p.1).baseDef = some srcBase →
    (T.structs p.2).baseDef = some dstBase →
    validateStruct S T k next srcBase dstBase true = .ok true
  count : (S.structs p.1).fields.length = (T.structs p.2).fields.length
  fields : FieldsAgree (validateStruct S T k next) (S.structs p.1).fields (T.structs p.2).fields

/-- Hierarchies of the same depth end together. -/
theorem baseDef_eq_none_iff {i : Fin n} {j : Fin m} (h : S.schemaDepth i = T.schemaDepth j) :
    (S.structs i).baseDef = none ↔ (T.structs j).baseDef = none := by
  rw [← S.hierarchyDepth_eq_one_iff, ← T.hierarchyDepth_eq_one_iff, schemaDepth_eq_iff.1 h]

theorem validateStruct_eq_true_iff {k : Nat} {list : List (Fin n × Fin m)} {src : Fin n}
    {dst : Fin m} (identical : Bool) (hnew : (src, dst) ∉ list)
    (hR : KeepsCleared (validateStruct S T k ((src, dst) :: list))) :
    validateStruct S T (k + 1) list src dst identical = .ok true ↔
      identical = true ∧ StructAgrees S T k ((src, dst) :: list) (src, dst) := by
  rw [validateStruct, if_neg hnew]
  cases hdst : T.schemaDepth dst with
  | none =>
      constructor
      · intro h
        cases h
      · rintro ⟨-, ⟨d, -, hd⟩, -⟩
        rw [hdst] at hd
        cases hd
  | some d_dst =>
      cases hsrc : S.schemaDepth src with
      | none =>
          constructor
          · intro h
            cases h
          · rintro ⟨-, ⟨d, hd, -⟩, -⟩
            rw [hsrc] at hd
            cases hd
      | some d_src =>
          have hdepth : (∃ d, S.schemaDepth src = some d ∧ T.schemaDepth dst = some d) ↔
              d_src = d_dst := by
            simp [hsrc, hdst, eq_comm]
          by_cases hgt : d_dst > d_src
          · simp only [hgt, if_true]
            constructor
            · intro h
              cases h
            · rintro ⟨-, hagree⟩
              exact absurd (hdepth.1 hagree.depth) (UInt16.ne_of_lt hgt)
          by_cases hlt : d_src > d_dst
          · -- only the base of `src` is left to compare, with the flag cleared
            simp only [hgt, hlt, if_true, if_false]
            constructor
            · intro h
              split at h
              · exact absurd (hR _ _ _ h) Bool.false_ne_true
              · cases h
            · rintro ⟨-, hagree⟩
              exact absurd (hdepth.1 hagree.depth).symm (UInt16.ne_of_lt hlt)
          have heq : d_src = d_dst :=
            UInt16.le_antisymm (UInt16.not_lt.1 hlt) (UInt16.not_lt.1 hgt)
          have hbases := baseDef_eq_none_iff S T (hsrc.trans (heq ▸ hdst.symm))
          simp only [hgt, hlt, if_false]
          have hfields := validateFields_eq_true_iff hR (S.structs src) (T.structs dst)
          cases hdstBase : (T.structs dst).baseDef with
          | none =>
              have hsrcBase := hbases.2 hdstBase
              change validateFields _ _ _ identical = _ ↔ _
              rw [hfields]
              constructor
              · rintro ⟨hflag, hcount, hagree⟩
                exact ⟨hflag, hdepth.2 heq, by simp [hsrcBase], hcount, hagree⟩
              · rintro ⟨hflag, hagree⟩
                exact ⟨hflag, hagree.count, hagree.fields⟩
          | some dstBase =>
              cases hsrcBase : (S.structs src).baseDef with
              | none =>
                  rw [hbases.1 hsrcBase] at hdstBase
                  cases hdstBase
              | some srcBase =>
                  have hbase := hR.eq_true_iff srcBase dstBase identical
                  constructor
                  · intro h
                    cases hval : validateStruct S T k ((src, dst) :: list) srcBase dstBase identical with
                    | error e => simp [hval, bind, Except.bind] at h
                    | ok flag =>
                        simp only [hval] at h
                        obtain ⟨rfl, hcount, hagree⟩ := (hfields flag).1 h
                        obtain ⟨hflag, htrue⟩ := hbase.1 hval
                        refine ⟨hflag, hdepth.2 heq, ?_, hcount, hagree⟩
                        intro srcBase' dstBase' hsrc' hdst'
                        obtain rfl := Option.some.inj (hsrcBase.symm.trans hsrc')
                        obtain rfl := Option.some.inj (hdstBase.symm.trans hdst')
                        exact htrue
                  · rintro ⟨hflag, hagree⟩
                    have hok := hbase.2 ⟨hflag, hagree.base srcBase dstBase hsrcBase hdstBase⟩
                    simp only [hok]
                    exact (hfields true).2 ⟨rfl, hagree.count, hagree.fields⟩

theorem keepsCleared_validateStruct (k : Nat) (list : List (Fin n × Fin m)) :
    KeepsCleared (validateStruct S T k list) := by
  induction k generalizing list with
  | zero =>
      intro src dst identical h
      cases h
  | succ k ih =>
      intro src dst identical h
      by_cases hmem : (src, dst) ∈ list
      · rw [validateStruct, if_pos hmem] at h
        exact Except.ok.inj h
      · exact ((validateStruct_eq_true_iff S T identical hmem (ih _)).1 h).1
/-! ## Runs -/

/-- The calls of `ValidateStruct` in a run that does not clear the flag: what is left of the bound
    on the nesting, the chain, and the pair that is not on it. -/
inductive Called : Nat → List (Fin n × Fin m) → Fin n × Fin m → Prop
  | root : Called (n * m + 1) [] (S.root, T.root)
  | refers {k list p q} (h : Called (k + 1) list p) (hq : Refers S T p q) (hnew : q ∉ p :: list) :
      Called k (p :: list) q

variable {S T}

theorem Called.not_mem {k : Nat} {list : List (Fin n × Fin m)} {p : Fin n × Fin m}
    (h : Called S T k list p) : p ∉ list := by
  cases h with
  | root => exact List.not_mem_nil
  | refers _ _ hnew => exact hnew

/-- What is on the chain of a call has been called itself. -/
theorem Called.called_of_mem {k : Nat} {list : List (Fin n × Fin m)} {p q : Fin n × Fin m}
    (h : Called S T k list p) (hq : q ∈ p :: list) : ∃ k' list', Called S T k' list' q := by
  induction h with
  | root =>
      obtain rfl := List.mem_singleton.1 hq
      exact ⟨_, _, .root⟩
  | refers h hrefers hnew ih =>
      rcases List.mem_cons.1 hq with rfl | hq
      · exact ⟨_, _, .refers h hrefers hnew⟩
      · exact ih hq

/-- A call that leaves the flag set leaves it set over every pair that the structs refer to. -/
theorem StructAgrees.refers {k : Nat} {next : List (Fin n × Fin m)} {p q : Fin n × Fin m}
    (h : StructAgrees S T k next p) (hq : Refers S T p q) :
    validateStruct S T k next q.1 q.2 true = .ok true := by
  cases hq with
  | base hsrc hdst => exact h.base _ _ hsrc hdst
  | field hf hg hid hq => exact (h.fields.2 _ hf _ hg hid).2.2 _ hq

theorem StructAgrees.seenEqual {k : Nat} {next : List (Fin n × Fin m)} {p : Fin n × Fin m}
    (h : StructAgrees S T k next p) : SeenEqual S T p where
  depth := h.depth
  count := h.count
  types f hf g hg hid := (h.fields.2 f hf g hg hid).2.1
  present := h.fields.1
  modifiers f hf g hg hid := (h.fields.2 f hf g hg hid).1

theorem Called.eq_true (hroot : validate S T = .ok true) {k : Nat} {list : List (Fin n × Fin m)}
    {p : Fin n × Fin m} (h : Called S T k list p) :
    validateStruct S T k list p.1 p.2 true = .ok true := by
  induction h with
  | root => exact hroot
  | refers h hrefers hnew ih =>
      have hagree := (validateStruct_eq_true_iff S T true h.not_mem
        (keepsCleared_validateStruct S T _ _)).1 ih
      exact hagree.2.refers hrefers

/-- If the flag is still set in the end, no difference has been seen anywhere. -/
theorem seenEqual_of_validate (hroot : validate S T = .ok true) {p : Fin n × Fin m}
    (hp : Reached S T p) : SeenEqual S T p := by
  have hagree {k : Nat} {list : List (Fin n × Fin m)} {p : Fin n × Fin m}
      (h : Called S T k list p) : ∃ k', k = k' + 1 ∧ StructAgrees S T k' (p :: list) p := by
    have htrue := h.eq_true hroot
    cases k with
    | zero => cases htrue
    | succ k =>
        exact ⟨k, rfl, ((validateStruct_eq_true_iff S T true h.not_mem
          (keepsCleared_validateStruct S T _ _)).1 htrue).2⟩
  have hcalled : ∃ k list, Called S T k list p := by
    induction hp with
    | refl => exact ⟨_, _, .root⟩
    | @tail p q _ hrefers ih =>
        obtain ⟨k, list, hcall⟩ := ih
        obtain ⟨k, rfl, -⟩ := hagree hcall
        by_cases hq : q ∈ p :: list
        · exact hcall.called_of_mem hq
        · exact ⟨_, _, .refers hcall hrefers hq⟩
  obtain ⟨k, list, hcall⟩ := hcalled
  obtain ⟨k, -, h⟩ := hagree hcall
  exact h.seenEqual

/-- If there is no difference to see, the flag stays set. -/
theorem validateStruct_of_seenEqual (h : ∀ p, Reached S T p → SeenEqual S T p) (k : Nat)
    {list : List (Fin n × Fin m)} (hlist : list.Nodup) (hk : n * m < k + list.length)
    {p : Fin n × Fin m} (hp : Reached S T p) :
    validateStruct S T k list p.1 p.2 true = .ok true := by
  induction k generalizing list p with
  | zero =>
      have hle := chain_length_le hlist
      omega
  | succ k ih =>
      by_cases hmem : p ∈ list
      · rw [validateStruct, if_pos hmem]
        rfl
      · have hnext : (p :: list).Nodup := List.nodup_cons.2 ⟨hmem, hlist⟩
        have hcall {q : Fin n × Fin m} (hq : Refers S T p q) :
            validateStruct S T k (p :: list) q.1 q.2 true = .ok true :=
          ih hnext (by rw [List.length_cons]; omega) (hp.tail hq)
        have hseen := h p hp
        refine (validateStruct_eq_true_iff S T true hmem (keepsCleared_validateStruct S T _ _)).2
          ⟨rfl, hseen.depth, ?_, hseen.count, hseen.present, ?_⟩
        · intro srcBase dstBase hsrc hdst
          exact hcall (.base hsrc hdst)
        · intro f hf g hg hid
          exact ⟨hseen.modifiers f hf g hg hid, hseen.types f hf g hg hid,
            fun q hq => hcall (.field hf hg hid hq)⟩

/-- `Validate` returns `true` if and only if it sees no difference at any pair of structs reached
    from the roots. -/
theorem validate_eq_true_iff :
    validate S T = .ok true ↔ ∀ p, Reached S T p → SeenEqual S T p := by
  constructor
  · intro h p hp
    exact seenEqual_of_validate h hp
  · intro h
    exact validateStruct_of_seenEqual h _ List.nodup_nil (by simp) Relation.ReflTransGen.refl

/-! ## The result -/

variable (S T)

/-- When the result `true` can be relied on: a difference is seen somewhere, or the fields have the
    same ids everywhere. -/
theorem validate_sound_iff :
    (validate S T = .ok true → WireEquivalent S T) ↔
      (∃ p, Reached S T p ∧ ¬ SeenEqual S T p) ∨ ∀ p, Reached S T p → SameIds S T p := by
  rw [validate_eq_true_iff]
  constructor
  · intro h
    by_cases hseen : ∀ p, Reached S T p → SeenEqual S T p
    · exact Or.inr fun p hp => (h hseen p hp).2.1
    · obtain ⟨p, hp⟩ := not_forall.1 hseen
      exact Or.inl ⟨p, Classical.not_imp.1 hp⟩
  · rintro (⟨p, hp, hnot⟩ | hids) hseen
    · exact absurd (hseen p hp) hnot
    · intro p hp
      obtain ⟨d, hsrc, hdst⟩ := (hseen p hp).depth
      exact ⟨schemaDepth_eq_iff.1 (hsrc.trans hdst.symm), hids p hp, (hseen p hp).types⟩

/-- A schema of one struct with one field, an optional `int32`. -/
def oneField (id : UInt16) : SchemaDef 1 where
  structs _ :=
    { metadata := ⟨"Struct", "test.Struct", .optional⟩
      baseDef := none
      fields := [⟨⟨"field", "", .optional⟩, id, .basic .int32⟩]
      increasing := List.pairwise_singleton _ _ }
  root := 0
  size_le := SchemaDef.one_le

/-- A field that has been replaced by one with another id goes unnoticed. -/
theorem validate_oneField : ¬ ∀ (n m : Nat) (S : SchemaDef n) (T : SchemaDef m),
    validate S T = .ok true → WireEquivalent S T := by
  intro h
  have hids : ([1] : List UInt16) = [2] :=
    (h 1 1 (oneField 1) (oneField 2) (by decide) (0, 0) .refl).2.1
  exact absurd hids (by decide)

end Bond.Cpp

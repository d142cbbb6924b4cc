import Bond.Cpp.StructReads

set_option autoImplicit false

/-! # Required fields

`RequiredFieldValiadator` (cpp/inc/bond/core/transforms.h) on the fields that a parser reports, for each
level of a hierarchy. It has the id of the next required field in one `uint16_t`. -/

namespace Bond.Cpp.RequiredFieldValiadator

variable {m : Nat}

/-! ## The validator -/

/-- `invalid_field_id` -/
def invalidFieldId : UInt16 := 0xffff

/-- `next_required_field<T, minId>` -/
def nextRequiredField (fields : List (CppField m)) (minId : UInt16) : UInt16 :=
  match fields.find? fun g => decide (minId ≤ g.id) && isRequired g with
  | some g => g.id
  | none => invalidFieldId

section

variable (T : CppStruct m) (required : UInt16)

/-- `MissingFieldException` -/
def missingFieldException : Except BondException UInt16 :=
  throw (.missingField required T.metadata.qualifiedName)

/-- `Begin`: `_required` afterwards -/
def begin_ : UInt16 :=
  nextRequiredField T.fields 0

/-- `Validate<Head>`. The next id is computed in `uint16_t`. -/
def validateHead (head : CppField m) : Except BondException UInt16 :=
  if isRequired head then
    if required = head.id then return nextRequiredField T.fields (head.id + 1)
    else missingFieldException T required
  else return required

/-- `Validate<Schema>`; the overload for a struct without a required field does nothing. -/
def validateSchema : Except BondException UInt16 :=
  if nextRequiredField T.fields 0 ≠ invalidFieldId then
    if required ≠ invalidFieldId then missingFieldException T required
    else return required
  else return required

/-- What is called for the fields of a level and at its end. -/
def validateFields (fields : List (CppField m)) : Except BondException UInt16 := do
  let required ← fields.foldlM (validateHead T) required
  validateSchema T required

end

/-! ## What is reported -/

/-- Some of the fields of a struct, in the order of their ids. -/
structure FieldSequence (T : CppStruct m) where
  fields : List (CppField m)
  mem : ∀ f ∈ fields, f ∈ T.fields
  increasing : fields.Pairwise fun f g => f.id < g.id

/-- What a parser reports of an object: fields for each level of the hierarchy. -/
inductive Reported (C : CppSchema m) : Fin m → Type where
  | root (x : Fin m) (noBase : (C.structs x).base = none) (fields : FieldSequence (C.structs x)) :
      Reported C x
  | derived (x y : Fin m) (hasBase : (C.structs x).base = some y) (base : Reported C y)
      (fields : FieldSequence (C.structs x)) : Reported C x

namespace Reported

variable {C : CppSchema m}

/-- What the validators of the levels do, each with a `_required` of its own. The base class comes after
    `Begin` and before the fields. -/
def validate : {x : Fin m} → Reported C x → Except BondException Unit
  | _, .root x _ fields => do
      let required := begin_ (C.structs x)
      let _ ← validateFields (C.structs x) required fields.fields
      return ()
  | _, .derived x _ _ base fields => do
      let required := begin_ (C.structs x)
      base.validate
      let _ ← validateFields (C.structs x) required fields.fields
      return ()

/-- Some level has a required field that is not reported. -/
def Missing : {x : Fin m} → Reported C x → Prop
  | _, .root x _ fields => ∃ g ∈ (C.structs x).fields, isRequired g = true ∧ g ∉ fields.fields
  | _, .derived x _ _ base fields =>
      base.Missing ∨ ∃ g ∈ (C.structs x).fields, isRequired g = true ∧ g ∉ fields.fields

end Reported

/-! ## The next required field -/

section

variable {T : CppStruct m} {fields : List (CppField m)} {id : UInt16}

theorem nextRequiredField_eq_getD (fields : List (CppField m)) (id : UInt16) :
    nextRequiredField fields id =
      ((((fields.filter fun g => id ≤ g.id).filter isRequired).head?).map CppField.id).getD
        invalidFieldId := by
  have hfind : (fields.find? fun g => decide (id ≤ g.id) && isRequired g) =
      ((fields.filter fun g => id ≤ g.id).filter isRequired).head? := by
    rw [List.filter_filter, List.head?_filter]
    simp only [Bool.and_comm]
  unfold nextRequiredField
  rw [hfind]
  cases ((fields.filter fun g => id ≤ g.id).filter isRequired).head? <;> rfl

/-- `Begin` -/
theorem nextRequiredField_zero (fields : List (CppField m)) :
    nextRequiredField fields 0 = (nextRequired fields).getD invalidFieldId := by
  have hall : (fields.filter fun g => (0 : UInt16) ≤ g.id) = fields := by
    rw [List.filter_eq_self]
    intro g _
    simp
  rw [nextRequiredField_eq_getD, hall, nextRequired_eq]

/-- The id behind a field is not less than 1: the ids do not wrap. -/
theorem nextRequiredField_succ (h : fields.Pairwise fun f g => f.id < g.id)
    (hid : id ≠ invalidFieldId) :
    nextRequiredField fields (id + 1) =
      (nextRequired (fields.dropWhile fun g => g.id ≤ id)).getD invalidFieldId := by
  have hle (g : CppField m) : decide (id + 1 ≤ g.id) = decide (id < g.id) := by
    have hne : id.toNat ≠ 0xffff := fun heq => hid (UInt16.toNat_inj.1 heq)
    have hlt := id.toNat_lt
    have hsucc : (id + 1).toNat = id.toNat + 1 := by
      rw [UInt16.toNat_add]
      exact Nat.mod_eq_of_lt (by show id.toNat + 1 < 65536; omega)
    rw [decide_eq_decide, UInt16.le_iff_toNat_le, UInt16.lt_iff_toNat_lt, hsucc]
    exact Nat.succ_le_iff
  rw [nextRequiredField_eq_getD, dropWhile_le_eq_filter h, nextRequired_eq]
  simp only [hle]

end

/-! ## The validator of the deserializer -/

section

variable {C : CppSchema m} {x : Fin m} {required : Option UInt16}

theorem getD_ne (h : required ≠ some invalidFieldId) :
    required.getD invalidFieldId ≠ invalidFieldId ↔ required.isSome = true := by
  cases required with
  | none => simp
  | some id => simpa using h

/-- `To` keeps in an option what is kept here in one id: a field. -/
theorem validateField_run (hids : ∀ g ∈ (C.structs x).fields, g.id ≠ invalidFieldId)
    (h : required ≠ some invalidFieldId) {head : CppField m} (hhead : head ∈ (C.structs x).fields)
    (var : CppValue m) (b : InputBuffer) :
    (∃ required', required' ≠ some invalidFieldId ∧
      validateHead (C.structs x) (required.getD invalidFieldId) head =
        .ok (required'.getD invalidFieldId) ∧
      (validateField C x head).run (var, required) b = .ok (((), var, required'), b)) ∨
    ∃ e, validateHead (C.structs x) (required.getD invalidFieldId) head = .error e ∧
      (validateField C x head).run (var, required) b = .error (e, b) := by
  have hid := hids head hhead
  by_cases hreq : head.metadata.modifier = .required
  · have hreq' : isRequired head = true := decide_eq_true hreq
    by_cases heq : required = some head.id
    · left
      set rest := (C.structs x).fields.dropWhile fun g => g.id ≤ head.id with hrest
      refine ⟨nextRequired rest, fun hnext => ?_, ?_, ?_⟩
      · obtain ⟨g, hg, hgid⟩ := Option.map_eq_some_iff.1 hnext
        have hmem : g ∈ (C.structs x).fields :=
          (List.dropWhile_sublist _).subset (List.mem_of_find?_eq_some hg)
        exact hids g hmem hgid
      · unfold validateHead
        rw [if_pos hreq', heq, Option.getD_some, if_pos rfl,
          nextRequiredField_succ (C.structs x).increasing hid]
        rfl
      · subst heq
        simp only [validateField, hreq]
        simp
        rfl
    · right
      have hne : required.getD invalidFieldId ≠ head.id := by
        cases required with
        | none => exact fun h => hid h.symm
        | some id => exact fun h => heq (congrArg some h)
      refine ⟨.missingField (required.getD invalidFieldId) (C.structs x).metadata.qualifiedName,
        ?_, ?_⟩
      · unfold validateHead
        rw [if_pos hreq', if_neg hne]
        rfl
      · simp only [validateField, hreq]
        simp [heq]
        rfl
  · left
    have hreq' : ¬ isRequired head = true := fun h => hreq (of_decide_eq_true h)
    refine ⟨required, h, if_neg hreq', ?_⟩
    simp [validateField, hreq]
    rfl

/-- And the end of a struct. -/
theorem validateSchema_run (hids : ∀ g ∈ (C.structs x).fields, g.id ≠ invalidFieldId)
    (h : required ≠ some invalidFieldId)
    (hrequired : required.isSome = true → (nextRequired (C.structs x).fields).isSome = true)
    (var : CppValue m) (b : InputBuffer) :
    (Cpp.validateSchema C x).run (var, required) b =
      match validateSchema (C.structs x) (required.getD invalidFieldId) with
      | .ok _ => .ok (((), var, required), b)
      | .error e => .error (e, b) := by
  have hfirst : nextRequired (C.structs x).fields ≠ some invalidFieldId := by
    intro hnext
    obtain ⟨g, hg, hgid⟩ := Option.map_eq_some_iff.1 hnext
    exact hids g (List.mem_of_find?_eq_some hg) hgid
  unfold validateSchema
  rw [nextRequiredField_zero]
  by_cases hsome : required.isSome = true
  · rw [if_pos ((getD_ne hfirst).2 (hrequired hsome)), if_pos ((getD_ne h).2 hsome)]
    simp [Cpp.validateSchema, hsome]
    rfl
  · rw [if_neg fun hne => hsome ((getD_ne h).1 hne)]
    simp [Cpp.validateSchema, hsome]
    rfl

end

/-! ## Levels -/

section

variable {T : CppStruct m}

/-- The id that `_required` has when the next required fields are these. -/
def headId (rest : List (CppField m)) : UInt16 :=
  (rest.head?.map CppField.id).getD invalidFieldId

/-- The result where these are the required fields that are missing. -/
def outcome (T : CppStruct m) (missing : List (CppField m)) : Except BondException Unit :=
  match missing with
  | [] => .ok ()
  | g :: _ => .error (.missingField g.id T.metadata.qualifiedName)

theorem begin_eq (T : CppStruct m) : begin_ T = headId (T.fields.filter isRequired) := by
  rw [begin_, nextRequiredField_zero, nextRequired_eq]
  rfl

theorem headId_cons (g : CppField m) (rest : List (CppField m)) : headId (g :: rest) = g.id := rfl

/-- At the end the next required field is missing. -/
theorem validateSchema_eq (hids : ∀ g ∈ T.fields, g.id ≠ invalidFieldId)
    {done rest : List (CppField m)} (hrequired : T.fields.filter isRequired = done ++ rest) :
    (validateSchema T (headId rest)).map (fun _ => ()) = outcome T rest := by
  have hbegin := begin_eq T
  have hid {g : CppField m} (hg : g ∈ T.fields.filter isRequired) : g.id ≠ invalidFieldId :=
    hids g (List.mem_filter.1 hg).1
  unfold validateSchema
  cases rest with
  | nil =>
      have hnone : ¬ headId ([] : List (CppField m)) ≠ invalidFieldId := fun h => h rfl
      split_ifs <;> rfl
  | cons g rest =>
      have hsome : begin_ T ≠ invalidFieldId := by
        rw [hbegin, hrequired]
        cases done with
        | nil => exact hid (by rw [hrequired]; exact List.mem_cons_self)
        | cons f done => exact hid (by rw [hrequired]; exact List.mem_cons_self)
      have hg : headId (g :: rest) ≠ invalidFieldId :=
        hid (by rw [hrequired]; exact List.mem_append_right _ List.mem_cons_self)
      rw [if_pos (show nextRequiredField T.fields 0 ≠ invalidFieldId from hsome), if_pos hg]
      rfl

/-- The field that is expected. -/
theorem validateHead_expected (hids : ∀ g ∈ T.fields, g.id ≠ invalidFieldId)
    {done rest : List (CppField m)} {f : CppField m}
    (hrequired : T.fields.filter isRequired = done ++ f :: rest) :
    validateHead T (headId (f :: rest)) f = .ok (headId rest) := by
  have hmem : f ∈ T.fields.filter isRequired := by
    rw [hrequired]
    exact List.mem_append_right _ List.mem_cons_self
  obtain ⟨hf, hreq⟩ := List.mem_filter.1 hmem
  unfold validateHead
  rw [if_pos hreq, if_pos (headId_cons f rest), nextRequiredField_succ T.increasing (hids f hf),
    nextRequired_dropWhile T.increasing hrequired]
  rfl

/-- A later field: the one that is expected is missing. -/
theorem validateHead_later {f g : CppField m} (rest : List (CppField m)) (hf : isRequired f = true)
    (hlt : g.id < f.id) :
    validateHead T (headId (g :: rest)) f = .error (.missingField g.id T.metadata.qualifiedName) := by
  have hne : headId (g :: rest) ≠ f.id := by
    intro h
    rw [headId_cons] at h
    rw [h] at hlt
    exact UInt16.lt_irrefl _ hlt
  unfold validateHead
  rw [if_pos hf, if_neg hne]
  rfl

/-- The fields of a level: `done` are the required ones that have been reported. -/
theorem validateFields_eq (hids : ∀ g ∈ T.fields, g.id ≠ invalidFieldId) (fs : List (CppField m))
    {done rest : List (CppField m)} (hrequired : T.fields.filter isRequired = done ++ rest)
    (hfs : fs.Pairwise fun f g => f.id < g.id)
    (hmem : ∀ f ∈ fs, isRequired f = true → f ∈ rest) :
    (validateFields T (headId rest) fs).map (fun _ => ()) =
      outcome T (rest.filter fun g => g ∉ fs) := by
  induction fs generalizing done rest with
  | nil =>
      have hall : (rest.filter fun g => g ∉ ([] : List (CppField m))) = rest := by simp
      rw [hall]
      exact validateSchema_eq hids hrequired
  | cons f fs ih =>
      obtain ⟨hlt, hfs⟩ := List.pairwise_cons.1 hfs
      have hsorted := T.increasing.sublist (List.filter_sublist (p := isRequired))
      rw [hrequired] at hsorted
      obtain ⟨-, hrest, -⟩ := List.pairwise_append.1 hsorted
      have hrestRequired {g : CppField m} (hg : g ∈ rest) : isRequired g = true := by
        have hg' : g ∈ T.fields.filter isRequired := by
          rw [hrequired]
          exact List.mem_append_right _ hg
        exact (List.mem_filter.1 hg').2
      by_cases hf : isRequired f = true
      · have hfrest := hmem f List.mem_cons_self hf
        cases rest with
        | nil => cases hfrest
        | cons g rest =>
            obtain ⟨hglt, hrest⟩ := List.pairwise_cons.1 hrest
            rcases List.mem_cons.1 hfrest with rfl | hfrest
            · have hne {g : CppField m} (hg : g ∈ rest) : g ≠ f := by
                rintro rfl
                exact UInt16.lt_irrefl _ (hglt g hg)
              have hmissing : ((f :: rest).filter fun g => g ∉ f :: fs) =
                  rest.filter fun g => g ∉ fs := by
                rw [List.filter_cons_of_neg (by simp)]
                refine List.filter_congr fun g hg => ?_
                simp [hne hg]
              have hmem' : ∀ g ∈ fs, isRequired g = true → g ∈ rest := by
                intro g hg hgr
                rcases List.mem_cons.1 (hmem g (List.mem_cons_of_mem f hg) hgr) with rfl | hg'
                · exact absurd (hlt g hg) (UInt16.lt_irrefl _)
                · exact hg'
              have hdone : T.fields.filter isRequired = (done ++ [f]) ++ rest := by
                rw [hrequired, List.append_assoc]
                rfl
              rw [hmissing, ← ih hdone hfs hmem']
              simp only [validateFields, List.foldlM_cons, validateHead_expected hids hrequired]
              rfl
            · have hgf := hglt f hfrest
              have hnot : g ∉ f :: fs := by
                intro h
                rcases List.mem_cons.1 h with rfl | h
                · exact UInt16.lt_irrefl _ hgf
                · exact UInt16.lt_irrefl _ (UInt16.lt_trans hgf (hlt g h))
              rw [List.filter_cons_of_pos (by simpa using hnot)]
              simp only [validateFields, List.foldlM_cons, validateHead_later rest hf hgf]
              rfl
      · -- a field that is not required changes nothing
        have hskip : validateHead T (headId rest) f = .ok (headId rest) := if_neg hf
        have hmissing : (rest.filter fun g => g ∉ f :: fs) = rest.filter fun g => g ∉ fs := by
          refine List.filter_congr fun g hg => ?_
          have hne : g ≠ f := fun h => hf (h ▸ hrestRequired hg)
          simp [hne]
        rw [hmissing, ← ih hrequired hfs fun g hg => hmem g (List.mem_cons_of_mem f hg)]
        simp only [validateFields, List.foldlM_cons, hskip]
        rfl

/-- One level: the first required field that is not reported is named. -/
theorem validateLevel_eq (hids : ∀ g ∈ T.fields, g.id ≠ invalidFieldId) (fs : FieldSequence T) :
    (validateFields T (begin_ T) fs.fields).map (fun _ => ()) =
      outcome T ((T.fields.filter isRequired).filter fun g => g ∉ fs.fields) := by
  rw [begin_eq]
  refine validateFields_eq hids fs.fields (List.nil_append _).symm fs.increasing fun f hf hreq => ?_
  exact List.mem_filter.2 ⟨fs.mem f hf, hreq⟩

theorem outcome_error_iff (T : CppStruct m) (missing : List (CppField m)) :
    (∃ e, outcome T missing = .error e) ↔ ∃ g, g ∈ missing := by
  cases missing with
  | nil =>
      refine iff_of_false ?_ ?_
      · rintro ⟨e, he⟩
        cases he
      · rintro ⟨g, hg⟩
        cases hg
  | cons g missing => exact iff_of_true ⟨_, rfl⟩ ⟨g, List.mem_cons_self⟩

end

/-! ## Hierarchies -/

section

variable {C : CppSchema m} {x : Fin m}

/-- The required fields that a level does not report. -/
def FieldSequence.missing {T : CppStruct m} (fs : FieldSequence T) : List (CppField m) :=
  (T.fields.filter isRequired).filter fun g => g ∉ fs.fields

theorem FieldSequence.mem_missing {T : CppStruct m} (fs : FieldSequence T) :
    (∃ g, g ∈ fs.missing) ↔ ∃ g ∈ T.fields, isRequired g = true ∧ g ∉ fs.fields := by
  simp only [missing, List.mem_filter, decide_eq_true_eq, and_assoc]

theorem Reported.validate_root (noBase : (C.structs x).base = none)
    (fs : FieldSequence (C.structs x)) (hids : ∀ g ∈ (C.structs x).fields, g.id ≠ invalidFieldId) :
    (Reported.root x noBase fs).validate = outcome (C.structs x) fs.missing := by
  rw [FieldSequence.missing, ← validateLevel_eq hids fs]
  simp only [validate]
  cases validateFields (C.structs x) (begin_ (C.structs x)) fs.fields <;> rfl

theorem Reported.validate_derived {y : Fin m} (hasBase : (C.structs x).base = some y)
    (base : Reported C y) (fs : FieldSequence (C.structs x))
    (hids : ∀ g ∈ (C.structs x).fields, g.id ≠ invalidFieldId) :
    (Reported.derived x y hasBase base fs).validate =
      base.validate.bind fun _ => outcome (C.structs x) fs.missing := by
  rw [FieldSequence.missing, ← validateLevel_eq hids fs]
  simp only [validate]
  cases base.validate with
  | error e => rfl
  | ok _ =>
      cases validateFields (C.structs x) (begin_ (C.structs x)) fs.fields <;> rfl

end

/-- For ids from 0 to 65534 the validators throw, at the end of the struct at the latest, exactly if some
    required field of some level is not reported. -/
theorem throws_iff_missing (C : CppSchema m)
    (hids : ∀ x, ∀ g ∈ (C.structs x).fields, g.id ≠ invalidFieldId) {x : Fin m}
    (r : Reported C x) : (∃ e, r.validate = .error e) ↔ r.Missing := by
  induction r with
  | root x noBase fs =>
      rw [Reported.validate_root noBase fs (hids x), outcome_error_iff, fs.mem_missing]
      exact Iff.rfl
  | derived x y hasBase base fs ih =>
      rw [Reported.validate_derived hasBase base fs (hids x), Reported.Missing, ← ih,
        ← fs.mem_missing, ← outcome_error_iff (C.structs x)]
      cases base.validate with
      | error e => exact iff_of_true ⟨e, rfl⟩ (.inl ⟨e, rfl⟩)
      | ok u =>
          constructor
          · intro h
            exact .inr h
          · rintro (⟨e, he⟩ | h)
            · cases he
            · exact h

/-- A field for the examples. -/
def sampleField (id : UInt16) (modifier : Modifier) : CppField 2 where
  metadata := ⟨"field", "", modifier⟩
  id := id
  type := .basic .int32

/-- A base class with one field that has the id `id`, and a derived class with two. -/
def sampleSchema (id : UInt16) : CppSchema 2 where
  structs x :=
    if x = 0 then
      { metadata := ⟨"Base", "test.Base", .optional⟩
        base := none
        fields := [sampleField id .required]
        increasing := List.pairwise_singleton _ _ }
    else
      { metadata := ⟨"Derived", "test.Derived", .optional⟩
        base := some 0
        fields := [sampleField 2 .optional, sampleField 65534 .required]
        increasing := by
          rw [List.pairwise_pair]
          exact (by decide : (2 : UInt16) < 65534) }
  root := 1
  size_le := SchemaDef.two_le

/-- An object without the fields of its base class. -/
def sampleReport (id : UInt16) : Reported (sampleSchema id) 1 :=
  .derived 1 0 rfl (.root 0 rfl ⟨[], nofun, CppStruct.increasing_nil⟩)
    ⟨[sampleField 65534 .required], fun _ hf => List.mem_cons_of_mem _ hf,
      List.pairwise_singleton _ _⟩

theorem throws_iff_missing_sample :
    (∃ e, (sampleReport 7).validate = .error e) ↔ (sampleReport 7).Missing :=
  throws_iff_missing (sampleSchema 7) (by decide) (sampleReport 7)

/-- The id 65535 is the one that stands for no field: without such a required field nothing throws. -/
theorem not_throws_of_missing :
    ¬ ∀ (C : CppSchema 2) (x : Fin 2) (r : Reported C x),
      (∃ e, r.validate = .error e) ↔ r.Missing := by
  intro h
  have hmissing : (sampleReport 0xffff).Missing :=
    .inl ⟨sampleField 0xffff .required, List.mem_cons_self, rfl, List.not_mem_nil⟩
  obtain ⟨e, he⟩ := (h (sampleSchema 0xffff) 1 (sampleReport 0xffff)).2 hmissing
  have hok : (sampleReport 0xffff).validate = .ok () := by rfl
  rw [hok] at he
  cases he

end Bond.Cpp.RequiredFieldValiadator

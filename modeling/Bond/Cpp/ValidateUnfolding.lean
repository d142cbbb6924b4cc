import Bond.Cpp.Validate
import Bond.Lib.Search

set_option autoImplicit false

/-! # Validation of recursive schemas

`ValidateStruct` stops where it meets a pair of structs that it is validating already. Here it is compared
with a validator that never stops so and goes down the unfolding of the two schemas, which is infinite
where they are recursive. -/

namespace Bond.Cpp

open Bond.Lib

variable {n m : Nat}

/-! ## The unfolding -/

/-- `ValidateStruct` on a pair of structs that is not in the list. -/
def validatePair (S : SchemaDef n) (T : SchemaDef m)
    (validateStruct : Fin n → Fin m → Bool → Except ValidateFailure Bool) (src : Fin n) (dst : Fin m)
    (identical : Bool) : Except ValidateFailure Bool :=
  match T.schemaDepth dst, S.schemaDepth src with
  | some d_dst, some d_src =>
      if d_dst > d_src then
        throw (.exception (.structBaseDifferent (S.structs src).metadata.name
          (T.structs dst).metadata.name))
      else if d_src > d_dst then
        match (S.structs src).baseDef with
        | some base => validateStruct base dst false
        | none => throw .undefinedBehavior
      else do
        let identical ←
          match (T.structs dst).baseDef, (S.structs src).baseDef with
          | some dstBase, some srcBase => validateStruct srcBase dstBase identical
          | some _, none => throw .undefinedBehavior
          | none, _ => pure identical
        validateFields validateStruct (S.structs src) (T.structs dst) identical
  | _, _ => throw .endlessHierarchy

/-- Validation without a list, down to the depth `k` of the unfolding. -/
def validateUnfolding (S : SchemaDef n) (T : SchemaDef m) :
    Nat → Fin n → Fin m → Bool → Except ValidateFailure Bool
  | 0, _, _, identical => return identical
  | k + 1, src, dst, identical => validatePair S T (validateUnfolding S T k) src dst identical

theorem validateStruct_succ (S : SchemaDef n) (T : SchemaDef m) (k : Nat)
    (list : List (Fin n × Fin m)) (src : Fin n) (dst : Fin m) (identical : Bool) :
    validateStruct S T (k + 1) list src dst identical =
      if (src, dst) ∈ list then return identical
      else validatePair S T (validateStruct S T k ((src, dst) :: list)) src dst identical := rfl

/-- What a validation says about two schemas. -/
inductive Verdict where
  | incompatible
  | compatible (identical : Bool)
deriving DecidableEq, Repr

/-- The verdict of a validation that comes to an end. -/
def verdict : Except ValidateFailure Bool → Option Verdict
  | .ok identical => some (.compatible identical)
  | .error (.exception _) => some .incompatible
  | .error _ => none

/-- The verdict on the whole unfolding: it is compatible if it is so down to every depth, and identical if
    it is identical down to every depth. -/
def UnfoldsTo (S : SchemaDef n) (T : SchemaDef m) : Verdict → Prop
  | .incompatible => ∃ k, verdict (validateUnfolding S T k S.root T.root true) = some .incompatible
  | .compatible true =>
      ∀ k, verdict (validateUnfolding S T k S.root T.root true) = some (.compatible true)
  | .compatible false =>
      (∀ k, ∃ b, verdict (validateUnfolding S T k S.root T.root true) = some (.compatible b)) ∧
        ∃ k, verdict (validateUnfolding S T k S.root T.root true) = some (.compatible false)

/-! ## The parts of a pair -/

/-- What is checked of a pair of types or of structs: the pairs of structs below, whether it is incompatible
    by itself, and whether it is different by itself. -/
structure Parts (n m : Nat) where
  pairs : List (Fin n × Fin m)
  incompatible : Bool
  different : Bool

namespace Parts

def append (p q : Parts n m) : Parts n m :=
  ⟨p.pairs ++ q.pairs, p.incompatible || q.incompatible, p.different || q.different⟩

/-- Incompatible by itself, or because a pair below is. -/
def incompatibleWith (p : Parts n m) (f : Fin n × Fin m → Bool) : Bool :=
  p.incompatible || p.pairs.any f

def differentWith (p : Parts n m) (f : Fin n × Fin m → Bool) : Bool :=
  p.different || p.pairs.any f

theorem append_incompatibleWith (p q : Parts n m) (f : Fin n × Fin m → Bool) :
    (p.append q).incompatibleWith f = (p.incompatibleWith f || q.incompatibleWith f) := by
  simp only [append, incompatibleWith, List.any_append]
  ac_rfl

theorem append_differentWith (p q : Parts n m) (f : Fin n × Fin m → Bool) :
    (p.append q).differentWith f = (p.differentWith f || q.differentWith f) := by
  simp only [append, differentWith, List.any_append]
  ac_rfl

end Parts

/-- The parts of `ValidateType` -/
def typeParts (src : TypeDef n) (dst : TypeDef m) : Parts n m :=
  if dst.id ≠ src.id then
    ⟨[], !validateTypeId src.id dst.id, true⟩
  else
    let self : Parts n m := ⟨[], false, dst.bondedType ≠ src.bondedType⟩
    match src, dst with
    | .struct src _, .struct dst false => self.append ⟨[(src, dst)], false, false⟩
    | .list src, .list dst => self.append (typeParts src dst)
    | .set src, .set dst => self.append (typeParts src dst)
    | .map srcKey src, .map dstKey dst =>
        (self.append (typeParts src dst)).append (typeParts srcKey dstKey)
    | _, _ => self

/-- The parts of the loop of `ValidateFields` -/
def fieldParts (fields : List (FieldDef n)) : List (FieldDef m) → Parts n m
  | [] => ⟨[], false, false⟩
  | f_dst :: dst =>
      match fields.dropWhile fun f => f.id < f_dst.id with
      | f_src :: src =>
          if f_src.id > f_dst.id then
            Parts.append ⟨[], f_dst.metadata.modifier = .required, false⟩
              (fieldParts (f_src :: src) dst)
          else
            (Parts.append ⟨[], f_dst.metadata.modifier = .required ∧
                f_src.metadata.modifier = .optional, false⟩
              (typeParts f_src.type f_dst.type)).append (fieldParts src dst)
      | [] =>
          Parts.append ⟨[], f_dst.metadata.modifier = .required, false⟩ (fieldParts [] dst)

/-- The parts of `ValidateStruct` -/
def structParts (S : SchemaDef n) (T : SchemaDef m) (p : Fin n × Fin m) : Parts n m :=
  match T.schemaDepth p.2, S.schemaDepth p.1 with
  | some d_dst, some d_src =>
      if d_dst > d_src then ⟨[], true, true⟩
      else if d_src > d_dst then
        match (S.structs p.1).baseDef with
        | some base => ⟨[(base, p.2)], false, true⟩
        | none => ⟨[], true, true⟩
      else
        let bases : List (Fin n × Fin m) :=
          match (T.structs p.2).baseDef, (S.structs p.1).baseDef with
          | some dstBase, some srcBase => [(srcBase, dstBase)]
          | _, _ => []
        (Parts.append ⟨bases, false, false⟩ ⟨[], false,
          (T.structs p.2).fields.length ≠ (S.structs p.1).fields.length⟩).append
          (fieldParts (S.structs p.1).fields (T.structs p.2).fields)
  | _, _ => ⟨[], true, true⟩

/-! ## Agreement -/

/-- The result says whether there is something incompatible and something different. -/
def Agrees (r : Except ValidateFailure Bool) (incompatible different : Bool) : Prop :=
  match r with
  | .ok identical => incompatible = false ∧ identical = !different
  | .error (.exception _) => incompatible = true
  | .error _ => False

/-- The same for `ValidateType`. -/
def AgreesType (r : Except ValidateFailure (Bool × Bool)) (incompatible different : Bool) : Prop :=
  match r with
  | .ok (true, identical) => incompatible = false ∧ identical = !different
  | .ok (false, _) => incompatible = true
  | .error (.exception _) => incompatible = true
  | .error _ => False

theorem Agrees.bind {r : Except ValidateFailure Bool} {f : Bool → Except ValidateFailure Bool}
    {i d i' d' : Bool} (h : Agrees r i d) (hf : Agrees (f (!d)) i' d') :
    Agrees (r >>= f) (i || i') d' := by
  cases r with
  | ok identical =>
      obtain ⟨rfl, rfl⟩ := h
      exact hf
  | error e =>
      cases e with
      | exception e =>
          obtain rfl : i = true := h
          exact rfl
      | _ => exact h.elim

/-- A validation of types is followed by another one. -/
theorem AgreesType.bind {r : Except ValidateFailure (Bool × Bool)}
    {f : Bool × Bool → Except ValidateFailure (Bool × Bool)} {i d i' d' : Bool}
    (h : AgreesType r i d) (hinvalid : ∀ identical, f (false, identical) = .ok (false, identical))
    (hf : AgreesType (f (true, !d)) i' d') : AgreesType (r >>= f) (i || i') d' := by
  cases r with
  | ok result =>
      obtain ⟨valid, identical⟩ := result
      cases valid with
      | true =>
          obtain ⟨rfl, rfl⟩ := h
          exact hf
      | false =>
          obtain rfl : i = true := h
          show AgreesType (f (false, identical)) _ _
          rw [hinvalid]
          exact rfl
  | error e =>
      cases e with
      | exception e =>
          obtain rfl : i = true := h
          exact rfl
      | _ => exact h.elim

/-- A validation of types that returns. -/
theorem agreesType_pure {valid identical i d : Bool} (hi : i = !valid)
    (hd : valid = true → identical = !d) :
    AgreesType (pure (valid, identical)) i d := by
  cases valid with
  | true => exact ⟨hi, hd rfl⟩
  | false => exact hi

/-- A pair of structs as a pair of types. -/
theorem Agrees.agreesType {r : Except ValidateFailure Bool} {i d : Bool} (h : Agrees r i d) :
    AgreesType (r >>= fun identical => pure (true, identical)) i d := by
  cases r with
  | ok identical => exact h
  | error e =>
      cases e with
      | exception e => exact h
      | _ => exact h.elim

/-- What the type of a field says is said of the field. -/
theorem AgreesType.agrees_bind {r : Except ValidateFailure (Bool × Bool)}
    {f : Bool × Bool → Except ValidateFailure Bool} {i d i' d' : Bool} (h : AgreesType r i d)
    (hinvalid : ∀ identical, ∃ e, f (false, identical) = .error (.exception e))
    (hf : Agrees (f (true, !d)) i' d') : Agrees (r >>= f) (i || i') d' := by
  cases r with
  | ok result =>
      obtain ⟨valid, identical⟩ := result
      cases valid with
      | true =>
          obtain ⟨rfl, rfl⟩ := h
          exact hf
      | false =>
          obtain rfl : i = true := h
          obtain ⟨e, he⟩ := hinvalid identical
          show Agrees (f (false, identical)) _ _
          rw [he]
          exact rfl
  | error e =>
      cases e with
      | exception e =>
          obtain rfl : i = true := h
          exact rfl
      | _ => exact h.elim

section

variable {validateStruct : Fin n → Fin m → Bool → Except ValidateFailure Bool}
  {incompatible different : Fin n × Fin m → Bool}
  (hR : ∀ src dst identical, Agrees (validateStruct src dst identical) (incompatible (src, dst))
    (!identical || different (src, dst)))

include hR

theorem validateType_agrees (src : TypeDef n) (dst : TypeDef m) (identical : Bool) :
    AgreesType (validateType validateStruct src dst identical)
      ((typeParts src dst).incompatibleWith incompatible)
      (!identical || (typeParts src dst).differentWith different) := by
  have hother {src : TypeDef n} {dst : TypeDef m} (identical : Bool) (hid : dst.id ≠ src.id) :
      AgreesType (validateType validateStruct src dst identical)
        ((typeParts src dst).incompatibleWith incompatible)
        (!identical || (typeParts src dst).differentWith different) := by
    rw [validateType.eq_def, typeParts.eq_def, if_pos hid, if_pos hid]
    refine agreesType_pure ?_ fun _ => ?_
    · simp [Parts.incompatibleWith]
    · simp [Parts.differentWith]
  induction src generalizing dst identical with
  | basic s =>
      by_cases hid : dst.id = (TypeDef.basic s : TypeDef n).id
      · cases dst with
        | basic d =>
            rw [validateType, typeParts, if_neg (not_not.2 hid), if_neg (not_not.2 hid)]
            exact agreesType_pure rfl fun _ => by
              simp [Parts.differentWith, TypeDef.bondedType]
        | _ => cases hid
      · exact hother identical hid
  | struct s sBonded =>
      cases dst with
      | struct d dBonded =>
          have hid : ¬ (TypeDef.struct d dBonded : TypeDef m).id ≠
              (TypeDef.struct s sBonded : TypeDef n).id := not_not.2 rfl
          rw [validateType, typeParts, if_neg hid, if_neg hid]
          cases dBonded with
          | true =>
              refine agreesType_pure rfl fun _ => ?_
              cases sBonded <;> simp [Parts.differentWith, TypeDef.bondedType]
          | false =>
              rw [Parts.append_incompatibleWith, Parts.append_differentWith]
              refine Agrees.agreesType ?_
              have hpair := hR s d (if (TypeDef.struct d false : TypeDef m).bondedType ≠
                (TypeDef.struct s sBonded : TypeDef n).bondedType then false else identical)
              cases sBonded <;>
                simpa [Parts.incompatibleWith, Parts.differentWith, TypeDef.bondedType] using hpair
      | _ => exact hother identical fun h => by cases h
  | list s ih =>
      cases dst with
      | list d =>
          have hid : ¬ (TypeDef.list d : TypeDef m).id ≠ (TypeDef.list s : TypeDef n).id :=
            not_not.2 rfl
          rw [validateType, typeParts, if_neg hid, if_neg hid, Parts.append_incompatibleWith,
            Parts.append_differentWith]
          simpa [TypeDef.bondedType, Parts.incompatibleWith, Parts.differentWith] using ih d identical
      | _ => exact hother identical fun h => by cases h
  | set s ih =>
      cases dst with
      | set d =>
          have hid : ¬ (TypeDef.set d : TypeDef m).id ≠ (TypeDef.set s : TypeDef n).id :=
            not_not.2 rfl
          rw [validateType, typeParts, if_neg hid, if_neg hid, Parts.append_incompatibleWith,
            Parts.append_differentWith]
          simpa [TypeDef.bondedType, Parts.incompatibleWith, Parts.differentWith] using ih d identical
      | _ => exact hother identical fun h => by cases h
  | map sKey s ihKey ih =>
      cases dst with
      | map dKey d =>
          have hid : ¬ (TypeDef.map dKey d : TypeDef m).id ≠ (TypeDef.map sKey s : TypeDef n).id :=
            not_not.2 rfl
          rw [validateType, typeParts, if_neg hid, if_neg hid, Parts.append_incompatibleWith,
            Parts.append_incompatibleWith, Parts.append_differentWith, Parts.append_differentWith]
          have hkey := ihKey dKey (!(!identical || (typeParts s d).differentWith different))
          rw [Bool.not_not, Bool.or_assoc] at hkey
          exact AgreesType.bind (ih d identical) (fun _ => rfl) hkey
      | _ => exact hother identical fun h => by cases h

/-- The loop of `ValidateFields`. -/
theorem validateFieldsLoop_agrees (s_src : StructDef n) (s_dst : StructDef m)
    (fs : List (FieldDef n)) (gs : List (FieldDef m)) (identical : Bool) :
    Agrees (validateFieldsLoop validateStruct s_src s_dst fs gs identical)
      ((fieldParts fs gs).incompatibleWith incompatible)
      (!identical || (fieldParts fs gs).differentWith different) := by
  induction gs generalizing fs identical with
  | nil =>
      rw [validateFieldsLoop, fieldParts]
      exact ⟨rfl, by simp [Parts.differentWith]⟩
  | cons g gs ih =>
      rw [validateFieldsLoop, fieldParts]
      cases fs.dropWhile fun f => f.id < g.id with
      | nil =>
          dsimp only
          rw [Parts.append_incompatibleWith, Parts.append_differentWith]
          split_ifs with hrequired
          · have hmissing : decide (g.metadata.modifier = .required) = true := decide_eq_true hrequired
            rw [hmissing]
            exact rfl
          · simpa [Parts.incompatibleWith, Parts.differentWith, hrequired] using ih [] identical
      | cons f fs =>
          dsimp only
          split_ifs with hgreater hrequired hoptional
          · rw [Parts.append_incompatibleWith, decide_eq_true hrequired]
            exact rfl
          · rw [Parts.append_incompatibleWith, Parts.append_differentWith]
            simpa [Parts.incompatibleWith, Parts.differentWith, hrequired] using
              ih (f :: fs) identical
          · rw [Parts.append_incompatibleWith, Parts.append_incompatibleWith,
              decide_eq_true hoptional]
            exact rfl
          · rw [Parts.append_incompatibleWith, Parts.append_incompatibleWith,
              Parts.append_differentWith, Parts.append_differentWith, decide_eq_false hoptional]
            have hrest := ih fs (!(!identical || (typeParts f.type g.type).differentWith different))
            rw [Bool.not_not, Bool.or_assoc] at hrest
            exact (validateType_agrees hR f.type g.type identical).agrees_bind
              (fun _ => ⟨_, rfl⟩) hrest

/-- `ValidateFields` -/
theorem validateFields_agrees (s_src : StructDef n) (s_dst : StructDef m) (identical : Bool) :
    Agrees (validateFields validateStruct s_src s_dst identical)
      ((fieldParts s_src.fields s_dst.fields).incompatibleWith incompatible)
      (!identical || (decide (s_dst.fields.length ≠ s_src.fields.length) ||
        (fieldParts s_src.fields s_dst.fields).differentWith different)) := by
  unfold validateFields
  dsimp only
  split_ifs with hlength
  · have h := validateFieldsLoop_agrees hR s_src s_dst s_src.fields s_dst.fields false
    simpa [hlength] using h
  · have h := validateFieldsLoop_agrees hR s_src s_dst s_src.fields s_dst.fields identical
    simpa [hlength] using h

/-- `ValidateStruct` on a pair that is not in the list. -/
theorem validatePair_agrees {S : SchemaDef n} {T : SchemaDef m} {src : Fin n} {dst : Fin m}
    {dSrc dDst : Nat} (hsrc : S.hierarchyDepth src = some dSrc)
    (hdst : T.hierarchyDepth dst = some dDst) (hlt : dDst < 2 ^ 16) (identical : Bool) :
    Agrees (validatePair S T validateStruct src dst identical)
      ((structParts S T (src, dst)).incompatibleWith incompatible)
      (!identical || (structParts S T (src, dst)).differentWith different) := by
  have hsrc' : S.schemaDepth src = some (.ofNat dSrc) := by rw [SchemaDef.schemaDepth, hsrc]; rfl
  have hdst' : T.schemaDepth dst = some (.ofNat dDst) := by rw [SchemaDef.schemaDepth, hdst]; rfl
  have hroot : (S.structs src).baseDef = none → dSrc = 1 := fun hnone =>
    Option.some.inj (hsrc.symm.trans ((S.hierarchyDepth_eq_one_iff src).2 hnone))
  unfold validatePair structParts
  rw [hsrc', hdst']
  dsimp only
  split_ifs with hdeeper hshallower
  · exact rfl
  · cases hbase : (S.structs src).baseDef with
    | some base =>
        dsimp only
        simpa [Parts.incompatibleWith, Parts.differentWith] using hR base dst false
    | none =>
        -- the depth one is not greater than that of another hierarchy
        have hpos := (T.depthWithin_bounds hdst).1
        have hnat := UInt16.lt_iff_toNat_lt.1 hshallower
        rw [hroot hbase, UInt16.toNat_ofNat', UInt16.toNat_ofNat', Nat.mod_eq_of_lt hlt] at hnat
        have hone : 1 % 2 ^ 16 = 1 := rfl
        omega
  · have hequal : S.hierarchyDepth src = T.hierarchyDepth dst := by
      rw [← schemaDepth_eq_iff, hsrc', hdst']
      exact congrArg some (UInt16.le_antisymm (UInt16.not_lt.1 hshallower) (UInt16.not_lt.1 hdeeper))
    have hbases : (S.structs src).baseDef = none ↔ (T.structs dst).baseDef = none := by
      rw [← S.hierarchyDepth_eq_one_iff, ← T.hierarchyDepth_eq_one_iff, hequal]
    rw [Parts.append_incompatibleWith, Parts.append_incompatibleWith, Parts.append_differentWith,
      Parts.append_differentWith]
    have hfields (flag : Bool) := validateFields_agrees hR (S.structs src) (T.structs dst) flag
    cases hS : (S.structs src).baseDef with
    | none =>
        rw [hbases.1 hS]
        simpa [Parts.incompatibleWith, Parts.differentWith] using hfields identical
    | some srcBase =>
        cases hT : (T.structs dst).baseDef with
        | none => exact absurd (hbases.2 hT) (by rw [hS]; exact Option.some_ne_none srcBase)
        | some dstBase =>
            have hrest := hfields (!(!identical || different (srcBase, dstBase)))
            rw [Bool.not_not, Bool.or_assoc] at hrest
            have hall := (hR srcBase dstBase identical).bind hrest
            simpa [Parts.incompatibleWith, Parts.differentWith, Bool.or_assoc] using hall

end

/-! ## Both validators as searches -/

section

variable (S : SchemaDef n) (T : SchemaDef m)

def nextPairs (p : Fin n × Fin m) : List (Fin n × Fin m) :=
  (structParts S T p).pairs

def incompatiblePair (p : Fin n × Fin m) : Bool :=
  (structParts S T p).incompatible

def differentPair (p : Fin n × Fin m) : Bool :=
  (structParts S T p).different

/-- The hierarchies come to an end, and those of the target have less than 65536 levels. -/
structure Bounded : Prop where
  src : ∀ i, ∃ d, S.hierarchyDepth i = some d
  dst : ∀ j, ∃ d, T.hierarchyDepth j = some d ∧ d < 2 ^ 16

variable {S T} (h : Bounded S T)

include h

/-- The validator is two searches that stop at their ancestors: for something incompatible and for something
    different. -/
theorem validateStruct_agrees (k : Nat) {list : List (Fin n × Fin m)} (hlist : list.Nodup)
    (hk : n * m < k + list.length) (src : Fin n) (dst : Fin m) (identical : Bool) :
    Agrees (validateStruct S T k list src dst identical)
      (Search.search (nextPairs S T) (incompatiblePair S T) k list (src, dst))
      (!identical || Search.search (nextPairs S T) (differentPair S T) k list (src, dst)) := by
  induction k generalizing list src dst identical with
  | zero =>
      have hle := chain_length_le hlist
      omega
  | succ k ih =>
      rw [validateStruct_succ, Search.search, Search.search]
      split_ifs with hmem
      · exact ⟨rfl, by simp⟩
      · obtain ⟨dSrc, hsrc⟩ := h.src src
        obtain ⟨dDst, hdst, hlt⟩ := h.dst dst
        have hnext := ih (List.nodup_cons.2 ⟨hmem, hlist⟩) (by rw [List.length_cons]; omega)
        exact validatePair_agrees hnext hsrc hdst hlt identical

/-- The validation of the unfolding is the search in the unfolding. -/
theorem validateUnfolding_agrees (k : Nat) (src : Fin n) (dst : Fin m) (identical : Bool) :
    Agrees (validateUnfolding S T k src dst identical)
      (Search.unfold (nextPairs S T) (incompatiblePair S T) k (src, dst))
      (!identical || Search.unfold (nextPairs S T) (differentPair S T) k (src, dst)) := by
  induction k generalizing src dst identical with
  | zero => exact ⟨rfl, by simp [Search.unfold]⟩
  | succ k ih =>
      obtain ⟨dSrc, hsrc⟩ := h.src src
      obtain ⟨dDst, hdst, hlt⟩ := h.dst dst
      exact validatePair_agrees ih hsrc hdst hlt identical

end

/-! ## The verdicts -/

section

variable {r : Except ValidateFailure Bool} {i d : Bool}

/-- The verdict for what has been found. -/
def verdictOf (incompatible different : Bool) : Verdict :=
  if incompatible then .incompatible else .compatible (!different)

theorem verdictOf_eq_incompatible : verdictOf i d = .incompatible ↔ i = true := by
  cases i <;> simp [verdictOf]

theorem verdictOf_eq_compatible {b : Bool} :
    verdictOf i d = .compatible b ↔ i = false ∧ d = !b := by
  cases i <;> cases d <;> cases b <;> simp [verdictOf]

theorem Agrees.verdict_eq (h : Agrees r i (!true || d)) : verdict r = some (verdictOf i d) := by
  cases r with
  | ok identical =>
      obtain ⟨rfl, rfl⟩ := h
      rfl
  | error e =>
      cases e with
      | exception e =>
          obtain rfl : i = true := h
          rfl
      | _ => exact h.elim

end

/-- Where no circle of bases has to be followed and the target has less than 65536 levels, the validator comes
    to an end, and what it says is what the validation of the whole unfolding says. -/
theorem validate_iff_unfoldsTo {S : SchemaDef n} {T : SchemaDef m} (h : Bounded S T) :
    ∃ v, verdict (validate S T) = some v ∧ ∀ w, UnfoldsTo S T w ↔ w = v := by
  have hsearch := (validateStruct_agrees h (n * m + 1) List.nodup_nil (by simp) S.root T.root
    true).verdict_eq
  have hunfold (k : Nat) := (validateUnfolding_agrees h k S.root T.root true).verdict_eq
  have hcard : Fintype.card (Fin n × Fin m) < n * m + 1 := by
    rw [Fintype.card_prod, Fintype.card_fin, Fintype.card_fin]
    exact Nat.lt_succ_self _
  have hfinds (bad : Fin n × Fin m → Bool) :
      Search.search (nextPairs S T) bad (n * m + 1) [] (S.root, T.root) = true ↔
        ∃ j, Search.unfold (nextPairs S T) bad j (S.root, T.root) = true :=
    Search.search_iff_unfold hcard
  have hcompatible (k : Nat) (b : Bool) :
      verdict (validateUnfolding S T k S.root T.root true) = some (.compatible b) ↔
        Search.unfold (nextPairs S T) (incompatiblePair S T) k (S.root, T.root) = false ∧
          Search.unfold (nextPairs S T) (differentPair S T) k (S.root, T.root) = !b := by
    rw [hunfold, Option.some.injEq, verdictOf_eq_compatible]
  refine ⟨_, hsearch, fun w => ?_⟩
  rw [eq_comm]
  cases w with
  | incompatible =>
      rw [verdictOf_eq_incompatible, hfinds, UnfoldsTo]
      simp only [hunfold, Option.some.injEq, verdictOf_eq_incompatible]
  | compatible identical =>
      rw [verdictOf_eq_compatible, ← Bool.not_eq_true, hfinds, not_exists]
      simp only [Bool.not_eq_true]
      cases identical with
      | true =>
          rw [Bool.not_true, ← Bool.not_eq_true, hfinds, not_exists]
          simp only [Bool.not_eq_true, UnfoldsTo, hcompatible, Bool.not_true]
          exact forall_and
      | false =>
          rw [Bool.not_false, hfinds]
          simp only [UnfoldsTo, hcompatible, Bool.not_false]
          constructor
          · rintro ⟨hall, k, -, hk⟩
            exact ⟨fun j => (hall j).choose_spec.1, k, hk⟩
          · rintro ⟨hall, k, hk⟩
            refine ⟨fun j => ⟨!Search.unfold (nextPairs S T) (differentPair S T) j (S.root, T.root),
              hall j, (Bool.not_not _).symm⟩, k, hall k, hk⟩

/-- A tree: a struct that refers to itself in a list and in a map, and another one derived from it. -/
def treeSchema : SchemaDef 2 where
  structs i :=
    if i = 0 then
      { metadata := ⟨"Node", "test.Node", .optional⟩
        baseDef := none
        fields := [⟨⟨"children", "", .optional⟩, 1, .list (.struct 0 false)⟩,
          ⟨⟨"index", "", .optional⟩, 2, .map (.basic .int32) (.struct 1 false)⟩]
        increasing := by decide }
    else
      { metadata := ⟨"Leaf", "test.Leaf", .optional⟩
        baseDef := some 0
        fields := [⟨⟨"parent", "", .optional⟩, 3, .struct 0 false⟩]
        increasing := by decide }
  root := 1
  size_le := SchemaDef.two_le

theorem validate_iff_unfoldsTo_tree :
    ∃ v, verdict (validate treeSchema treeSchema) = some v ∧
      ∀ w, UnfoldsTo treeSchema treeSchema w ↔ w = v :=
  validate_iff_unfoldsTo
    { src := fun i => match i with
        | 0 => ⟨1, rfl⟩
        | 1 => ⟨2, rfl⟩
      dst := fun j => match j with
        | 0 => ⟨1, rfl, by decide⟩
        | 1 => ⟨2, rfl, by decide⟩ }

/-! ## Very deep hierarchies -/

/-- A hierarchy of 65536 structs without fields. -/
def deepSchema : SchemaDef 65536 where
  structs i :=
    { metadata := ⟨"Level", "test.Level", .optional⟩
      baseDef := if i.val = 0 then none else some ⟨i.val - 1, by omega⟩
      fields := []
      increasing := .nil }
  root := ⟨65535, by decide⟩
  size_le := by decide

/-- A struct without fields. -/
def emptySchema : SchemaDef 1 where
  structs _ :=
    { metadata := ⟨"Empty", "test.Empty", .optional⟩
      baseDef := none
      fields := []
      increasing := StructDef.increasing_nil }
  root := 0
  size_le := SchemaDef.one_le

theorem deepSchema_depthWithin (k : Nat) (i : Fin 65536) (h : i.val < k) :
    deepSchema.depthWithin k i = some (i.val + 1) := by
  induction k generalizing i with
  | zero => exact absurd h (Nat.not_lt_zero _)
  | succ k ih =>
      have hbase : (deepSchema.structs i).baseDef =
          if i.val = 0 then none else some ⟨i.val - 1, by omega⟩ := rfl
      rw [SchemaDef.depthWithin, hbase]
      by_cases hi : i.val = 0
      · rw [if_pos hi, hi]
      · rw [if_neg hi]
        dsimp only
        rw [ih ⟨i.val - 1, by omega⟩ (by show i.val - 1 < k; omega)]
        show some (1 + (i.val - 1 + 1)) = some (i.val + 1)
        congr 1
        omega

/-- The base of a struct without a base is taken if the depth of the other one is zero. -/
theorem validate_undefined {S : SchemaDef n} {T : SchemaDef m}
    (hsrc : S.schemaDepth S.root = some 1) (hdst : T.schemaDepth T.root = some 0)
    (hbase : (S.structs S.root).baseDef = none) :
    validate S T = .error .undefinedBehavior := by
  rw [validate, validateStruct_succ, if_neg List.not_mem_nil]
  unfold validatePair
  rw [hdst, hsrc, hbase]
  rfl

/-- A `uint16_t` has no room for the depth 65536: the validator takes it for zero, and goes on to the base
    of a struct that has none. -/
theorem not_validate_deep :
    ¬ ∀ (S : SchemaDef 1) (T : SchemaDef 65536), (∀ i, ∃ d, S.hierarchyDepth i = some d) →
      (∀ j, ∃ d, T.hierarchyDepth j = some d) →
      ∃ v, verdict (validate S T) = some v ∧ ∀ w, UnfoldsTo S T w ↔ w = v := by
  intro hall
  have hdepth (j : Fin 65536) : deepSchema.hierarchyDepth j = some (j.val + 1) :=
    deepSchema_depthWithin 65536 j j.isLt
  obtain ⟨v, hv, -⟩ := hall emptySchema deepSchema (fun _ => ⟨1, rfl⟩) fun j => ⟨_, hdepth j⟩
  have hdst : deepSchema.schemaDepth deepSchema.root = some 0 := by
    rw [SchemaDef.schemaDepth, hdepth, Option.map_some]
    exact congrArg some (by decide : UInt16.ofNat 65536 = 0)
  rw [validate_undefined rfl hdst rfl] at hv
  cases hv

end Bond.Cpp

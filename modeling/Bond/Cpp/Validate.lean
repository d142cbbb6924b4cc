import Bond.Cpp.Schema
import Mathlib.Data.Fintype.Prod

set_option autoImplicit false

/-! # Schema validation

`Validate` (cpp/inc/bond/core/validate.h, detail/validate.h): may a payload in the schema `src` be
deserialized as `dst`, and are the two schemas identical on the wire? -/

namespace Bond.Cpp

/-! ## Failures -/

inductive SchemaValidateException where
  | structBaseDifferent (src dst : String)
  | requiredFieldMissing (struct field : String)
  | optionalToRequired (srcStruct srcField dstStruct dstField : String)
  | fieldTypeIncompatible (srcStruct srcField dstStruct dstField : String)
deriving DecidableEq, Repr

def SchemaValidateException.what : SchemaValidateException → String
  | .structBaseDifferent src dst =>
      "Schemas are incompatible; struct base different: " ++ src ++ ", " ++ dst
  | .requiredFieldMissing struct field =>
      "Schemas are incompatible; required field missing: " ++ struct ++ "::" ++ field
  | .optionalToRequired srcStruct srcField dstStruct dstField =>
      "Schemas are incompatible; required modifier removed: "
        ++ srcStruct ++ "::" ++ srcField ++ ", " ++ dstStruct ++ "::" ++ dstField
  | .fieldTypeIncompatible srcStruct srcField dstStruct dstField =>
      "Schemas are incompatible; field types incompatible: "
        ++ srcStruct ++ "::" ++ srcField ++ ", " ++ dstStruct ++ "::" ++ dstField

/-- Why `Validate` does not return. -/
inductive ValidateFailure where
  | exception (e : SchemaValidateException)
  /-- `schema_depth` does not come to an end: the bases go round in a circle -/
  | endlessHierarchy
  /-- the base schema of a struct without a base is taken -/
  | undefinedBehavior
  /-- the bound on the nesting of `ValidateStruct` is exceeded; see `validate_ne_outOfFuel` -/
  | outOfFuel
deriving DecidableEq, Repr

variable {n m : Nat}

/-! ## The validator -/

/-- `ValidateType` on type ids -/
def validateTypeId (src dst : BondDataType) : Bool :=
  match src with
  | .basic .uint8 | .basic .uint16 | .basic .uint32 =>
      match dst with
      | .basic .uint16 | .basic .uint32 | .basic .uint64 => src.toUInt8 ≤ dst.toUInt8
      | _ => src = dst
  | .basic .int8 | .basic .int16 | .basic .int32 =>
      match dst with
      | .basic .int16 | .basic .int32 | .basic .int64 => src.toUInt8 ≤ dst.toUInt8
      | _ => src = dst
  | .basic .float => dst = .basic .double
  | _ => src = dst

/-- `ValidateType`, given `ValidateStruct`; returns its result and the flag `identical`. -/
def validateType (validateStruct : Fin n → Fin m → Bool → Except ValidateFailure Bool)
    (src : TypeDef n) (dst : TypeDef m) (identical : Bool) :
    Except ValidateFailure (Bool × Bool) :=
  if dst.id ≠ src.id then
    return (validateTypeId src.id dst.id, false)
  else
    let identical := if dst.bondedType ≠ src.bondedType then false else identical
    match src, dst with
    | .struct src _, .struct dst false => do
        let identical ← validateStruct src dst identical
        return (true, identical)
    | .list src, .list dst => validateType validateStruct src dst identical
    | .set src, .set dst => validateType validateStruct src dst identical
    | .map srcKey src, .map dstKey dst => do
        let (valid, identical) ← validateType validateStruct src dst identical
        if !valid then
          return (false, identical)
        else
          validateType validateStruct srcKey dstKey identical
    | _, _ => return (true, identical)

/-- The loop of `ValidateFields` over the fields of `dst`; source fields with smaller ids are
    passed over. -/
def validateFieldsLoop (validateStruct : Fin n → Fin m → Bool → Except ValidateFailure Bool)
    (s_src : StructDef n) (s_dst : StructDef m) (fields : List (FieldDef n)) :
    List (FieldDef m) → Bool → Except ValidateFailure Bool
  | [], identical => return identical
  | f_dst :: dst, identical =>
      match fields.dropWhile fun f => f.id < f_dst.id with
      | f_src :: src =>
          if f_src.id > f_dst.id then
            if f_dst.metadata.modifier = .required then
              throw (.exception (.requiredFieldMissing s_dst.metadata.name f_dst.metadata.name))
            else
              validateFieldsLoop validateStruct s_src s_dst (f_src :: src) dst identical
          else if f_dst.metadata.modifier = .required ∧ f_src.metadata.modifier = .optional then
            throw (.exception (.optionalToRequired s_src.metadata.name f_src.metadata.name
              s_dst.metadata.name f_dst.metadata.name))
          else do
            let (valid, identical) ← validateType validateStruct f_src.type f_dst.type identical
            if !valid then
              throw (.exception (.fieldTypeIncompatible s_src.metadata.name f_src.metadata.name
                s_dst.metadata.name f_dst.metadata.name))
            else
              validateFieldsLoop validateStruct s_src s_dst src dst identical
      | [] =>
          if f_dst.metadata.modifier = .required then
            throw (.exception (.requiredFieldMissing s_dst.metadata.name f_dst.metadata.name))
          else
            validateFieldsLoop validateStruct s_src s_dst [] dst identical

/-- `ValidateFields`, given `ValidateStruct` -/
def validateFields (validateStruct : Fin n → Fin m → Bool → Except ValidateFailure Bool)
    (s_src : StructDef n) (s_dst : StructDef m) (identical : Bool) : Except ValidateFailure Bool :=
  let identical := if s_dst.fields.length ≠ s_src.fields.length then false else identical
  validateFieldsLoop validateStruct s_src s_dst s_src.fields s_dst.fields identical

/-- `ValidateStruct`. `list` is the chain of the pairs of structs that are being validated. -/
def validateStruct (S : SchemaDef n) (T : SchemaDef m) :
    Nat → List (Fin n × Fin m) → Fin n → Fin m → Bool → Except ValidateFailure Bool
  | 0, _, _, _, _ => throw .outOfFuel
  | k + 1, list, src, dst, identical =>
      if (src, dst) ∈ list then
        return identical
      else
        let next := (src, dst) :: list
        match T.schemaDepth dst, S.schemaDepth src with
        | some d_dst, some d_src =>
            if d_dst > d_src then
              throw (.exception (.structBaseDifferent (S.structs src).metadata.name
                (T.structs dst).metadata.name))
            else if d_src > d_dst then
              match (S.structs src).baseDef with
              | some base => validateStruct S T k next base dst false
              | none => throw .undefinedBehavior
            else do
              let identical ←
                match (T.structs dst).baseDef, (S.structs src).baseDef with
                | some dstBase, some srcBase => validateStruct S T k next srcBase dstBase identical
                | some _, none => throw .undefinedBehavior
                | none, _ => pure identical
              validateFields (validateStruct S T k next) (S.structs src) (T.structs dst) identical
        | _, _ => throw .endlessHierarchy

/-- `Validate`: whether the schemas are wire-format equivalent. A chain of pairs never repeats
    itself, so it is no longer than there are pairs. -/
def validate (S : SchemaDef n) (T : SchemaDef m) : Except ValidateFailure Bool :=
  validateStruct S T (n * m + 1) [] S.root T.root true

/-! ## The bound on the nesting -/

/-- A `ValidateStruct` that is never cut off. -/
def StaysInBound (validateStruct : Fin n → Fin m → Bool → Except ValidateFailure Bool) : Prop :=
  ∀ src dst identical, validateStruct src dst identical ≠ .error .outOfFuel

theorem bind_ne_error {α β : Type} {x : Except ValidateFailure α}
    {f : α → Except ValidateFailure β} {e : ValidateFailure} (hx : x ≠ .error e)
    (hf : ∀ a, f a ≠ .error e) : (x >>= f) ≠ .error e := by
  cases x with
  | error e' =>
      intro h
      exact hx (congrArg Except.error (Except.error.inj h))
  | ok a => exact hf a

section

variable {validateStruct : Fin n → Fin m → Bool → Except ValidateFailure Bool}
  (hR : StaysInBound validateStruct)

include hR

theorem validateType_staysInBound (src : TypeDef n) (dst : TypeDef m) (identical : Bool) :
    validateType validateStruct src dst identical ≠ .error .outOfFuel := by
  have hreturn (result : Bool × Bool) :
      (pure result : Except ValidateFailure (Bool × Bool)) ≠ .error .outOfFuel := by
    intro h
    cases h
  induction src generalizing dst identical with
  | basic s => cases dst <;> (rw [validateType]; split <;> exact hreturn _)
  | struct s sBonded =>
      cases dst with
      | struct d dBonded =>
          rw [validateType, if_neg (by simp [TypeDef.id])]
          cases dBonded with
          | true => exact hreturn _
          | false => exact bind_ne_error (hR _ _ _) fun _ => hreturn _
      | _ => exact hreturn _
  | list s ih =>
      cases dst with
      | list d =>
          rw [validateType, if_neg (by simp [TypeDef.id])]
          exact ih d _
      | _ => exact hreturn _
  | set s ih =>
      cases dst with
      | set d =>
          rw [validateType, if_neg (by simp [TypeDef.id])]
          exact ih d _
      | _ => exact hreturn _
  | map sKey s ihKey ih =>
      cases dst with
      | map dKey d =>
          rw [validateType, if_neg (by simp [TypeDef.id])]
          refine bind_ne_error (ih d _) fun ⟨valid, flag⟩ => ?_
          cases valid with
          | false => exact hreturn _
          | true => exact ihKey dKey _
      | _ => exact hreturn _

theorem validateFieldsLoop_staysInBound (s_src : StructDef n) (s_dst : StructDef m)
    (fs : List (FieldDef n)) (gs : List (FieldDef m)) (identical : Bool) :
    validateFieldsLoop validateStruct s_src s_dst fs gs identical ≠ .error .outOfFuel := by
  have hthrow (e : SchemaValidateException) :
      (throw (.exception e) : Except ValidateFailure Bool) ≠ .error .outOfFuel := by
    intro h
    cases h
  induction gs generalizing fs identical with
  | nil =>
      rw [validateFieldsLoop]
      intro h
      cases h
  | cons g gs ih =>
      rw [validateFieldsLoop]
      split
      · split_ifs
        · exact hthrow _
        · exact ih _ _
        · exact hthrow _
        · refine bind_ne_error (validateType_staysInBound hR _ _ _) fun ⟨valid, flag⟩ => ?_
          cases valid with
          | false => exact hthrow _
          | true => exact ih _ _
      · split_ifs
        · exact hthrow _
        · exact ih _ _

end

theorem chain_length_le {list : List (Fin n × Fin m)} (h : list.Nodup) : list.length ≤ n * m := by
  have hcard := h.length_le_card
  rwa [Fintype.card_prod, Fintype.card_fin, Fintype.card_fin] at hcard

variable (S : SchemaDef n) (T : SchemaDef m)

theorem validateStruct_staysInBound (k : Nat) {list : List (Fin n × Fin m)} (hlist : list.Nodup)
    (hk : n * m < k + list.length) : StaysInBound (validateStruct S T k list) := by
  induction k generalizing list with
  | zero =>
      have hle := chain_length_le hlist
      omega
  | succ k ih =>
      intro src dst identical
      by_cases hmem : (src, dst) ∈ list
      · rw [validateStruct, if_pos hmem]
        intro h
        cases h
      · have hnext : StaysInBound (validateStruct S T k ((src, dst) :: list)) :=
          ih (List.nodup_cons.2 ⟨hmem, hlist⟩) (by rw [List.length_cons]; omega)
        have hfields (flag : Bool) : validateFields (validateStruct S T k ((src, dst) :: list))
            (S.structs src) (T.structs dst) flag ≠ .error .outOfFuel :=
          validateFieldsLoop_staysInBound hnext _ _ _ _ _
        have hthrow (e : ValidateFailure) (he : e ≠ .outOfFuel) :
            (throw e : Except ValidateFailure Bool) ≠ .error .outOfFuel := fun h =>
          he (Except.error.inj h)
        rw [validateStruct, if_neg hmem]
        split
        · split_ifs
          · exact hthrow _ (by simp)
          · split
            · exact hnext _ _ _
            · exact hthrow _ (by simp)
          · split
            · exact bind_ne_error (hnext _ _ _) hfields
            · exact bind_ne_error (hthrow _ (by simp)) hfields
            · exact hfields _
        · exact hthrow _ (by simp)

/-- The bound on the nesting is never exceeded. -/
theorem validate_ne_outOfFuel : validate S T ≠ .error .outOfFuel :=
  validateStruct_staysInBound S T _ List.nodup_nil (by simp) _ _ _

end Bond.Cpp

import Bond.Cpp.SimpleJsonReader
import Bond.Lib.Plan

set_option autoImplicit false

/-! # The getters that a JSON value is read with

`SimpleJsonReader` looks at the kind of a JSON value when it searches for a field or goes through
a container, and calls a getter on the value elsewhere. Here the deserialization of a value is a
plan: the list of the checks that it makes and of the values that it reads, in their order, as the
value, the schema and the type of the variable give them. -/

namespace Bond.Cpp.SimpleJson

open Bond.Lib.Plan

variable {n m : Nat}

/-! ## Steps -/

/-- The value is of the kind that the getter for the type requires. -/
def fits (value : Json) : Scalar → Bool
  | .enum _ => value.isString || value.isInt
  | .basic .bool => value.isBool
  | .basic .float | .basic .double => value.isNumber
  | .basic .string | .basic .wstring => value.isString
  | .basic .uint8 | .basic .uint16 | .basic .uint32 | .basic .uint64 => value.isUint64
  | .basic .int8 | .basic .int16 | .basic .int32 | .basic .int64 => value.isInt64

/-- The value of a string, and the empty string for other values -/
def stringUnits : Json → List UInt8
  | .string units => units
  | _ => []

/-- The conversion of what a getter gives does not throw. -/
def converts (conversions : Conversions) (value : Json) : Scalar → Bool
  | .enum constants =>
      !value.isString || constants.any fun constant => constant.1 = cString (stringUnits value)
  | .basic .wstring => (conversions.utfToUtf (stringUnits value)).isSome
  | .basic _ => true

/-- What the deserialization of a value does, apart from assignments. -/
inductive JsonStep where
  /-- a check that throws if it fails -/
  | check (ok : Bool)
  /-- a value that is read as a `Scalar`; `checked` if its kind has been compared with that type -/
  | read (checked : Bool) (T : Scalar) (value : Json)
  /-- an element of a blob -/
  | readByte (value : Json)

/-- A call of a getter on a value of another kind is a fault. -/
def judge (conversions : Conversions) : JsonStep → Ruling
  | .check ok => if ok then .passes else .refuses
  | .read _ T value =>
      if fits value T then
        if converts conversions value T then .passes else .refuses
      else .faults
  | .readByte value => if value.isInt then .passes else .faults


/-! ## Getters -/

def isAssertion : JsonError → Bool
  | .assertion _ => true
  | _ => false

/-- A getter has a result for the values of its kind, and fails its assertion for the others. -/
def Gets {α : Type} (getter : Except JsonError α) (kind : Bool) : Prop :=
  if kind then ∃ a, getter = .ok a else ∃ g, getter = .error (.assertion g)

theorem Gets.of_eq {α : Type} {getter : Except JsonError α} {a : α} (h : getter = .ok a) :
    Gets getter true :=
  ⟨a, h⟩

theorem gets_getBool (value : Json) : Gets value.getBool value.isBool := by
  cases value with
  | bool v => exact ⟨v, rfl⟩
  | null | integer | double | string | array | object => exact ⟨_, rfl⟩

theorem gets_getString (value : Json) : Gets value.getString value.isString := by
  cases value with
  | string units => exact ⟨units, rfl⟩
  | null | bool | integer | double | array | object => exact ⟨_, rfl⟩

theorem gets_getDouble (value : Json) : Gets value.getDouble value.isNumber := by
  cases value with
  | integer n =>
      show ∃ bits, Json.getDouble (.integer n) = .ok bits
      by_cases hn : n.val < 0 <;> simp only [Json.getDouble, hn, if_true, if_false] <;>
        exact ⟨_, rfl⟩
  | double bits => exact ⟨bits, rfl⟩
  | null | bool | string | array | object => exact ⟨_, rfl⟩

theorem gets_getInt (value : Json) : Gets value.getInt value.isInt := by
  cases value with
  | integer n =>
      unfold Gets
      by_cases hn : (Json.integer n).isInt = true
      · rw [if_pos hn]
        exact ⟨n.val, if_pos hn⟩
      · rw [if_neg hn]
        exact ⟨.getInt, if_neg hn⟩
  | null | bool | double | string | array | object => exact ⟨_, rfl⟩

theorem gets_getInt64 (value : Json) : Gets value.getInt64 value.isInt64 := by
  cases value with
  | integer n =>
      unfold Gets
      by_cases hn : (Json.integer n).isInt64 = true
      · rw [if_pos hn]
        exact ⟨n.val, if_pos hn⟩
      · rw [if_neg hn]
        exact ⟨.getInt64, if_neg hn⟩
  | null | bool | double | string | array | object => exact ⟨_, rfl⟩

theorem gets_getUint64 (value : Json) : Gets value.getUint64 value.isUint64 := by
  cases value with
  | integer n =>
      unfold Gets
      by_cases hn : (Json.integer n).isUint64 = true
      · rw [if_pos hn]
        exact ⟨n.val.toNat, if_pos hn⟩
      · rw [if_neg hn]
        exact ⟨.getUint64, if_neg hn⟩
  | null | bool | double | string | array | object => exact ⟨_, rfl⟩

/-- What comes after a getter decides about the values of its kind. -/
theorem Gets.outcome_bind {α β : Type} {getter : Except JsonError α} {kind : Bool}
    (h : Gets getter kind) {next : α → Except JsonError β} {ruling : Ruling}
    (hnext : ∀ a, getter = .ok a → outcome isAssertion (next a) = ruling) :
    outcome isAssertion (getter >>= next) = if kind then ruling else .faults := by
  unfold Gets at h
  split at h
  · obtain ⟨a, ha⟩ := h
    rw [if_pos (by assumption), ha]
    exact hnext a ha
  · obtain ⟨g, hg⟩ := h
    rw [if_neg (by assumption), hg]
    rfl

theorem outcome_toEnum (constants : List (List UInt8 × Int32)) (name : List UInt8) :
    outcome isAssertion (toEnum constants name) =
      if constants.any fun constant => constant.1 = cString name then .passes else .refuses := by
  unfold toEnum
  cases hfind : constants.find? fun constant => constant.1 = cString name with
  | none =>
      have hany : (constants.any fun constant => constant.1 = cString name) = false := by
        simpa using hfind
      rw [hany]
      rfl
  | some constant =>
      have hany : (constants.any fun constant => constant.1 = cString name) = true :=
        List.any_eq_true.2
          ⟨constant, List.mem_of_find?_eq_some hfind, by simpa using List.find?_some hfind⟩
      rw [hany]
      rfl

/-- A value is read with the getter that `fits` stands for. -/
theorem outcome_read (conversions : Conversions) (checked : Bool) (T : Scalar) (value : Json) :
    outcome isAssertion (T.read conversions value) = judge conversions (.read checked T value) := by
  cases T with
  | enum constants =>
      by_cases hstring : value.isString = true
      · obtain ⟨units, rfl⟩ : ∃ units, value = .string units := by
          cases value <;> simp_all [Json.isString]
        exact (outcome_map isAssertion (toEnum constants units) BasicValue.int32).trans
          (outcome_toEnum constants units)
      · have hget : outcome isAssertion (value.getInt >>= fun n =>
            .ok (BasicValue.int32 (Int32.ofInt n))) =
            if value.isInt then .passes else .faults :=
          (gets_getInt value).outcome_bind fun a _ => rfl
        rw [Scalar.read, if_neg hstring, judge, fits, converts]
        refine hget.trans ?_
        simp [hstring]
  | basic type =>
      cases type with
      | bool => exact (gets_getBool value).outcome_bind fun a _ => rfl
      | float | double => exact (gets_getDouble value).outcome_bind fun a _ => rfl
      | string => exact (gets_getString value).outcome_bind fun a _ => rfl
      | uint8 | uint16 | uint32 | uint64 =>
          exact (gets_getUint64 value).outcome_bind fun a _ => rfl
      | int8 | int16 | int32 | int64 => exact (gets_getInt64 value).outcome_bind fun a _ => rfl
      | wstring =>
          refine (gets_getString value).outcome_bind fun units hunits => ?_
          obtain rfl : value = .string units := by
            cases value with
            | string => exact congrArg Json.string (Except.ok.inj hunits)
            | _ => cases hunits
          have hconverts : converts conversions (.string units) (.basic .wstring) =
              (conversions.utfToUtf units).isSome := rfl
          split
          · next str hutf =>
              rw [if_pos (hconverts.trans (by rw [hutf]; rfl))]
              rfl
          · next hutf =>
              rw [if_neg (by rw [hconverts, hutf]; exact Bool.false_ne_true)]
              rfl

/-! ## Plans -/

/-- What `Deserialize` does with a value, a schema and a type; the first argument says whether the
    kind of the value has been compared with the type. -/
abbrev Plan (n m : Nat) := Bool → TypeSchema n m → VarType m → List JsonStep

/-- The round for an element of a list -/
def planElement (element : TypeSchema n m) (X : VarType m) (child : Json × Plan n m) :
    List JsonStep :=
  if (elementMatching element X).complexTypeMatch child.1 then
    child.2 true element X
  else if (elementMatching element X).basicTypeMatch child.1 then
    child.2 true (.compileTime X.schemaType) X
  else []

/-- The round for an element of a set -/
def planInsert (element : TypeSchema n m) (X : Scalar) (child : Json × Plan n m) : List JsonStep :=
  if (elementMatching element (.scalar X)).basicTypeMatch child.1 then
    [.read true X child.1]
  else []

/-- The round for an element of a blob -/
def planByte (child : Json × Plan n m) : List JsonStep :=
  if child.1.isInt then [.readByte child.1] else []

def planKey (keyType : BondDataType) (Y : Scalar) (key : Json) : List JsonStep :=
  if (JsonTypeMatching.ofType (.basic Y.type) keyType Y.isEnum).basicTypeMatch key then
    [.read true Y key]
  else [.check false]

/-- A mapped value is read as it is. -/
def planMapped (element : TypeSchema n m) (X : VarType m) (child : Json × Plan n m) :
    List JsonStep :=
  if (elementMatching element X).complexTypeMatch child.1 then
    child.2 true element X
  else
    child.2 false (.compileTime X.schemaType) X

def planMapElements (keyType : BondDataType) (element : TypeSchema n m) (Y : Scalar)
    (X : VarType m) : List (Json × Plan n m) → List JsonStep
  | [] => []
  | [key] => planKey keyType Y key.1 ++ [.check false]
  | key :: child :: children =>
      planKey keyType Y key.1 ++
        (planMapped element X child ++ planMapElements keyType element Y X children)

def planContainer (schema : TypeSchema n m) (X : VarType m) (children : List (Json × Plan n m)) :
    List JsonStep :=
  match X with
  | .list X => children.flatMap (planElement schema.element X)
  | .nullable X =>
      match children with
      | [] => []
      | child :: _ => planElement schema.element X child
  | .blob => children.flatMap planByte
  | .set X => children.flatMap (planInsert schema.element X)
  | .map Y X => planMapElements schema.key.id schema.element Y X children
  | _ => []

section

variable (conversions : Conversions) (C : VarSchema m)

/-- What is found for an `int32` of a runtime schema may be a string. -/
def TypeSchema.isChecked : TypeSchema n m → Bool
  | .compileTime _ => true
  | .runtime type => type.id ≠ .basic .int32

/-- The check of `Validate<Head>`, and `_required` after it -/
def planValidate (x : Fin m) (head : VarField m) (required : Option UInt16) :
    List JsonStep × Option UInt16 :=
  if head.modifier = .required then
    ([.check (required = some head.id)],
      nextRequired ((C.structs x).fields.dropWhile fun g => g.id ≤ head.id))
  else ([], required)

variable {k : Nat} (S : Schema k) (typeSchema : SchemaType k → TypeSchema n m)

def planFields (x : Fin m) (members : List (List UInt8 × Json × Plan n m)) :
    List (SchemaField k) → Option UInt16 → List JsonStep
  | [], required => [.check required.isNone]
  | field :: fields, required =>
      let schema := typeSchema field.type
      match members.find? fun member =>
          isField conversions field.id field.fieldName schema member.1 member.2.1 with
      | none => planFields x members fields required
      | some member =>
          match findMatchingField C x schema.fieldValue field.id with
          | none => planFields x members fields required
          | some head =>
              (planValidate C x head required).1 ++
                (member.2.2 schema.isChecked schema.fieldValue head.type ++
                  planFields x members fields (planValidate C x head required).2)

def planSchema (members : List (List UInt8 × Json × Plan n m)) :
    Nat → Fin k → Fin m → List JsonStep
  | 0, _, _ => [.check false]
  | fuel + 1, i, x =>
      match S.schemaDepth i with
      | none => [.check false]
      | some depth =>
          if depth > (C.schema.schemaDepth x).getD 0 then
            match (S.structs i).base with
            | none => [.check false]
            | some j => planSchema members fuel j x
          else
            (match (S.structs i).base, (C.structs x).base with
              | some j, some y => planSchema members fuel j y
              | _, _ => []) ++
              planFields conversions C typeSchema x members (S.structs i).fields
                (nextRequired (C.structs x).fields)

end

section

variable (conversions : Conversions) (S : Schema n) (C : VarSchema m)

def planValue (value : Json) (elements : List (Json × Plan n m))
    (members : List (List UInt8 × Json × Plan n m)) : Plan n m := fun checked schema X =>
  if isValueMatching schema X then
    match X, schema with
    | .scalar X, .compileTime (.scalar T) => [.read checked (dataType T X) value]
    | .struct x, .compileTime (.struct i) =>
        planSchema conversions C C.schema .compileTime members m i x
    | .struct x, .runtime (.struct i) => planSchema conversions C S .runtime members n i x
    | .bonded _, _ => []
    | X, schema => planContainer schema X elements
  else []

mutual

/-- What the deserialization of a JSON value does -/
def plan : Json → Plan n m
  | .array elements => planValue conversions S C (.array elements) (elementPlans elements) []
  | .object members => planValue conversions S C (.object members) [] (memberPlans members)
  | value => planValue conversions S C value [] []

def elementPlans : List Json → List (Json × Plan n m)
  | [] => []
  | element :: elements => (element, plan element) :: elementPlans elements

def memberPlans : List (List UInt8 × Json) → List (List UInt8 × Json × Plan n m)
  | [] => []
  | (name, value) :: members => (name, value, plan value) :: memberPlans members

end

end

/-! ## Deserialization follows its plan -/

section

variable {conversions : Conversions}

/-- The plan of the deserialization of a value -/
def Plans (conversions : Conversions) (deserialize : Deserialize n m) (plan : Plan n m) : Prop :=
  ∀ checked schema X var,
    Follows (judge conversions) isAssertion (deserialize schema X var) (plan checked schema X)

/-- Readers of the same values, with their plans -/
abbrev PlansAll (conversions : Conversions) (readers : List (Json × Deserialize n m))
    (children : List (Json × Plan n m)) : Prop :=
  List.Forall₂ (fun r c => r.1 = c.1 ∧ Plans conversions r.2 c.2) readers children

abbrev PlansMembers (conversions : Conversions)
    (readers : List (List UInt8 × Json × Deserialize n m))
    (children : List (List UInt8 × Json × Plan n m)) : Prop :=
  List.Forall₂ (fun r c => r.1 = c.1 ∧ r.2.1 = c.2.1 ∧ Plans conversions r.2.2 c.2.2)
    readers children

theorem follows_deserializeElement {element : TypeSchema n m} {X : VarType m}
    {reader : Json × Deserialize n m} {child : Json × Plan n m}
    (h : reader.1 = child.1 ∧ Plans conversions reader.2 child.2) (item : CppValue m) :
    Follows (judge conversions) isAssertion (deserializeElement element X reader item)
      (planElement element X child) := by
  obtain ⟨hvalue, hplans⟩ := h
  unfold deserializeElement planElement
  rw [hvalue]
  split_ifs
  · exact hplans _ _ _ _
  · exact hplans _ _ _ _
  · exact Follows.pure _

theorem follows_deserializeItems {element : TypeSchema n m} {X : VarType m}
    {readers : List (Json × Deserialize n m)} {children : List (Json × Plan n m)}
    (h : PlansAll conversions readers children) (items : List (CppValue m)) :
    Follows (judge conversions) isAssertion (deserializeItems element X readers items)
      (children.flatMap (planElement element X)) := by
  induction h generalizing items with
  | nil => exact Follows.pure _
  | cons hchild _ ih =>
      rw [List.flatMap_cons]
      refine (follows_deserializeElement hchild _).bind fun item _ => ?_
      exact (ih items.tail).map

theorem follows_insertElements {element : TypeSchema n m} {X : Scalar}
    {readers : List (Json × Deserialize n m)} {children : List (Json × Plan n m)}
    (h : PlansAll conversions readers children) (items : List BasicValue) :
    Follows (judge conversions) isAssertion (insertElements conversions element X readers items)
      (children.flatMap (planInsert element X)) := by
  induction h generalizing items with
  | nil => exact Follows.pure _
  | cons hchild _ ih =>
      rw [List.flatMap_cons, insertElements, planInsert, hchild.1]
      split_ifs
      · refine (Follows.step (outcome_read conversions true X _)).bind fun e _ => ?_
        exact ih (setInsert items e)
      · exact ih items

theorem follows_blobBytes {readers : List (Json × Deserialize n m)}
    {children : List (Json × Plan n m)} (h : PlansAll conversions readers children) :
    Follows (judge conversions) isAssertion (blobBytes readers) (children.flatMap planByte) := by
  induction h with
  | nil => exact Follows.pure _
  | @cons reader child _ _ hchild _ ih =>
      rw [List.flatMap_cons, blobBytes, planByte, hchild.1]
      split_ifs with hint
      · refine Follows.bind (Follows.step ?_) fun n _ => ih.map
        have hget : outcome isAssertion (child.1.getInt >>= .ok) =
            if child.1.isInt then .passes else .faults :=
          (gets_getInt child.1).outcome_bind fun _ _ => rfl
        rw [judge, ← hget]
        exact (outcome_map isAssertion child.1.getInt id).symm
      · exact ih

theorem follows_readKey (keyType : BondDataType) (Y : Scalar) (key : Json) :
    Follows (judge conversions) isAssertion (readKey conversions keyType Y key)
      (planKey keyType Y key) := by
  unfold readKey planKey
  split_ifs
  · exact Follows.step (outcome_read conversions true Y key)
  · exact Follows.step rfl

theorem follows_readMapped {element : TypeSchema n m} {X : VarType m}
    {reader : Json × Deserialize n m} {child : Json × Plan n m}
    (h : reader.1 = child.1 ∧ Plans conversions reader.2 child.2) (item : CppValue m) :
    Follows (judge conversions) isAssertion (readMapped element X reader item)
      (planMapped element X child) := by
  obtain ⟨hvalue, hplans⟩ := h
  unfold readMapped planMapped
  rw [hvalue]
  split_ifs
  · exact hplans _ _ _ _
  · exact hplans _ _ _ _

/-- Two elements of the array are a pair of the map. -/
theorem follows_deserializeMapElements {keyType : BondDataType} {element : TypeSchema n m}
    {Y : Scalar} {X : VarType m} :
    ∀ {readers : List (Json × Deserialize n m)} {children : List (Json × Plan n m)},
      PlansAll conversions readers children → ∀ entries,
      Follows (judge conversions) isAssertion
        (deserializeMapElements conversions keyType element Y X readers entries)
        (planMapElements keyType element Y X children)
  | _, _, .nil, _ => Follows.pure _
  | _, _, .cons hkey .nil, _ => by
      rw [deserializeMapElements, planMapElements, hkey.1]
      exact (follows_readKey keyType Y _).bind fun _ _ => Follows.step rfl
  | _, _, .cons hkey (.cons hchild hrest), entries => by
      rw [deserializeMapElements, planMapElements, hkey.1]
      refine (follows_readKey keyType Y _).bind fun k _ => ?_
      refine (follows_readMapped hchild _).bind fun v _ => ?_
      exact follows_deserializeMapElements hrest _

theorem follows_deserializeContainer {schema : TypeSchema n m} {X : VarType m} {var : CppValue m}
    {readers : List (Json × Deserialize n m)} {children : List (Json × Plan n m)}
    (h : PlansAll conversions readers children) :
    Follows (judge conversions) isAssertion (deserializeContainer conversions schema X var readers)
      (planContainer schema X children) := by
  unfold deserializeContainer planContainer
  cases X with
  | list X => exact (follows_deserializeItems h _).map
  | nullable X =>
      cases h with
      | nil => exact Follows.pure _
      | cons hchild _ => exact (follows_deserializeElement hchild _).map
  | blob => exact (follows_blobBytes h).map
  | set X => exact (follows_insertElements h _).map
  | map Y X => exact (follows_deserializeMapElements h _).map
  | scalar | struct | bonded | vectorBool => exact Follows.pure _

/-- A search in both lists finds members that belong together. -/
theorem PlansMembers.find? {readers : List (List UInt8 × Json × Deserialize n m)}
    {children : List (List UInt8 × Json × Plan n m)} (h : PlansMembers conversions readers children)
    (p : List UInt8 → Json → Bool) :
    (readers.find? fun r => p r.1 r.2.1) = none ∧ (children.find? fun c => p c.1 c.2.1) = none ∨
      ∃ r c, (readers.find? fun r => p r.1 r.2.1) = some r ∧
        (children.find? fun c => p c.1 c.2.1) = some c ∧ Plans conversions r.2.2 c.2.2 := by
  induction h with
  | nil => exact .inl ⟨rfl, rfl⟩
  | @cons r c _ _ hmember _ ih =>
      obtain ⟨hname, hvalue, hplans⟩ := hmember
      by_cases hp : p c.1 c.2.1 = true
      · exact .inr ⟨r, c, by simp [hname, hvalue, hp], by simp [hp], hplans⟩
      · simpa [hname, hvalue, hp] using ih

end

/-! ### Structs -/

section

variable {conversions : Conversions} {C : VarSchema m}

theorem follows_validateField (x : Fin m) (head : VarField m) (required : Option UInt16) :
    Follows (judge conversions) isAssertion (validateField C x head required)
      (planValidate C x head required).1 := by
  unfold validateField planValidate
  split_ifs with hmodifier hrequired
  · exact Follows.step (by rw [judge, if_pos (by simpa using hrequired)]; rfl)
  · exact Follows.step (by rw [judge, if_neg (by simpa using hrequired)]; rfl)
  · exact Follows.pure _

theorem validateField_eq {x : Fin m} {head : VarField m} {required next : Option UInt16}
    (h : validateField C x head required = .ok next) :
    (planValidate C x head required).2 = next := by
  unfold validateField at h
  unfold planValidate
  split_ifs at h ⊢ with hmodifier hrequired
  · exact Except.ok.inj h
  · exact Except.ok.inj h

variable {k : Nat} {S : Schema k} {typeSchema : SchemaType k → TypeSchema n m}

/-- The fields of a level, and the check for required fields after them -/
theorem follows_readFields {x : Fin m} {readers : List (List UInt8 × Json × Deserialize n m)}
    {children : List (List UInt8 × Json × Plan n m)} (h : PlansMembers conversions readers children)
    (fields : List (SchemaField k)) (state : ToState m) :
    Follows (judge conversions) isAssertion
      (readFields conversions C typeSchema x readers fields state >>= fun state =>
        validateSchema C x state.2 >>= fun _ => .ok state.1)
      (planFields conversions C typeSchema x children fields state.2) := by
  induction fields generalizing state with
  | nil =>
      unfold readFields planFields
      refine Follows.step ?_
      show outcome isAssertion (validateSchema C x state.2 >>= fun _ => .ok state.1) = _
      unfold validateSchema
      cases state.2 <;> rfl
  | cons field fields ih =>
      unfold readFields planFields findField
      rcases h.find? (isField conversions field.id field.fieldName (typeSchema field.type)) with
        ⟨hnone, hnone'⟩ | ⟨r, c, hr, hc, hplans⟩
      · simp only [hnone, hnone', Option.map_none]
        exact ih state
      · simp only [hr, hc, Option.map_some]
        unfold assignToField
        cases findMatchingField C x (typeSchema field.type).fieldValue field.id with
        | none => exact ih state
        | some head =>
            simp only [bind_assoc]
            refine (follows_validateField x head state.2).bind fun required hrequired => ?_
            refine (hplans _ _ _ _).bind fun v _ => ?_
            rw [validateField_eq hrequired]
            exact ih (_, required)

/-- The levels of a hierarchy -/
theorem follows_readSchema {readers : List (List UInt8 × Json × Deserialize n m)}
    {children : List (List UInt8 × Json × Plan n m)} (h : PlansMembers conversions readers children)
    (fuel : Nat) (i : Fin k) (x : Fin m) (var : CppValue m) :
    Follows (judge conversions) isAssertion
      (readSchema conversions C S typeSchema readers fuel i x var)
      (planSchema conversions C S typeSchema children fuel i x) := by
  induction fuel generalizing i x var with
  | zero => exact Follows.step rfl
  | succ fuel ih =>
      unfold readSchema planSchema
      cases S.schemaDepth i with
      | none => exact Follows.step rfl
      | some depth =>
          simp only
          split_ifs
          · cases (S.structs i).base with
            | none => exact Follows.step rfl
            | some j => exact ih j x var
          · refine Follows.bind ?_ fun var _ =>
              follows_readFields h (S.structs i).fields (var, nextRequired (C.structs x).fields)
            cases (S.structs i).base with
            | none => exact Follows.pure _
            | some j =>
                cases (C.structs x).base with
                | none => exact Follows.pure _
                | some y => exact ih j y var

end

/-! ### Values -/

section

variable (conversions : Conversions) (S : Schema n) (C : VarSchema m)

theorem planValue_container {value : Json} {elements : List (Json × Plan n m)}
    {members : List (List UInt8 × Json × Plan n m)} {checked : Bool} {schema : TypeSchema n m}
    {X : VarType m} (hmatching : isValueMatching schema X = true)
    (hbonded : ∀ x, X = .bonded x → False)
    (hscalar : ∀ X' T, X = .scalar X' → schema = .compileTime (.scalar T) → False)
    (hcompile : ∀ x i, X = .struct x → schema = .compileTime (.struct i) → False)
    (hruntime : ∀ x i, X = .struct x → schema = .runtime (.struct i) → False) :
    planValue conversions S C value elements members checked schema X
      = planContainer schema X elements := by
  unfold planValue
  rw [if_pos hmatching]
  split
  · exact (hscalar _ _ rfl rfl).elim
  · exact (hcompile _ _ rfl rfl).elim
  · exact (hruntime _ _ rfl rfl).elim
  · exact (hbonded _ rfl).elim
  · rfl

theorem plans_deserializeValue {value : Json} {readers : List (Json × Deserialize n m)}
    {children : List (Json × Plan n m)} {members : List (List UInt8 × Json × Deserialize n m)}
    {memberChildren : List (List UInt8 × Json × Plan n m)}
    (helements : PlansAll conversions readers children)
    (hmembers : PlansMembers conversions members memberChildren) :
    Plans conversions (deserializeValue conversions S C ⟨value, readers, members⟩)
      (planValue conversions S C value children memberChildren) := by
  intro checked schema X var
  unfold deserializeValue
  split_ifs with hmatching
  · split
    · unfold planValue
      rw [if_pos hmatching]
      exact (Follows.step (outcome_read conversions checked _ value)).map
    · unfold planValue
      rw [if_pos hmatching]
      exact follows_readSchema hmembers _ _ _ _
    · unfold planValue
      rw [if_pos hmatching]
      exact follows_readSchema hmembers _ _ _ _
    · unfold planValue
      rw [if_pos hmatching]
      exact Follows.pure _
    · next hbonded hscalar hcompile hruntime =>
        rw [planValue_container conversions S C hmatching hbonded hscalar hcompile hruntime]
        exact follows_deserializeContainer helements
  · unfold planValue
    rw [if_neg hmatching]
    exact Follows.pure _

mutual

/-- The deserialization of a JSON value takes the steps of its plan until one does not pass. -/
theorem plans_deserialize : ∀ value : Json,
    Plans conversions (deserialize conversions S C value) (plan conversions S C value)
  | .array elements => plans_deserializeValue conversions S C (plans_elements elements) .nil
  | .object members => plans_deserializeValue conversions S C .nil (plans_members members)
  | .null | .bool _ | .integer _ | .double _ | .string _ =>
      plans_deserializeValue conversions S C .nil .nil

theorem plans_elements : ∀ elements : List Json,
    PlansAll conversions (elementReaders conversions S C elements)
      (elementPlans conversions S C elements)
  | [] => .nil
  | element :: elements => .cons ⟨rfl, plans_deserialize element⟩ (plans_elements elements)

theorem plans_members : ∀ members : List (List UInt8 × Json),
    PlansMembers conversions (memberReaders conversions S C members)
      (memberPlans conversions S C members)
  | [] => .nil
  | (_, value) :: members => .cons ⟨rfl, rfl, plans_deserialize value⟩ (plans_members members)

end

end

/-! ## Checked reads -/

theorem isInt64_of_isInt {value : Json} (h : value.isInt = true) : value.isInt64 = true := by
  cases value with
  | integer n =>
      simp only [Json.isInt, Json.isInt64, Bool.and_eq_true, decide_eq_true_eq] at h ⊢
      omega
  | null | bool | double | string | array | object => exact absurd h Bool.false_ne_true

theorem isUint64_of_isUint {value : Json} (h : value.isUint = true) : value.isUint64 = true := by
  cases value with
  | integer n =>
      simp only [Json.isUint, Json.isUint64, Bool.and_eq_true, decide_eq_true_eq] at h ⊢
      omega
  | null | bool | double | string | array | object => exact absurd h Bool.false_ne_true

/-- What `JsonTypeMatching` lets pass for a basic type the getter for the type accepts. -/
theorem fits_of_basicTypeMatch {X : Scalar} {schema : BondDataType} {value : Json}
    (h : (JsonTypeMatching.ofType (.basic X.type) schema X.isEnum).basicTypeMatch value = true) :
    fits value X = true := by
  cases X with
  | enum constants =>
      simpa [JsonTypeMatching.basicTypeMatch, JsonTypeMatching.ofType, Scalar.type, Scalar.isEnum,
        BondDataType.toUInt8, BasicType.toUInt8, fits] using h
  | basic type =>
      cases type <;>
        simp [JsonTypeMatching.basicTypeMatch, JsonTypeMatching.ofType, Scalar.type, Scalar.isEnum,
          BondDataType.toUInt8, BasicType.toUInt8] at h
      case bool | float | double | string | wstring => exact h
      case uint8 | uint16 | uint32 => exact isUint64_of_isUint h
      case uint64 => exact h.elim isUint64_of_isUint id
      case int8 | int16 | int32 => exact isInt64_of_isInt h
      case int64 => exact h.elim isInt64_of_isInt id

/-- No value of a scalar type is complex. -/
theorem complexTypeMatch_scalar {type : BondDataType} {T : BasicType} {isEnum : Bool}
    {value : Json} :
    (JsonTypeMatching.ofType type (.basic T) isEnum).complexTypeMatch value = false := by
  unfold JsonTypeMatching.complexTypeMatch JsonTypeMatching.ofType
  by_cases htype : type = .basic T <;> simp [htype]

/-- The step calls a getter on a value of its kind, if the kind has been looked at. -/
def JsonStep.Sound : JsonStep → Prop
  | .check _ => True
  | .read checked T value => checked = true → fits value T = true
  | .readByte value => value.isInt = true

/-- The value can be read with the getter for a variable of this type. -/
def Readable (value : Json) (schema : TypeSchema n m) (X : VarType m) : Prop :=
  ∀ T Y, schema = .compileTime (.scalar T) → X = .scalar Y → isMatchingBasic T.type Y.type = true →
    fits value (dataType T Y) = true

def SoundPlan (value : Json) (plan : Plan n m) : Prop :=
  ∀ checked schema X, (checked = true → Readable value schema X) →
    ∀ s ∈ plan checked schema X, s.Sound

theorem eq_int32_of_isMatchingBasic {type : BasicType} (hmatch : isMatchingBasic type .int32 = true)
    (hsize : BasicType.int32.sizeof = type.sizeof) : type = .int32 := by
  cases type <;> first | rfl | exact absurd hmatch (by decide) | exact absurd hsize (by decide)

/-- With an `enum` of the same size as variable only `int32` matches. -/
theorem dataType_eq {T Y : Scalar} (hmatch : isMatchingBasic T.type Y.type = true) :
    dataType T Y = T ∨ Y.isEnum = true ∧ dataType T Y = Y ∧ T.type = .int32 := by
  unfold dataType
  split_ifs with h
  · rw [Bool.and_eq_true, decide_eq_true_eq] at h
    obtain ⟨henum, hsize⟩ := h
    refine .inr ⟨henum, rfl, ?_⟩
    cases Y with
    | basic Y => exact absurd henum Bool.false_ne_true
    | enum constants => exact eq_int32_of_isMatchingBasic hmatch hsize
  · exact .inl rfl

theorem dataType_self (X : Scalar) : dataType X X = X := by
  unfold dataType
  split_ifs <;> rfl

theorem readable_of_basicTypeMatch {element : TypeSchema n m} {X : VarType m} {value : Json}
    (h : (elementMatching element X).basicTypeMatch value = true) :
    Readable value (.compileTime X.schemaType : TypeSchema n m) X := by
  rintro T Y hschema rfl -
  obtain rfl : Y = T := by simpa [VarType.schemaType] using hschema
  rw [dataType_self]
  exact fits_of_basicTypeMatch h

theorem readable_of_complexTypeMatch {element : TypeSchema n m} {X : VarType m} {value : Json}
    (h : (elementMatching element X).complexTypeMatch value = true) : Readable value element X := by
  rintro T Y rfl - -
  exact absurd h (by rw [elementMatching]; exact Bool.not_eq_true _ ▸ complexTypeMatch_scalar)

/-- What `FindField` finds can be read, an `int32` of a runtime schema apart. -/
theorem readable_of_isField {conversions : Conversions} {id : UInt16} {fieldName name : List UInt8}
    {schema : TypeSchema n m} {value : Json}
    (h : isField conversions id fieldName schema name value = true)
    (hchecked : schema.isChecked = true) (X : VarType m) : Readable value schema.fieldValue X := by
  rintro T Y hT rfl hmatch
  obtain ⟨htype, -⟩ := Bool.and_eq_true_iff.1 h
  obtain ⟨hid, henum⟩ : schema.id = .basic T.type ∧ schema.isEnum = T.isEnum := by
    cases schema with
    | compileTime type =>
        obtain rfl := TypeSchema.compileTime.inj hT
        exact ⟨rfl, rfl⟩
    | runtime type =>
        cases type with
        | scalar U =>
            obtain rfl := SchemaType.scalar.inj (TypeSchema.compileTime.inj hT)
            cases U with
            | basic U =>
                simpa [TypeSchema.isChecked, TypeSchema.isEnum, TypeSchema.id, Scalar.isEnum,
                  SchemaType.id] using hchecked
            | enum constants => simp [TypeSchema.isChecked, SchemaType.id, Scalar.type] at hchecked
        | struct | list | set | map => cases hT
  rw [hid, henum, JsonTypeMatching.typeMatch, complexTypeMatch_scalar, Bool.false_or] at htype
  rcases dataType_eq hmatch with heq | ⟨hY, heq, hint⟩
  · rw [heq]
    exact fits_of_basicTypeMatch htype
  · rw [heq]
    -- an `int32` that is found is an integer, and an `enum` may also be a string
    cases Y with
    | basic Y => exact absurd hY Bool.false_ne_true
    | enum names =>
        cases T with
        | enum constants => exact fits_of_basicTypeMatch (X := .enum names) htype
        | basic T =>
            obtain rfl : T = .int32 := hint
            have hisInt : value.isInt = true := by
              simpa [JsonTypeMatching.basicTypeMatch, JsonTypeMatching.ofType, Scalar.type,
                Scalar.isEnum, BondDataType.toUInt8, BasicType.toUInt8] using htype
            rw [fits, hisInt, Bool.or_true]

section

variable {value : Json} {children : List (Json × Plan n m)}

theorem sound_planElement {element : TypeSchema n m} {X : VarType m} {child : Json × Plan n m}
    (h : SoundPlan child.1 child.2) : ∀ s ∈ planElement element X child, s.Sound := by
  unfold planElement
  split_ifs with hcomplex hbasic
  · exact h _ _ _ fun _ => readable_of_complexTypeMatch hcomplex
  · exact h _ _ _ fun _ => readable_of_basicTypeMatch hbasic
  · simp

theorem sound_planKey (keyType : BondDataType) (Y : Scalar) (key : Json) :
    ∀ s ∈ planKey keyType Y key, s.Sound := by
  unfold planKey
  split_ifs with hmatch
  · intro s hs
    obtain rfl := List.mem_singleton.1 hs
    exact fun _ => fits_of_basicTypeMatch hmatch
  · intro s hs
    obtain rfl := List.mem_singleton.1 hs
    exact trivial

theorem sound_planMapped {element : TypeSchema n m} {X : VarType m} {child : Json × Plan n m}
    (h : SoundPlan child.1 child.2) : ∀ s ∈ planMapped element X child, s.Sound := by
  unfold planMapped
  split_ifs with hcomplex
  · exact h _ _ _ fun _ => readable_of_complexTypeMatch hcomplex
  · exact h _ _ _ fun hfalse => absurd hfalse Bool.false_ne_true

theorem sound_planMapElements {keyType : BondDataType} {element : TypeSchema n m} {Y : Scalar}
    {X : VarType m} : ∀ {children : List (Json × Plan n m)}, (∀ c ∈ children, SoundPlan c.1 c.2) →
      ∀ s ∈ planMapElements keyType element Y X children, s.Sound
  | [], _ => by simp [planMapElements]
  | [key], _ => by
      intro s hs
      rcases List.mem_append.1 hs with hs | hs
      · exact sound_planKey _ _ _ s hs
      · obtain rfl := List.mem_singleton.1 hs
        exact trivial
  | key :: child :: children, h => by
      obtain ⟨-, hchild, hrest⟩ := by simpa only [List.forall_mem_cons] using h
      intro s hs
      rw [planMapElements] at hs
      rcases List.mem_append.1 hs with hs | hs
      · exact sound_planKey _ _ _ s hs
      rcases List.mem_append.1 hs with hs | hs
      · exact sound_planMapped hchild s hs
      · exact sound_planMapElements hrest s hs

theorem sound_planContainer {schema : TypeSchema n m} {X : VarType m}
    (h : ∀ c ∈ children, SoundPlan c.1 c.2) : ∀ s ∈ planContainer schema X children, s.Sound := by
  unfold planContainer
  cases X with
  | list X =>
      intro s hs
      obtain ⟨c, hc, hs⟩ := List.mem_flatMap.1 hs
      exact sound_planElement (h c hc) s hs
  | nullable X =>
      cases children with
      | nil => simp
      | cons child children => exact sound_planElement (h child List.mem_cons_self)
  | blob =>
      intro s hs
      obtain ⟨c, -, hs⟩ := List.mem_flatMap.1 hs
      unfold planByte at hs
      split_ifs at hs with hint
      · obtain rfl := List.mem_singleton.1 hs
        exact hint
      · exact absurd hs List.not_mem_nil
  | set X =>
      intro s hs
      obtain ⟨c, -, hs⟩ := List.mem_flatMap.1 hs
      unfold planInsert at hs
      split_ifs at hs with hmatch
      · obtain rfl := List.mem_singleton.1 hs
        exact fun _ => fits_of_basicTypeMatch hmatch
      · exact absurd hs List.not_mem_nil
  | map Y X => exact sound_planMapElements h
  | scalar | struct | bonded | vectorBool => simp

end

section

variable {conversions : Conversions} {C : VarSchema m} {k : Nat} {S : Schema k}
  {typeSchema : SchemaType k → TypeSchema n m} {members : List (List UInt8 × Json × Plan n m)}
  (h : ∀ c ∈ members, SoundPlan c.2.1 c.2.2)
include h

theorem sound_planFields {x : Fin m} (fields : List (SchemaField k)) (required : Option UInt16) :
    ∀ s ∈ planFields conversions C typeSchema x members fields required, s.Sound := by
  induction fields generalizing required with
  | nil => simp [planFields, JsonStep.Sound]
  | cons field fields ih =>
      unfold planFields
      simp only
      split
      · exact ih required
      · next member hmember =>
          split
          · exact ih required
          · next head _ =>
              intro s hs
              rcases List.mem_append.1 hs with hs | hs
              · unfold planValidate at hs
                split_ifs at hs
                · obtain rfl := List.mem_singleton.1 hs
                  exact trivial
                · exact absurd hs List.not_mem_nil
              rcases List.mem_append.1 hs with hs | hs
              · have hfound := List.find?_some hmember
                refine h member (List.mem_of_find?_eq_some hmember) _ _ _ (fun hchecked => ?_) s hs
                exact readable_of_isField hfound hchecked head.type
              · exact ih _ s hs

theorem sound_planSchema (fuel : Nat) (i : Fin k) (x : Fin m) :
    ∀ s ∈ planSchema conversions C S typeSchema members fuel i x, s.Sound := by
  have hstop : ∀ s ∈ [JsonStep.check false], s.Sound := by simp [JsonStep.Sound]
  induction fuel generalizing i x with
  | zero => exact hstop
  | succ fuel ih =>
      unfold planSchema
      split
      · exact hstop
      · split_ifs
        · split
          · exact hstop
          · exact ih _ x
        · intro s hs
          rcases List.mem_append.1 hs with hs | hs
          · split at hs
            · exact ih _ _ s hs
            · exact absurd hs List.not_mem_nil
          · exact sound_planFields h _ _ s hs

end

section

variable (conversions : Conversions) (S : Schema n) (C : VarSchema m)

theorem sound_planValue {value : Json} {children : List (Json × Plan n m)}
    {members : List (List UInt8 × Json × Plan n m)} (hchildren : ∀ c ∈ children, SoundPlan c.1 c.2)
    (hmembers : ∀ c ∈ members, SoundPlan c.2.1 c.2.2) :
    SoundPlan value (planValue conversions S C value children members) := by
  intro checked schema X hreadable
  unfold planValue
  split_ifs with hmatching
  · split
    · intro s hs
      obtain rfl := List.mem_singleton.1 hs
      exact fun hchecked => hreadable hchecked _ _ rfl rfl hmatching
    · exact sound_planSchema hmembers _ _ _
    · exact sound_planSchema hmembers _ _ _
    · simp
    · exact sound_planContainer hchildren
  · simp

mutual

/-- The checks are those that the getters need: what has been compared with its type can be read. -/
theorem sound_plan : ∀ value : Json, SoundPlan value (plan conversions S C value)
  | .array elements => sound_planValue conversions S C (sound_elements elements) (by simp)
  | .object members => sound_planValue conversions S C (by simp) (sound_members members)
  | .null | .bool _ | .integer _ | .double _ | .string _ =>
      sound_planValue conversions S C (by simp) (by simp)

theorem sound_elements : ∀ elements : List Json,
    ∀ c ∈ elementPlans conversions S C elements, SoundPlan c.1 c.2
  | [] => by simp [elementPlans]
  | element :: elements =>
      List.forall_mem_cons.2 ⟨sound_plan element, sound_elements elements⟩

theorem sound_members : ∀ members : List (List UInt8 × Json),
    ∀ c ∈ memberPlans conversions S C members, SoundPlan c.2.1 c.2.2
  | [] => by simp [memberPlans]
  | (_, value) :: members => List.forall_mem_cons.2 ⟨sound_plan value, sound_members members⟩

end

end

/-! ## Getters on values of another kind -/

/-- A sound step fails only as an unchecked read. -/
theorem judge_ne_faults {conversions : Conversions} {s : JsonStep} (hsound : s.Sound)
    (hread : ∀ T value, s = .read false T value → fits value T = true) :
    judge conversions s ≠ .faults := by
  cases s with
  | check ok => cases ok <;> simp [judge]
  | readByte value =>
      have hint : value.isInt = true := hsound
      simp [judge, hint]
  | read checked T value =>
      have hfits : fits value T = true := by
        cases checked with
        | true => exact hsound rfl
        | false => exact hread T value rfl
      rw [judge, if_pos hfits]
      split_ifs <;> simp

section

variable (conversions : Conversions) (S : Schema n) (C : VarSchema m)

/-- A struct is read without a getter on a value of another kind if and only if every value that is
    read unchecked, and is reached, is of the kind of its getter: the mapped values of maps, and
    what is found for the `int32` fields of a runtime schema. -/
theorem getters_fit_iff (value : Json) (schema : TypeSchema n m) (x : Fin m) (var : CppValue m) :
    (∀ getter, deserialize conversions S C value schema (.struct x) var ≠
        .error (.assertion getter)) ↔
      ∀ before T read after,
        plan conversions S C value true schema (.struct x) = before ++ .read false T read :: after →
        (∀ s ∈ before, judge conversions s = .passes) → fits read T = true := by
  have hfollows := plans_deserialize conversions S C value true schema (.struct x) var
  have hsound := sound_plan conversions S C value true schema (.struct x) fun _ T Y _ hX _ =>
    absurd hX nofun
  have hfault : (∃ getter, deserialize conversions S C value schema (.struct x) var =
      .error (.assertion getter)) ↔
      outcome isAssertion (deserialize conversions S C value schema (.struct x) var) = .faults := by
    rw [outcome_eq_faults_iff]
    constructor
    · rintro ⟨getter, h⟩
      exact ⟨_, h, rfl⟩
    · rintro ⟨e, h, he⟩
      cases e with
      | assertion getter => exact ⟨getter, h⟩
      | _ => exact absurd he Bool.false_ne_true
  have hnot : (∀ getter, deserialize conversions S C value schema (.struct x) var ≠
      .error (.assertion getter)) ↔ ¬ _ := not_exists.symm.trans (not_congr hfault)
  rw [hnot, hfollows, planRuling_eq_faults_iff]
  constructor
  · intro h before T read after heq hbefore
    by_contra hfits
    refine h ⟨before, _, after, heq, hbefore, ?_⟩
    rw [judge, if_neg hfits]
  · rintro h ⟨before, s, after, heq, hbefore, hs⟩
    have hs' := hsound s (heq ▸ List.mem_append_right _ List.mem_cons_self)
    refine judge_ne_faults hs' (fun T read hread => ?_) hs
    exact h before T read after (hread ▸ heq) hbefore

end

/-- The conversions of a text without numbers and of ASCII. -/
def asciiConversions : Conversions where
  tryLexicalConvert _ := none
  utfToUtf units := some (units.map UInt8.toUInt16)

/-- `1: optional map<string, int32> m; 2: optional int32 n;` -/
def countsStruct : VarStruct 1 where
  qualifiedName := "test.Counts"
  base := none
  fields :=
    [{ name := [109], jsonName := none, modifier := .optional, id := 1
       type := .map (.basic .string) (.scalar (.basic .int32)) },
     { name := [110], jsonName := none, modifier := .optional, id := 2
       type := .scalar (.basic .int32) }]
  increasing := by decide

def countsSchema : VarSchema 1 where
  structs _ := countsStruct
  root := 0
  size_le := SchemaDef.one_le

/-- `{"m": ["a", "x"]}` -/
def wrongMapped : Json := .object [([109], .array [.string [97], .string [120]])]

/-- `{"n": "x"}` -/
def wrongInt : Json := .object [([110], .string [120])]

/-- A string among the mapped values is read as an integer. -/
theorem not_getters_fit : ¬ ∀ (n m : Nat) (conversions : Conversions) (S : Schema n)
    (C : VarSchema m) (value : Json) (schema : TypeSchema n m) (x : Fin m) (var : CppValue m)
    (getter : JsonGetter),
    deserialize conversions S C value schema (.struct x) var ≠ .error (.assertion getter) :=
  fun h => h 1 1 asciiConversions countsSchema.schema countsSchema wrongMapped
    (.compileTime (.struct 0)) 0 (.struct []) .getInt64 rfl

/-- With a runtime schema a string is also read for a field that is an integer. -/
example : deserialize asciiConversions countsSchema.schema countsSchema wrongInt
    (.runtime (.struct 0)) (.struct 0) (.struct []) = .error (.assertion .getInt64) := rfl

end Bond.Cpp.SimpleJson

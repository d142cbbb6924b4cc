import Bond.Java.UntaggedSerialization

set_option autoImplicit false

/-! # Which values are serialized in Java

What is asked of a value, its fields and its elements, and when serialization throws: if a value is
null that may not be, if a field that is not optional is set to nothing, or if a `bonded` cannot be
marshaled. An empty blob is omitted even where the default is nothing, which Simple Binary
refuses. -/

namespace Bond.Java

open Bond.Cpp (BondDataType BasicType)
open Bond.Cpp.CompactBinary (Version)
open Bond.Lib Bond.Managed
open SimpleBinary StringHelper

/-! ## Values of a type -/

/-- A nullable type without its nullability. -/
def BondType.core : BondType → BondType
  | .nullable valueType => valueType.core
  | type => type

/-- The type of the elements of a collection. -/
def BondType.elementType : BondType → Option BondType
  | .vector e => some e
  | .list e => some e
  | .set e => some e
  | _ => none

theorem BondType.core_core (type : BondType) : type.core.core = type.core := by
  induction type with
  | nullable e ih => exact ih
  | _ => rfl

theorem BondType.core_ne_nullable (type e : BondType) : type.core ≠ .nullable e := by
  induction type with
  | nullable e' ih => exact ih
  | _ => simp [core]

/-- What begins a payload that is marshaled as Compact Binary v1. -/
def marshaledHeader : List UInt8 :=
  [0x43, 0x42, 0x01, 0x00]

section

variable (types : Nat → StructDescriptor)

mutual

/-- A value of a type. The counts of containers and the lengths of payloads are `int`s. -/
def Datum.typed : Datum → BondType → Bool
  | .null, _ => true
  | .primitive v, type => type.core = .primitive v.type && v.wellFormed encodeString
  | .blob data, type => type.core = .blob && decide (data.length < 2 ^ 31)
  | .collection elements, type =>
      decide (elements.length < 2 ^ 31) &&
        match type.core.elementType with
        | some e => typedElements elements e
        | none => false
  | .map entries, type =>
      decide (entries.length < 2 ^ 31) &&
        match type.core with
        | .map k e => typedEntries entries k e
        | _ => false
  | .something _, _ => false
  | .struct fields, type =>
      match type.core with
      | .struct index => typedFields fields (types index).fields
      | _ => false
  | .bonded marshaled, type =>
      match type.core with
      | .bonded _ => marshaled.all fun payload =>
          payload.take 4 = marshaledHeader && decide (payload.length < 2 ^ 31)
      | _ => false

def typedElements : List Datum → BondType → Bool
  | [], _ => true
  | d :: ds, e => d.typed e && typedElements ds e

def typedEntries : List (Datum × Datum) → BondType → BondType → Bool
  | [], _, _ => true
  | (key, value) :: entries, k, e => key.typed k && value.typed e && typedEntries entries k e

def typedFields : List Datum → List FieldDescriptor → Bool
  | [], [] => true
  | .something value :: ds, field :: fields =>
      field.isDefaultNothing && value.typed field.fieldType && typedFields ds fields
  | d :: ds, field :: fields =>
      (if field.isDefaultNothing then d.isNull else d.typed field.fieldType)
        && typedFields ds fields
  | _, _ => false

end

/-- A default is a value of the type of its field. No default in a schema is a NaN, for which there
    is no literal. -/
def FieldDescriptor.wellFormed (field : FieldDescriptor) : Bool :=
  match field.fieldClass with
  | .valued defaultValue =>
      field.fieldType = .primitive defaultValue.type &&
        match defaultValue with
        | .float bits => decide (bits &&& 0x7FFFFFFF ≤ 0x7F800000)
        | .double bits => decide (bits &&& 0x7FFFFFFFFFFFFFFF ≤ 0x7FF0000000000000)
        | _ => true
  | _ => true

/-! ## Checks -/

/-- What is asked of the parts of a value. -/
structure Check where
  null : BondType → Bool := fun _ => true
  primitive : BasicValue → Bool := fun _ => true
  bonded : Option (List UInt8) → Bool := fun _ => true
  field : FieldDescriptor → Datum → Bool := fun _ _ => true

mutual

/-- All parts of a value of a type pass a check. -/
def Datum.passes (check : Check) : Datum → BondType → Bool
  | .null, type => check.null type
  | .primitive v, _ => check.primitive v
  | .blob _, _ => true
  | .collection elements, type =>
      match type.core.elementType with
      | some e => elementsPass check elements e
      | none => true
  | .map entries, type =>
      match type.core with
      | .map k e => entriesPass check entries k e
      | _ => true
  | .something _, _ => true
  | .struct fields, type =>
      match type.core with
      | .struct index => fieldsPass check fields (types index).fields
      | _ => true
  | .bonded marshaled, _ => check.bonded marshaled

def elementsPass (check : Check) : List Datum → BondType → Bool
  | [], _ => true
  | d :: ds, e => d.passes check e && elementsPass check ds e

def entriesPass (check : Check) : List (Datum × Datum) → BondType → BondType → Bool
  | [], _, _ => true
  | (key, value) :: entries, k, e =>
      key.passes check k && value.passes check e && entriesPass check entries k e

def fieldsPass (check : Check) : List Datum → List FieldDescriptor → Bool
  | .something value :: ds, field :: fields =>
      check.field field (.something value) && value.passes check field.fieldType
        && fieldsPass check ds fields
  | d :: ds, field :: fields =>
      check.field field d && (field.isDefaultNothing || d.passes check field.fieldType)
        && fieldsPass check ds fields
  | _, _ => true

end

/-- What is not set to null, to nothing or to an empty blob where that may not be. -/
def accepted : Check where
  null type := type.isNullableType
  bonded marshaled := marshaled.isSome
  field field d :=
    match d with
    | .null => !field.isDefaultNothing || field.isOptional
    | .something (.blob []) => !(field.isOptional && field.fieldType = .blob)
    | _ => true

/-- No field is set to nothing. -/
def complete : Check where
  field field d := !(field.isDefaultNothing && d.isNull)

/-- The surrogates of all strings are in pairs. -/
def unicode : Check where
  primitive v := v.isUnicode

end

/-! ## Induction -/

/-- Induction over values, the elements of a container given by membership, and a field that is not
    set to nothing with what it is set to. -/
theorem datum_induct {P : Datum → Prop}
    (null : P .null)
    (primitive : ∀ v, P (.primitive v))
    (blob : ∀ data, P (.blob data))
    (collection : ∀ elements, (∀ d ∈ elements, P d) → P (.collection elements))
    (map : ∀ entries, (∀ kv ∈ entries, P kv.1 ∧ P kv.2) → P (.map entries))
    (something : ∀ value, P value → P (.something value))
    (struct : ∀ fields, (∀ d ∈ fields, P d ∧ ∀ value, d = .something value → P value) →
      P (.struct fields))
    (bonded : ∀ marshaled, P (.bonded marshaled)) : ∀ d, P d := by
  have hall (d : Datum) : P d ∧ ∀ value, d = .something value → P value := by
    refine @Datum.rec (fun d => P d ∧ ∀ value, d = .something value → P value)
      (fun ds => ∀ d ∈ ds, P d ∧ ∀ value, d = .something value → P value)
      (fun entries => ∀ kv ∈ entries, P kv.1 ∧ P kv.2) (fun kv => P kv.1 ∧ P kv.2)
      ⟨null, by simp⟩ (fun v => ⟨primitive v, by simp⟩) (fun data => ⟨blob data, by simp⟩)
      (fun elements ih => ⟨collection elements fun d hd => (ih d hd).1, by simp⟩)
      (fun entries ih => ⟨map entries ih, by simp⟩) (fun value ih => ⟨something value ih.1, ?_⟩)
      (fun fields ih => ⟨struct fields ih, by simp⟩)
      (fun marshaled => ⟨bonded marshaled, by simp⟩)
      (by simp) (fun _ _ h hs => List.forall_mem_cons.2 ⟨h, hs⟩)
      (by simp) (fun _ _ h hs => List.forall_mem_cons.2 ⟨h, hs⟩)
      (fun _ _ hk hv => ⟨hk.1, hv.1⟩) d
    rintro _ ⟨⟩
    exact ih.1
  exact fun d => (hall d).1

/-! ## Omitted fields -/

theorem floatToIntBits_inj {a b : UInt32} (hb : b &&& 0x7FFFFFFF ≤ 0x7F800000)
    (h : floatToIntBits a = floatToIntBits b) : a = b := by
  have hnan : ¬ 0x7F800000 < b &&& 0x7FFFFFFF := UInt32.not_lt.2 hb
  unfold floatToIntBits at h
  rw [if_neg hnan] at h
  split at h
  · subst h
    exact absurd hb (by decide)
  · exact h

theorem doubleToLongBits_inj {a b : UInt64}
    (hb : b &&& 0x7FFFFFFFFFFFFFFF ≤ 0x7FF0000000000000)
    (h : doubleToLongBits a = doubleToLongBits b) : a = b := by
  have hnan : ¬ 0x7FF0000000000000 < b &&& 0x7FFFFFFFFFFFFFFF := UInt64.not_lt.2 hb
  unfold doubleToLongBits at h
  rw [if_neg hnan] at h
  split at h
  · subst h
    exact absurd hb (by decide)
  · exact h

section

variable {field : FieldDescriptor}

/-- A value that is equal to a default is the default. -/
theorem eq_of_primitiveEquals (hfield : field.wellFormed = true) {v defaultValue : BasicValue}
    (hdefault : field.getDefaultValue v.type = some defaultValue)
    (h : primitiveEquals v defaultValue = true) : v = defaultValue := by
  have hfloat (a b : UInt32) (hv : v = .float a) (hd : defaultValue = .float b) :
      b &&& 0x7FFFFFFF ≤ 0x7F800000 := by
    subst hv hd
    unfold FieldDescriptor.getDefaultValue at hdefault
    unfold FieldDescriptor.wellFormed at hfield
    cases hclass : field.fieldClass with
    | object =>
        rw [hclass] at hdefault
        cases hdefault
        decide
    | something =>
        rw [hclass] at hdefault
        cases hdefault
    | valued value =>
        rw [hclass] at hdefault hfield
        cases hdefault
        exact of_decide_eq_true (Bool.and_eq_true_iff.1 hfield).2
  have hdouble (a b : UInt64) (hv : v = .double a) (hd : defaultValue = .double b) :
      b &&& 0x7FFFFFFFFFFFFFFF ≤ 0x7FF0000000000000 := by
    subst hv hd
    unfold FieldDescriptor.getDefaultValue at hdefault
    unfold FieldDescriptor.wellFormed at hfield
    cases hclass : field.fieldClass with
    | object =>
        rw [hclass] at hdefault
        cases hdefault
        decide
    | something =>
        rw [hclass] at hdefault
        cases hdefault
    | valued value =>
        rw [hclass] at hdefault hfield
        cases hdefault
        exact of_decide_eq_true (Bool.and_eq_true_iff.1 hfield).2
  unfold primitiveEquals at h
  split at h
  · next a b =>
      exact congrArg BasicValue.float
        (floatToIntBits_inj (hfloat a b rfl rfl) (of_decide_eq_true h))
  · next a b =>
      exact congrArg BasicValue.double
        (doubleToLongBits_inj (hdouble a b rfl rfl) (of_decide_eq_true h))
  · exact of_decide_eq_true h

/-- A default that is written for a value is the value. -/
theorem value_of_omits (hfield : field.wellFormed = true) {type : BasicType} {v : BasicValue}
    (htype : field.fieldType = .primitive type) (h : field.omits (.primitive v) = true) :
    field.isDefaultNothing = false ∧ field.getDefaultValue v.type = some v := by
  have hstring (h : field.omitsString v = true) :
      field.isDefaultNothing = false ∧ field.getDefaultValue v.type = some v := by
    obtain ⟨-, hdefault⟩ := Bool.and_eq_true_iff.1 h
    have hvalue := of_decide_eq_true hdefault
    refine ⟨?_, hvalue⟩
    unfold FieldDescriptor.getDefaultValue at hvalue
    unfold FieldDescriptor.isDefaultNothing
    split at hvalue
    · next hclass => simp [hclass]
    · cases hvalue
    · next hclass => simp [hclass]
  have hprimitive (h : field.omitsPrimitive v = true) :
      field.isDefaultNothing = false ∧ field.getDefaultValue v.type = some v := by
    simp only [FieldDescriptor.omitsPrimitive, Bool.and_eq_true, Bool.not_eq_true',
      Option.any_eq_true] at h
    obtain ⟨⟨hnothing, -⟩, defaultValue, hdefault, hequals⟩ := h
    have hv := eq_of_primitiveEquals hfield hdefault hequals
    rw [← hv] at hdefault
    exact ⟨hnothing, hdefault⟩
  unfold FieldDescriptor.omits at h
  rw [htype] at h
  cases v with
  | string chars => exact hstring h
  | wstring chars => exact hstring h
  | _ => exact hprimitive h

variable {protocolVersion : Version} {types : Nat → StructDescriptor}

/-- An empty blob in a field that is set to nothing by default: it is omitted, and there is no
    default. -/
def FieldDescriptor.refuses (field : FieldDescriptor) : Datum → Bool
  | .blob [] => field.isDefaultNothing && field.isOptional && field.fieldType = .blob
  | _ => false

theorem isNull_iff {d : Datum} : d.isNull = true ↔ d = .null := by
  cases d <;> simp [Datum.isNull]

end

/-! ## When serialization succeeds -/

section

variable {protocolVersion : Version} {types : Nat → StructDescriptor}

theorem serializeStructFields_cons {d : Datum} (hd : ∀ value, d ≠ .something value)
    (ds : List Datum) (field : FieldDescriptor) (fields : List FieldDescriptor) :
    serializeStructFields protocolVersion types (d :: ds) (field :: fields)
      = (if field.isDefaultNothing then
          if field.isOptional then serializeStructFields protocolVersion types ds fields
          else .error .invalidBondData
        else do
          let bytes ← serializeField protocolVersion field d
            (serializeValue protocolVersion types d field.fieldType)
          return bytes ++ (← serializeStructFields protocolVersion types ds fields)) := by
  rw [serializeStructFields]
  exact hd

theorem typedFields_cons {d : Datum} (hd : ∀ value, d ≠ .something value) (ds : List Datum)
    (field : FieldDescriptor) (fields : List FieldDescriptor) :
    typedFields types (d :: ds) (field :: fields)
      = ((if field.isDefaultNothing then d.isNull else d.typed types field.fieldType)
        && typedFields types ds fields) := by
  rw [typedFields]
  exact hd

theorem fieldsPass_cons {check : Check} {d : Datum} (hd : ∀ value, d ≠ .something value)
    (ds : List Datum) (field : FieldDescriptor) (fields : List FieldDescriptor) :
    fieldsPass types check (d :: ds) (field :: fields)
      = (check.field field d && (field.isDefaultNothing || d.passes types check field.fieldType)
        && fieldsPass types check ds fields) := by
  rw [fieldsPass]
  exact hd

theorem elementsPass_iff {check : Check} {ds : List Datum} {e : BondType} :
    elementsPass types check ds e = true ↔ ∀ d ∈ ds, d.passes types check e = true := by
  induction ds with
  | nil => simp [elementsPass]
  | cons d ds ih => simp [elementsPass, ih]

theorem entriesPass_iff {check : Check} {entries : List (Datum × Datum)} {k e : BondType} :
    entriesPass types check entries k e = true ↔
      ∀ kv ∈ entries, kv.1.passes types check k = true ∧ kv.2.passes types check e = true := by
  induction entries with
  | nil => simp [entriesPass]
  | cons kv entries ih => simp [entriesPass, ih]

theorem typedElements_iff {ds : List Datum} {e : BondType} :
    typedElements types ds e = true ↔ ∀ d ∈ ds, d.typed types e = true := by
  induction ds with
  | nil => simp [typedElements]
  | cons d ds ih => simp [typedElements, ih]

theorem typedEntries_iff {entries : List (Datum × Datum)} {k e : BondType} :
    typedEntries types entries k e = true ↔
      ∀ kv ∈ entries, kv.1.typed types k = true ∧ kv.2.typed types e = true := by
  induction entries with
  | nil => simp [typedEntries]
  | cons kv entries ih => simp [typedEntries, ih]

variable (types) in
/-- The fields of a struct: one that is nothing by default is wrapped, or null. -/
inductive FieldsOf : List Datum → List FieldDescriptor → Prop
  | nil : FieldsOf [] []
  | something {value : Datum} {ds : List Datum} {field : FieldDescriptor}
      {fields : List FieldDescriptor} (hnothing : field.isDefaultNothing = true)
      (htyped : value.typed types field.fieldType = true) (hrest : FieldsOf ds fields) :
      FieldsOf (.something value :: ds) (field :: fields)
  | nothing {ds : List Datum} {field : FieldDescriptor} {fields : List FieldDescriptor}
      (hnothing : field.isDefaultNothing = true) (hrest : FieldsOf ds fields) :
      FieldsOf (.null :: ds) (field :: fields)
  | value {d : Datum} {ds : List Datum} {field : FieldDescriptor} {fields : List FieldDescriptor}
      (hd : ∀ value, d ≠ .something value) (hnothing : field.isDefaultNothing = false)
      (htyped : d.typed types field.fieldType = true) (hrest : FieldsOf ds fields) :
      FieldsOf (d :: ds) (field :: fields)

theorem fieldsOf_of_typed {ds : List Datum} {fields : List FieldDescriptor}
    (h : typedFields types ds fields = true) : FieldsOf types ds fields := by
  induction ds generalizing fields with
  | nil =>
      cases fields with
      | nil => exact .nil
      | cons field fields => simp [typedFields] at h
  | cons d ds ih =>
      cases fields with
      | nil => cases d <;> simp [typedFields] at h
      | cons field fields =>
          by_cases hsomething : ∃ value, d = .something value
          · obtain ⟨value, rfl⟩ := hsomething
            rw [typedFields, Bool.and_eq_true, Bool.and_eq_true] at h
            exact .something h.1.1 h.1.2 (ih h.2)
          · have hd : ∀ value, d ≠ .something value := fun value hv => hsomething ⟨value, hv⟩
            rw [typedFields_cons hd, Bool.and_eq_true] at h
            obtain ⟨hfield, hrest⟩ := h
            split at hfield
            · next hnothing =>
                obtain rfl := isNull_iff.1 hfield
                exact .nothing hnothing (ih hrest)
            · next hnothing => exact .value hd (Bool.eq_false_iff.2 hnothing) hfield (ih hrest)

end

end Bond.Java

import Bond.Java.TaggedRoundTrip

set_option autoImplicit false

/-! # Fields that are nothing by default in Java

When all fields that are nothing by default come back as what they were. Every type but `blob` looks
at `isDefaultNothing` before it omits a field. -/

namespace Bond.Java

open Bond.Cpp (BondDataType BasicType)
open Bond.Lib Bond.Managed
open Decoder
open StringHelper

section

variable (types : Nat → StructDescriptor)

mutual

/-- Whether what comes back is the same: all of it, or only the fields that are nothing by default.
    No string has a lone surrogate, except where it is a default that is omitted, and no blob is
    empty in an optional field that is nothing by default. -/
def Datum.kept : Bool → Datum → BondType → Bool
  | all, .primitive v, _ => !all || v.isUnicode
  | all, .collection elements, type =>
      match type.core.elementType with
      | some e => elementsKept all elements e
      | none => true
  | all, .map entries, type =>
      match type.core with
      | .map k e => entriesKept all entries k e
      | _ => true
  | all, .struct fields, type =>
      match type.core with
      | .struct index => fieldsKept all fields (types index).fields
      | _ => true
  | _, _, _ => true

def elementsKept : Bool → List Datum → BondType → Bool
  | _, [], _ => true
  | all, d :: ds, e => d.kept all e && elementsKept all ds e

def entriesKept : Bool → List (Datum × Datum) → BondType → BondType → Bool
  | _, [], _, _ => true
  | all, (key, value) :: entries, k, e =>
      key.kept all k && value.kept all e && entriesKept all entries k e

def fieldsKept : Bool → List Datum → List FieldDescriptor → Bool
  | all, .something value :: ds, field :: fields =>
      !field.refuses value && value.kept true field.fieldType && fieldsKept all ds fields
  | all, d :: ds, field :: fields =>
      (field.isDefaultNothing || field.omits d || d.kept all field.fieldType)
        && fieldsKept all ds fields
  | _, _, _ => true

end

mutual

/-- Two values of one shape, the fields of which that are nothing by default are equal. -/
def SameSomethings : Datum → Datum → BondType → Prop
  | .null, .null, _ => True
  | .primitive _, .primitive _, _ => True
  | .blob _, .blob _, _ => True
  | .collection elements, .collection elements', type =>
      match type.core.elementType with
      | some e => SameElements elements elements' e
      | none => False
  | .map entries, .map entries', type =>
      match type.core with
      | .map k e => SameEntries entries entries' k e
      | _ => False
  | .struct fields, .struct fields', type =>
      match type.core with
      | .struct index => SameFields fields fields' (types index).fields
      | _ => False
  | _, _, _ => False

def SameElements : List Datum → List Datum → BondType → Prop
  | [], [], _ => True
  | d :: ds, d' :: ds', e => SameSomethings d d' e ∧ SameElements ds ds' e
  | _, _, _ => False

def SameEntries : List (Datum × Datum) → List (Datum × Datum) → BondType → BondType → Prop
  | [], [], _, _ => True
  | (key, value) :: entries, (key', value') :: entries', k, e =>
      (SameSomethings key key' k ∧ SameSomethings value value' e) ∧ SameEntries entries entries' k e
  | _, _, _, _ => False

def SameFields : List Datum → List Datum → List FieldDescriptor → Prop
  | [], [], [] => True
  | d :: ds, d' :: ds', field :: fields =>
      (if field.isDefaultNothing then d' = d else SameSomethings d d' field.fieldType)
        ∧ SameFields ds ds' fields
  | _, _, _ => False

end

end

/-! ## Strings -/

theorem decodeString_encodeString_eq_iff (r : Replacement) (str : List UInt16) :
    decodeString r (encodeString str) = str ↔ Utf16.isUnicode str = true := by
  refine ⟨fun h => ?_, decodeString_encodeString r⟩
  rw [← h]
  exact isUnicode_decodeString r _

theorem decodeWString_encodeWString_eq_iff (r : Replacement) (str : List UInt16) :
    decodeWString r (encodeWString str) = str ↔ Utf16.isUnicode str = true := by
  refine ⟨fun h => ?_, decodeWString_encodeWString r⟩
  rw [← h]
  exact isUnicode_decodeWString r _

/-- The bytes of a string, from the units that are read of them. -/
theorem flatMap_units_encodeWString (str : List UInt16) :
    ((units (encodeWString str)).flatMap fun unit => Varint.littleEndian 2 unit.toNat)
      = encodeWString str := by
  have hbytes : encodeWString str
      = (Utf16.replaced 0xFFFD str).flatMap fun c => Varint.littleEndian 2 c.toNat :=
    Utf16.utf16le_eq (r := 0xFFFD) (by decide) str
  rw [hbytes, units_littleEndian]

/-- A value of a basic type comes back if and only if it has no lone surrogates. -/
theorem decoded_onWire_eq_iff (r : Replacement) (v : BasicValue) :
    decoded r v.onWire = v ↔ v.isUnicode = true := by
  cases v with
  | string chars =>
      rw [BasicValue.onWire, decoded, BasicValue.string.injEq]
      exact decodeString_encodeString_eq_iff r chars
  | wstring chars =>
      rw [BasicValue.onWire, decoded, flatMap_units_encodeWString, BasicValue.wstring.injEq]
      exact decodeWString_encodeWString_eq_iff r chars
  | _ => exact iff_of_true rfl rfl

/-! ## When a value comes back -/

section

variable {r : Replacement} {types : Nat → StructDescriptor}

theorem elementsBack_eq_iff {ds : List Datum} {e : BondType} :
    elementsBack r types ds e = ds ↔ ∀ d ∈ ds, d.back r types e = d := by
  induction ds with
  | nil => simp [elementsBack]
  | cons d ds ih => simp [elementsBack, ih]

theorem entriesBack_eq_iff {entries : List (Datum × Datum)} {k e : BondType} :
    entriesBack r types entries k e = entries ↔
      ∀ kv ∈ entries, kv.1.back r types k = kv.1 ∧ kv.2.back r types e = kv.2 := by
  induction entries with
  | nil => simp [entriesBack]
  | cons kv entries ih =>
      obtain ⟨key, value⟩ := kv
      rw [List.forall_mem_cons, ← ih, entriesBack, List.cons.injEq, Prod.mk.injEq]

theorem sameElements_back_iff {ds : List Datum} {e : BondType} :
    SameElements types ds (elementsBack r types ds e) e ↔
      ∀ d ∈ ds, SameSomethings types d (d.back r types e) e := by
  induction ds with
  | nil => simp [elementsBack, SameElements]
  | cons d ds ih => simp [elementsBack, SameElements, ih]

theorem sameEntries_back_iff {entries : List (Datum × Datum)} {k e : BondType} :
    SameEntries types entries (entriesBack r types entries k e) k e ↔
      ∀ kv ∈ entries, SameSomethings types kv.1 (kv.1.back r types k) k ∧
        SameSomethings types kv.2 (kv.2.back r types e) e := by
  induction entries with
  | nil => simp [entriesBack, SameEntries]
  | cons kv entries ih =>
      obtain ⟨key, value⟩ := kv
      rw [List.forall_mem_cons, ← ih, entriesBack, SameEntries]

theorem elementsKept_iff {all : Bool} {ds : List Datum} {e : BondType} :
    elementsKept types all ds e = true ↔ ∀ d ∈ ds, d.kept types all e = true := by
  induction ds with
  | nil => simp [elementsKept]
  | cons d ds ih => simp [elementsKept, ih]

theorem entriesKept_iff {all : Bool} {entries : List (Datum × Datum)} {k e : BondType} :
    entriesKept types all entries k e = true ↔
      ∀ kv ∈ entries, kv.1.kept types all k = true ∧ kv.2.kept types all e = true := by
  induction entries with
  | nil => simp [entriesKept]
  | cons kv entries ih => simp [entriesKept, ih]

theorem fieldsKept_cons {all : Bool} {d : Datum} (hd : ∀ value, d ≠ .something value)
    (ds : List Datum) (field : FieldDescriptor) (fields : List FieldDescriptor) :
    fieldsKept types all (d :: ds) (field :: fields)
      = ((field.isDefaultNothing || field.omits d || d.kept types all field.fieldType)
        && fieldsKept types all ds fields) := by
  rw [fieldsKept]
  exact hd

theorem sameSomethings_primitive (v v' : BasicValue) (type : BondType) :
    SameSomethings types (.primitive v) (.primitive v') type := by
  rw [SameSomethings]
  trivial

theorem sameSomethings_nil {type e : BondType} (h : type.core.elementType = some e) :
    SameSomethings types (.collection []) (.collection []) type := by
  rw [SameSomethings, h]
  simp only [SameElements]

/-- Nothing in a value that is omitted is a field. -/
theorem sameSomethings_of_omits {field : FieldDescriptor} {d : Datum}
    (h : field.omits d = true) : SameSomethings types d d field.fieldType := by
  have hempty {count : Nat} (h : field.omitsContainer count = true) : count = 0 := by
    simp only [FieldDescriptor.omitsContainer, Bool.and_eq_true, decide_eq_true_eq] at h
    exact h.1.2
  unfold FieldDescriptor.omits at h
  split at h
  · simp only [FieldDescriptor.omitsNullable, Bool.and_eq_true, isNull_iff] at h
    obtain ⟨⟨-, rfl⟩, -⟩ := h
    rw [SameSomethings]
    trivial
  · exact sameSomethings_primitive _ _ _
  · exact sameSomethings_primitive _ _ _
  · exact sameSomethings_primitive _ _ _
  · rw [SameSomethings]
    trivial
  · next e elements htype =>
      obtain rfl := List.length_eq_zero_iff.1 (hempty h)
      exact sameSomethings_nil (by rw [htype]; rfl)
  · next e elements htype =>
      obtain rfl := List.length_eq_zero_iff.1 (hempty h)
      exact sameSomethings_nil (by rw [htype]; rfl)
  · next e elements htype =>
      obtain rfl := List.length_eq_zero_iff.1 (hempty h)
      exact sameSomethings_nil (by rw [htype]; rfl)
  · next k e entries htype =>
      obtain rfl := List.length_eq_zero_iff.1 (hempty h)
      rw [htype, SameSomethings]
      simp only [BondType.core, SameEntries]
  · cases h

variable (r types) in
/-- A value comes back, and its fields that are nothing by default do, if they are kept. -/
def BackIff (type : BondType) (d : Datum) : Prop :=
  (d.back r types type = d ↔ d.kept types true type = true) ∧
    (SameSomethings types d (d.back r types type) type ↔ d.kept types false type = true)

theorem backIff_fields {ds : List Datum} {fields : List FieldDescriptor}
    (h : FieldsOf types ds fields) (hbonded : fieldsPass types withoutBonded ds fields = true)
    (ih : ∀ d ∈ ds, (∀ type, d.typed types type = true →
        d.passes types withoutBonded type = true → BackIff r types type d) ∧
      ∀ value, d = .something value → ∀ type, value.typed types type = true →
        value.passes types withoutBonded type = true → BackIff r types type value) :
    (fieldsBack r types ds fields = ds ↔ fieldsKept types true ds fields = true) ∧
      (SameFields types ds (fieldsBack r types ds fields) fields ↔
        fieldsKept types false ds fields = true) := by
  induction h with
  | nil => simp [fieldsBack, fieldsKept, SameFields]
  | @something value ds field fields hnothing htyped hrest ihrest =>
      rw [fieldsPass, Bool.and_eq_true, Bool.and_eq_true] at hbonded
      have hvalue := (ih _ List.mem_cons_self).2 value rfl _ htyped hbonded.1.2
      have htail := ihrest hbonded.2 fun d hd => ih d (List.mem_cons_of_mem _ hd)
      have hfield : (if field.refuses value then Datum.null
          else .something (value.back r types field.fieldType)) = .something value ↔
            (!field.refuses value && value.kept types true field.fieldType) = true := by
        cases hrefuses : field.refuses value with
        | true => simp
        | false => simpa using hvalue.1
      rw [fieldsBack, fieldsKept, fieldsKept, SameFields, if_pos hnothing, List.cons.injEq, hfield,
        htail.1, htail.2, Bool.and_eq_true (_ && _), Bool.and_eq_true (_ && _)]
      exact ⟨Iff.rfl, Iff.rfl⟩
  | @nothing ds field fields hnothing hrest ihrest =>
      rw [fieldsPass_cons (by simp), Bool.and_eq_true] at hbonded
      have htail := ihrest hbonded.2 fun d hd => ih d (List.mem_cons_of_mem _ hd)
      simpa [fieldsBack_cons, fieldsKept_cons, SameFields, hnothing] using htail
  | @value d ds field fields hd hnothing htyped hrest ihrest =>
      rw [fieldsPass_cons hd, hnothing, Bool.false_or, Bool.and_eq_true, Bool.and_eq_true]
        at hbonded
      have hvalue := (ih _ List.mem_cons_self).1 _ htyped hbonded.1.2
      have htail := ihrest hbonded.2 fun d hd => ih d (List.mem_cons_of_mem _ hd)
      rw [fieldsBack_cons hd, fieldsKept_cons hd, fieldsKept_cons hd, SameFields, hnothing,
        Bool.false_or, List.cons.injEq, htail.1, htail.2, Bool.and_eq_true (_ || _),
        Bool.and_eq_true (_ || _)]
      cases homits : field.omits d with
      | true => simp [sameSomethings_of_omits homits]
      | false => simp [hvalue.1, hvalue.2]

/-- A value comes back if and only if it is kept. -/
theorem backIff (d : Datum) : ∀ type, d.typed types type = true →
    d.passes types withoutBonded type = true → BackIff r types type d := by
  induction d using datum_induct with
  | null =>
      intro type _ _
      refine ⟨iff_of_true rfl rfl, iff_of_true ?_ rfl⟩
      show SameSomethings types .null .null type
      rw [SameSomethings]
      trivial
  | primitive v =>
      intro type _ _
      refine ⟨?_, iff_of_true (sameSomethings_primitive _ _ _) rfl⟩
      rw [Datum.back, Datum.primitive.injEq, decoded_onWire_eq_iff]
      simp [Datum.kept]
  | blob data =>
      intro type _ _
      refine ⟨iff_of_true rfl rfl, iff_of_true ?_ rfl⟩
      show SameSomethings types (.blob data) (.blob data) type
      rw [SameSomethings]
      trivial
  | collection elements ih =>
      intro type htyped hbonded
      rw [Datum.typed, Bool.and_eq_true] at htyped
      rw [Datum.passes] at hbonded
      unfold BackIff
      rw [Datum.back, Datum.kept, Datum.kept]
      cases he : type.core.elementType with
      | none => simp [he] at htyped
      | some e =>
          simp only [he] at htyped hbonded ⊢
          have helement (d : Datum) (hd : d ∈ elements) : BackIff r types e d :=
            ih d hd e (typedElements_iff.1 htyped.2 d hd) (elementsPass_iff.1 hbonded d hd)
          rw [Datum.collection.injEq, elementsBack_eq_iff, elementsKept_iff, elementsKept_iff,
            SameSomethings, he]
          simp only [sameElements_back_iff]
          exact ⟨forall₂_congr fun d hd => (helement d hd).1,
            forall₂_congr fun d hd => (helement d hd).2⟩
  | map entries ih =>
      intro type htyped hbonded
      rw [Datum.typed, Bool.and_eq_true] at htyped
      rw [Datum.passes] at hbonded
      unfold BackIff
      rw [Datum.back, Datum.kept, Datum.kept]
      cases hcore : type.core with
      | map k e =>
          simp only [hcore] at htyped hbonded ⊢
          have hentry (kv : Datum × Datum) (hkv : kv ∈ entries) :
              BackIff r types k kv.1 ∧ BackIff r types e kv.2 := by
            have htypes := typedEntries_iff.1 htyped.2 kv hkv
            have hchecks := entriesPass_iff.1 hbonded kv hkv
            exact ⟨(ih kv hkv).1 k htypes.1 hchecks.1, (ih kv hkv).2 e htypes.2 hchecks.2⟩
          rw [Datum.map.injEq, entriesBack_eq_iff, entriesKept_iff, entriesKept_iff,
            SameSomethings, hcore]
          simp only [sameEntries_back_iff]
          exact ⟨forall₂_congr fun kv hkv => and_congr (hentry kv hkv).1.1 (hentry kv hkv).2.1,
            forall₂_congr fun kv hkv => and_congr (hentry kv hkv).1.2 (hentry kv hkv).2.2⟩
      | _ => simp [hcore] at htyped
  | something value ih =>
      intro type htyped
      cases htyped
  | struct fields ih =>
      intro type htyped hbonded
      rw [Datum.typed] at htyped
      rw [Datum.passes] at hbonded
      unfold BackIff
      rw [Datum.back, Datum.kept, Datum.kept]
      cases hcore : type.core with
      | struct index =>
          simp only [hcore] at htyped hbonded ⊢
          rw [Datum.struct.injEq, SameSomethings, hcore]
          exact backIff_fields (fieldsOf_of_typed htyped) hbonded ih
      | _ => simp [hcore] at htyped
  | bonded marshaled =>
      intro type _ hbonded
      cases hbonded

end
/-! ## Structs -/

/-- A struct is serialized, and in what is deserialized all fields that are nothing by default are
    what they were. -/
def SomethingsComeBack (p : Protocol) (r : Replacement) (newInstance : BondType → Datum)
    (types : Nat → StructDescriptor) (index : Nat) (d : Datum) : Prop :=
  ∃ s payload o, Tagged.serializeValue types d (.struct index) = .ok (.struct s) ∧
    p.serializeValue s = some payload ∧
    (deserializeValue p.reader (bondTypes types) (.struct index)).run payload = .ok (o, []) ∧
    SameSomethings types d (o.toDatum r newInstance types (.struct index)) (.struct index)

section

variable {p : Protocol} {r : Replacement} {newInstance : BondType → Datum}
  {types : Nat → StructDescriptor} {index : Nat} {d : Datum}

theorem struct_of_serializeValue {v : Value}
    (h : Tagged.serializeValue types d (.struct index) = .ok v) : ∃ s, v = .struct s := by
  cases d with
  | struct fields =>
      rw [Tagged.serializeValue] at h
      cases hws : Tagged.serializeStructFields types fields (types index).fields with
      | error e => simp [Tagged.serializeNullable, hws, Bind.bind, Except.bind] at h
      | ok ws =>
          simp only [Tagged.serializeNullable, hws] at h
          cases h
          exact ⟨_, rfl⟩
  | _ => cases h

/-- What is deserialized of a struct, if its ordinals are written right. -/
theorem deserializeValue_serialized (r : Replacement) (newInstance : BondType → Datum)
    (hids : ∀ id ∈ fieldIds types, p.OrdinalFits id)
    (htypes : ∀ index, (types index).Valid) (h : Admissible types (.struct index) d) :
    ∃ s payload o, Tagged.serializeValue types d (.struct index) = .ok (.struct s) ∧
      p.serializeValue s = some payload ∧
      (deserializeValue p.reader (bondTypes types) (.struct index)).run payload = .ok (o, []) ∧
      o.toDatum r newInstance types (.struct index) = d.back r types (.struct index) := by
  have hserialized : Serialized p r newInstance types (.struct index) d :=
    serialized htypes d _ h
  obtain ⟨v, hv, hwritten⟩ := hserialized
  obtain ⟨s, rfl⟩ := struct_of_serializeValue hv
  obtain ⟨o, ho, hdata⟩ := hwritten.object
  have hordinals : Protocol.ordinals s ⊆ fieldIds types := by
    rintro ordinal ⟨type, hcall⟩
    exact hwritten.known _ hcall
  obtain ⟨payload, hpayload, hread⟩ := Protocol.structsReadBack_of_fits hids (bondTypes types)
    index s hwritten.wellFormed hordinals hwritten.fits o ho
  have hrun := hread.list_run []
  rw [List.append_nil] at hrun
  exact ⟨s, payload, o, hv, hpayload, hrun, hdata⟩

/-- The fields that are nothing by default come back if and only if they are kept. -/
theorem somethingsComeBack_iff (hids : ∀ id ∈ fieldIds types, p.OrdinalFits id)
    (htypes : ∀ index, (types index).Valid) (h : Admissible types (.struct index) d) :
    SomethingsComeBack p r newInstance types index d ↔
      d.kept types false (.struct index) = true := by
  obtain ⟨s, payload, o, hs, hpayload, hrun, hdata⟩ :=
    deserializeValue_serialized r newInstance hids htypes h
  have hback : BackIff r types (.struct index) d := backIff d _ h.typed h.withoutBonded
  rw [← hback.2, ← hdata]
  constructor
  · rintro ⟨s', payload', o', hs', hpayload', hrun', hsame⟩
    obtain rfl : s = s' := Value.struct.inj (Except.ok.inj (hs.symm.trans hs'))
    obtain rfl : payload = payload' := Option.some.inj (hpayload.symm.trans hpayload')
    obtain rfl : o = o' := congrArg Prod.fst (Except.ok.inj (hrun.symm.trans hrun'))
    exact hsame
  · exact fun hsame => ⟨s, payload, o, hs, hpayload, hrun, hsame⟩

end

/-- `struct Switch { ordinal: bool on = nothing; }` -/
def switchDescriptor (ordinal : UInt16) (_ : Nat) : StructDescriptor :=
  .root [⟨⟨.primitive .bool, ordinal, .optional⟩, .something⟩]

theorem switchDescriptor_valid (ordinal : UInt16) (index : Nat) :
    (switchDescriptor ordinal index).Valid where
  wellFormed := by simp [switchDescriptor, StructDescriptor.fields, FieldDescriptor.wellFormed]
  keysPrimitive := by simp [switchDescriptor, StructDescriptor.fields, BondType.keysPrimitive]
  nodup := by simp [switchDescriptor, StructDescriptor.levels]

theorem switchDescriptor_admissible (ordinal : UInt16) :
    Admissible (switchDescriptor ordinal) (.struct 0)
      (.struct [.something (.primitive (.bool true))]) :=
  ⟨rfl, rfl, rfl, rfl⟩

/-- A `Switch` with a negative id comes back as nothing. -/
theorem not_somethingsComeBack_switch (version : Cpp.CompactBinary.Version) {ordinal : UInt16}
    (hordinal : 2 ^ 15 ≤ ordinal.toNat) (r : Replacement) (newInstance : BondType → Datum) :
    ¬ SomethingsComeBack (.compactBinary version) r newInstance (switchDescriptor ordinal) 0
      (.struct [.something (.primitive (.bool true))]) := by
  rintro ⟨s, payload, o, hs, hpayload, hrun, hsame⟩
  have hswitch : Tagged.serializeValue (switchDescriptor ordinal)
      (.struct [.something (.primitive (.bool true))]) (.struct 0)
        = .ok (.struct (switchValue ordinal)) := rfl
  obtain rfl : switchValue ordinal = s := Value.struct.inj (Except.ok.inj (hswitch.symm.trans hs))
  rw [Protocol.serializeValue_eq, Option.some.injEq] at hpayload
  subst hpayload
  cases o with
  | struct levels =>
      obtain rfl := deserializeValue_switch version hordinal hrun
      simp [Object.toDatum, BondType.core, levelsToData, fieldsToData, switchDescriptor,
        StructDescriptor.levels, assigned, FieldDescriptor.initializeField, SameSomethings, SameFields,
        StructDescriptor.fields, FieldDescriptor.isDefaultNothing] at hsame
  | _ => simp [Object.toDatum, SameSomethings, BondType.core, BondType.elementType] at hsame

/-- Of all structs with some ordinals, the fields that are nothing by default come back just where
    no string in them has a lone surrogate and no optional one is an empty blob, if and only if all
    ordinals are written right. -/
theorem somethings_comeBack_iff (p : Protocol) (r : Replacement) (newInstance : BondType → Datum)
    (ids : Set UInt16) :
    (∀ (types : Nat → StructDescriptor) (index : Nat) (d : Datum),
      (∀ index, (types index).Valid) → fieldIds types ⊆ ids →
      Admissible types (.struct index) d →
      (SomethingsComeBack p r newInstance types index d ↔
        d.kept types false (.struct index) = true)) ↔
      ∀ id ∈ ids, p.OrdinalFits id := by
  constructor
  · intro hall id hid
    cases p with
    | fastBinary => exact .inl rfl
    | compactBinary version =>
        refine .inr (Nat.lt_of_not_le fun hnegative => ?_)
        have hsubset : fieldIds (switchDescriptor id) ⊆ ids := by
          rintro ordinal ⟨index, field, hfield, rfl⟩
          obtain rfl := List.mem_singleton.1 hfield
          exact hid
        have hback := (hall (switchDescriptor id) 0 _ (switchDescriptor_valid id) hsubset
          (switchDescriptor_admissible id)).2 rfl
        exact not_somethingsComeBack_switch version hnegative r newInstance hback
  · intro hfits types index d htypes hsubset h
    exact somethingsComeBack_iff (fun id hid => hfits id (hsubset hid)) htypes h

/-- `struct Holder { 0: blob content = nothing; }` -/
def holder (_ : Nat) : StructDescriptor :=
  .root [⟨⟨.blob, 0, .optional⟩, .something⟩]

/-- An empty blob comes back as nothing. -/
theorem emptyBlob_lost :
    (∀ index, (holder index).Valid) ∧
    Admissible holder (.struct 0) (.struct [.something (.blob [])]) ∧
    ∀ (p : Protocol) (r : Replacement) (newInstance : BondType → Datum),
      ¬ SomethingsComeBack p r newInstance holder 0 (.struct [.something (.blob [])]) := by
  have hvalid (index : Nat) : (holder index).Valid :=
    ⟨by simp [holder, StructDescriptor.fields, FieldDescriptor.wellFormed],
      by simp [holder, StructDescriptor.fields, BondType.keysPrimitive],
      by simp [holder, StructDescriptor.levels]⟩
  have hadmissible : Admissible holder (.struct 0) (.struct [.something (.blob [])]) :=
    ⟨rfl, rfl, rfl, rfl⟩
  refine ⟨hvalid, hadmissible, fun p r newInstance hback => ?_⟩
  have hids : ∀ id ∈ fieldIds holder, p.OrdinalFits id := by
    rintro ordinal ⟨index, field, hfield, rfl⟩
    obtain rfl := List.mem_singleton.1 hfield
    exact .inr (by decide)
  have hkept := (somethingsComeBack_iff hids hvalid hadmissible).1 hback
  cases hkept

end Bond.Java

import Bond.Java.TaggedSerialization

set_option autoImplicit false

/-! # Tagged round trips in Java

What comes back of a value that is serialized to a tagged protocol and deserialized. What is
written for a value is a value on the wire, which is read as an object of its type; a field that is
not written is one that is initialized with what comes back. -/

namespace Bond.Java

open Bond.Cpp (BondDataType BasicType ListKind)
open Bond.Lib Bond.Managed
open Decoder Hereditary
open StringHelper

/-! ## What comes back -/

section

variable (r : Replacement) (types : Nat → StructDescriptor)

mutual

/-- What comes back of a value. Strings are encoded and decoded, and an empty blob that is omitted
    is nothing. -/
def Datum.back : Datum → BondType → Datum
  | .primitive v, _ => .primitive (decoded r v.onWire)
  | .collection elements, type =>
      match type.core.elementType with
      | some e => .collection (elementsBack elements e)
      | none => .collection elements
  | .map entries, type =>
      match type.core with
      | .map k e => .map (entriesBack entries k e)
      | _ => .map entries
  | .struct fields, type =>
      match type.core with
      | .struct index => .struct (fieldsBack fields (types index).fields)
      | _ => .struct fields
  | d, _ => d

def elementsBack : List Datum → BondType → List Datum
  | [], _ => []
  | d :: ds, e => d.back e :: elementsBack ds e

def entriesBack : List (Datum × Datum) → BondType → BondType → List (Datum × Datum)
  | [], _, _ => []
  | (key, value) :: entries, k, e => (key.back k, value.back e) :: entriesBack entries k e

def fieldsBack : List Datum → List FieldDescriptor → List Datum
  | .something value :: ds, field :: fields =>
      (if field.refuses value then .null else .something (value.back field.fieldType))
        :: fieldsBack ds fields
  | d :: ds, field :: fields =>
      (if field.isDefaultNothing || field.omits d then d else d.back field.fieldType)
        :: fieldsBack ds fields
  | _, _ => []

end

end

section

variable {r : Replacement} {types : Nat → StructDescriptor}

theorem fieldsBack_cons {d : Datum} (hd : ∀ value, d ≠ .something value) (ds : List Datum)
    (field : FieldDescriptor) (fields : List FieldDescriptor) :
    fieldsBack r types (d :: ds) (field :: fields)
      = (if field.isDefaultNothing || field.omits d then d else d.back r types field.fieldType)
        :: fieldsBack r types ds fields := by
  rw [fieldsBack]
  exact hd

end

/-- What is not set to null, or to nothing, where that may not be. -/
def writable : Check where
  null type := type.isNullableType
  field field d :=
    match d with
    | .null => !field.isDefaultNothing || field.isOptional
    | _ => true

/-- There is no `bonded` in a value. -/
def withoutBonded : Check where
  bonded _ := false

/-! ## What is written -/

theorem BondType.isValue_getBondDataType (type : BondType) :
    type.getBondDataType.isValue = true := by
  cases type <;> rfl

/-- The descriptors that a reader goes by. -/
def bondTypes (types : Nat → StructDescriptor) (index : Nat) : StructBondType :=
  (types index).bondType

/-- The ordinals of the fields of all structs. -/
def fieldIds (types : Nat → StructDescriptor) : Set UInt16 :=
  fun ordinal => ∃ index, ∃ field ∈ (types index).fields, field.id = ordinal

/-- A field that is begun is one of some struct. -/
def KnownCall (types : Nat → StructDescriptor) : WriterCall → Prop
  | .writeFieldBegin _ ordinal => ordinal ∈ fieldIds types
  | _ => True

section

variable (p : Protocol) (r : Replacement) (newInstance : BondType → Datum)
  (types : Nat → StructDescriptor)

/-- What is written is read as a value of a type. -/
structure WrittenAs (type : BondType) (v : Value) (d : Datum) : Prop where
  wellFormed : v.wellFormed encodeString = true
  known : ∀ c ∈ v.calls .before, KnownCall types c
  fits : Everywhere (Task.children p (bondTypes types)) (Task.Fits p (bondTypes types))
    (.read type v)
  object : ∃ o, v.asType (bondTypes types) p.format type = some o ∧
    o.toDatum r newInstance types type = d

/-- A field that is written and set, or not written and left as it is. -/
inductive FieldWritten (field : FieldDescriptor) :
    Option (UInt16 × Value) → Option (UInt16 × Object) → Datum → Prop
  | omitted (h : field.modifier ≠ .required) :
      FieldWritten field none none (field.initializeField newInstance)
  | written {v : Value} {o : Object} (wellFormed : v.wellFormed encodeString = true)
      (known : ∀ c ∈ v.calls .before, KnownCall types c)
      (fits : Everywhere (Task.children p (bondTypes types)) (Task.Fits p (bondTypes types))
        (.read field.fieldType v))
      (object : v.asType (bondTypes types) p.format field.fieldType = some o) :
      FieldWritten field (some (field.id, v)) (some (field.id, o))
        (field.wrap (o.toDatum r newInstance types field.fieldType))

inductive FieldsWritten : List FieldDescriptor → List (Option (UInt16 × Value)) →
    List (Option (UInt16 × Object)) → List Datum → Prop
  | nil : FieldsWritten [] [] [] []
  | cons {field : FieldDescriptor} {fields : List FieldDescriptor}
      {written : Option (UInt16 × Value)} {ws : List (Option (UInt16 × Value))}
      {set : Option (UInt16 × Object)} {os : List (Option (UInt16 × Object))} {d : Datum}
      {ds : List Datum} (h : FieldWritten p r newInstance types field written set d)
      (hrest : FieldsWritten fields ws os ds) :
      FieldsWritten (field :: fields) (written :: ws) (set :: os) (d :: ds)

end

section

variable {p : Protocol} {r : Replacement} {newInstance : BondType → Datum}
  {types : Nat → StructDescriptor}

/-- A field is found by its ordinal, which no other one has. -/
theorem find_of_nodup {structFields : List FieldDescriptor}
    (hnodup : (structFields.map fun field => field.id).Nodup) {field : FieldDescriptor}
    (h : field ∈ structFields) :
    (structFields.find? fun field' => field'.id = field.id) = some field := by
  induction structFields with
  | nil => cases h
  | cons field' structFields ih =>
      rw [List.map_cons, List.nodup_cons] at hnodup
      rw [List.find?_cons]
      rcases List.mem_cons.1 h with rfl | h
      · simp
      · have hne : field'.id ≠ field.id := fun heq =>
          hnodup.1 (List.mem_map.2 ⟨field, h, heq.symm⟩)
        simpa [hne] using ih hnodup.2 h

theorem findField_of_nodup {structFields : List FieldDescriptor}
    (hnodup : (structFields.map fun field => field.id).Nodup) {field : FieldDescriptor}
    (h : field ∈ structFields) :
    findField (structFields.map FieldDescriptor.toStructField) field.id
      = some field.toStructField := by
  rw [findField, List.find?_map, Function.comp_def, find_of_nodup hnodup h]
  rfl

namespace FieldsWritten

variable {structFields fields : List FieldDescriptor} {ws : List (Option (UInt16 × Value))}
  {os : List (Option (UInt16 × Object))} {ds : List Datum}

theorem wellFormed (h : FieldsWritten p r newInstance types fields ws os ds) :
    ∀ f ∈ ws.reduceOption, f.2.wellFormed encodeString = true := by
  induction h with
  | nil => simp
  | cons h hrest ih =>
      cases h with
      | omitted => simpa using ih
      | written hwf => simpa using ⟨hwf, by simpa using ih⟩

theorem known (h : FieldsWritten p r newInstance types fields ws os ds)
    (hmem : ∀ field ∈ fields, field.id ∈ fieldIds types) :
    ∀ f ∈ ws.reduceOption, f.1 ∈ fieldIds types ∧
      ∀ c ∈ f.2.calls .before, KnownCall types c := by
  induction h with
  | nil => simp
  | cons h hrest ih =>
      obtain ⟨hfield, hmem⟩ := List.forall_mem_cons.1 hmem
      have hlater := ih hmem
      cases h with
      | omitted => simpa using hlater
      | written _ hknown =>
          rw [List.reduceOption_cons_of_some]
          exact List.forall_mem_cons.2 ⟨⟨hfield, hknown⟩, hlater⟩

/-- What is read of the fields that are written fits. -/
theorem fits (h : FieldsWritten p r newInstance types fields ws os ds)
    (hmem : ∀ field ∈ fields, field ∈ structFields)
    (hnodup : (structFields.map fun field => field.id).Nodup) :
    ∀ c ∈ levelTasks (structFields.map FieldDescriptor.toStructField) ws.reduceOption,
      Everywhere (Task.children p (bondTypes types)) (Task.Fits p (bondTypes types)) c := by
  induction h with
  | nil => simp [levelTasks]
  | cons h hrest ih =>
      obtain ⟨hfield, hmem⟩ := List.forall_mem_cons.1 hmem
      have hlater := ih hmem
      cases h with
      | omitted => simpa using hlater
      | written _ _ hfits =>
          intro c hc
          rw [List.reduceOption_cons_of_some, levelTasks, List.map_cons, List.mem_cons,
            findField_of_nodup hnodup hfield] at hc
          rcases hc with rfl | hc
          · exact hfits
          · exact hlater c hc

theorem fieldsAs (h : FieldsWritten p r newInstance types fields ws os ds)
    (hmem : ∀ field ∈ fields, field ∈ structFields)
    (hnodup : (structFields.map fun field => field.id).Nodup)
    (hdistinct : (fields.map fun field => field.id).Nodup) (seen : List UInt16)
    (hseen : ∀ field ∈ fields, field.id ∉ seen) :
    Managed.fieldsAs (bondTypes types) p.format
        (structFields.map FieldDescriptor.toStructField) seen ws.reduceOption
      = some os.reduceOption := by
  induction h generalizing seen with
  | nil => rfl
  | @cons field fields _ _ _ _ _ _ h hrest ih =>
      obtain ⟨hfield, hmem⟩ := List.forall_mem_cons.1 hmem
      obtain ⟨hnew, hseen⟩ := List.forall_mem_cons.1 hseen
      rw [List.map_cons, List.nodup_cons] at hdistinct
      have hlater := ih hmem hdistinct.2
      cases h with
      | omitted => simpa using hlater seen hseen
      | written _ _ _ hobject =>
          have hothers : ∀ field' ∈ fields, field'.id ∉ field.id :: seen := by
            intro field' hfield'
            rw [List.mem_cons, not_or]
            refine ⟨fun heq => hdistinct.1 ?_, hseen field' hfield'⟩
            exact List.mem_map.2 ⟨field', hfield', heq⟩
          rw [List.reduceOption_cons_of_some, List.reduceOption_cons_of_some, Managed.fieldsAs,
            findField_of_nodup hnodup hfield]
          simp only [if_neg hnew]
          rw [hobject, hlater _ hothers]
          rfl

/-- All required fields are among those that are set. -/
theorem required (h : FieldsWritten p r newInstance types fields ws os ds) :
    ∀ field ∈ fields, field.modifier ≠ .required ∨
      field.id ∈ os.reduceOption.map Prod.fst := by
  induction h with
  | nil => simp
  | cons h hrest ih =>
      rw [List.forall_mem_cons]
      cases h with
      | omitted hoptional => exact ⟨.inl hoptional, by simpa using ih⟩
      | written =>
          refine ⟨.inr (by simp), fun field hfield => ?_⟩
          rcases ih field hfield with h | h
          · exact .inl h
          · exact .inr (by simpa using .inr (by simpa using h))

theorem levelAs (h : FieldsWritten p r newInstance types structFields ws os ds)
    (hnodup : (structFields.map fun field => field.id).Nodup) :
    Managed.levelAs (bondTypes types) p.format ws.reduceOption
      (structFields.map FieldDescriptor.toStructField) = some os.reduceOption := by
  have hverify : verifyDeserialized (structFields.map FieldDescriptor.toStructField)
      (os.reduceOption.map Prod.fst) = true := by
    simpa [verifyDeserialized] using h.required
  rw [Managed.levelAs, h.fieldsAs (fun _ h => h) hnodup hnodup [] (by simp), Option.bind_eq_bind,
    Option.bind_some, if_pos hverify]

/-- The object is set to what is read, field by field. -/
theorem assigned (h : FieldsWritten p r newInstance types fields ws os ds)
    (hmem : ∀ field ∈ fields, field ∈ structFields)
    (hnodup : (structFields.map fun field => field.id).Nodup)
    (hdistinct : (fields.map fun field => field.id).Nodup) :
    (∀ f ∈ fieldsToData r newInstance types os.reduceOption structFields,
      f.1 ∈ fields.map fun field => field.id) ∧
    Java.assigned newInstance fields
      (fieldsToData r newInstance types os.reduceOption structFields) = ds := by
  induction h with
  | nil => simp [fieldsToData, Java.assigned]
  | @cons field fields _ _ _ _ _ _ h hrest ih =>
      obtain ⟨hfield, hmem⟩ := List.forall_mem_cons.1 hmem
      rw [List.map_cons, List.nodup_cons] at hdistinct
      obtain ⟨hids, hset⟩ := ih hmem hdistinct.2
      cases h with
      | omitted =>
          refine ⟨fun f hf => List.mem_cons_of_mem _ (hids f (by simpa using hf)), ?_⟩
          have hnone : List.lookup field.id
              (fieldsToData r newInstance types (List.reduceOption _) structFields) = none :=
            List.lookup_eq_none_iff.2 fun f hf => by
              have hne : field.id ≠ f.1 := fun heq => hdistinct.1 (heq ▸ hids f hf)
              simpa using hne
          rw [List.reduceOption_cons_of_none, Java.assigned, List.map_cons, hnone, Option.getD_none]
          exact congrArg _ hset
      | written =>
          rw [List.reduceOption_cons_of_some, fieldsToData, find_of_nodup hnodup hfield]
          refine ⟨fun f hf => ?_, ?_⟩
          · rcases List.mem_cons.1 hf with rfl | hf
            · exact List.mem_cons_self
            · exact List.mem_cons_of_mem _ (hids f hf)
          · rw [Java.assigned, List.map_cons, List.lookup_cons_self, Option.getD_some, ← hset,
              Java.assigned]
            refine congrArg _ (List.map_congr_left fun field' hfield' => ?_)
            have hne : field'.id ≠ field.id := fun heq =>
              hdistinct.1 (List.mem_map.2 ⟨field', hfield', heq⟩)
            rw [List.lookup_cons, beq_false_of_ne hne]

/-- The fields of the bases, and those of a struct itself. -/
theorem append_inv {others : List FieldDescriptor}
    (h : FieldsWritten p r newInstance types (fields ++ others) ws os ds) :
    ∃ ws₁ ws₂ os₁ os₂ ds₁ ds₂, ws = ws₁ ++ ws₂ ∧ ds = ds₁ ++ ds₂ ∧ ws₁.length = fields.length ∧
      FieldsWritten p r newInstance types fields ws₁ os₁ ds₁ ∧
      FieldsWritten p r newInstance types others ws₂ os₂ ds₂ := by
  induction fields generalizing ws os ds with
  | nil => exact ⟨[], ws, [], os, [], ds, rfl, rfl, rfl, .nil, h⟩
  | cons field fields ih =>
      rw [List.cons_append] at h
      cases h with
      | cons h hrest =>
          obtain ⟨ws₁, ws₂, os₁, os₂, ds₁, ds₂, rfl, rfl, hlength, hfirst, hsecond⟩ := ih hrest
          exact ⟨_ :: ws₁, ws₂, _ :: os₁, os₂, _ :: ds₁, ds₂, rfl, rfl,
            congrArg Nat.succ hlength, .cons h hfirst, hsecond⟩

end FieldsWritten

end

/-! ## The levels of a struct -/

theorem StructDescriptor.levels_bondType (descriptor : StructDescriptor) :
    descriptor.bondType.levels
      = descriptor.levels.map fun structFields =>
          structFields.map FieldDescriptor.toStructField := by
  induction descriptor with
  | root structFields => rfl
  | derived baseStructType structFields ih =>
      rw [bondType, StructBondType.levels, ih, levels, List.map_append]
      rfl

theorem matchLevels_append {β : Type} {Ls Ls' : List (List StructField)}
    {levels levels' : List (List StructField → Option β)} {bs bs' : List β}
    (hlength : levels.length = Ls.length) (h : matchLevels Ls levels = some bs)
    (h' : matchLevels Ls' levels' = some bs') :
    matchLevels (Ls ++ Ls') (levels ++ levels') = some (bs ++ bs') := by
  induction Ls generalizing levels bs with
  | nil =>
      obtain rfl := List.length_eq_zero_iff.1 hlength
      obtain rfl : [] = bs := Option.some.inj h
      exact h'
  | cons L Ls ih =>
      cases levels with
      | nil => cases hlength
      | cons level levels =>
          rw [matchLevels] at h
          obtain ⟨b, hb, h⟩ := Option.bind_eq_some_iff.1 h
          obtain ⟨bs, hbs, h⟩ := Option.bind_eq_some_iff.1 h
          obtain rfl := Option.some.inj h
          rw [List.cons_append, List.cons_append, matchLevels, hb,
            ih (Nat.succ.inj hlength) hbs]
          rfl

theorem structTasks_append {Ls Ls' : List (List StructField)} {levels levels' : List Fields}
    (hlength : levels.length = Ls.length) :
    structTasks (Ls ++ Ls') (levels ++ levels')
      = structTasks Ls levels ++ structTasks Ls' levels' := by
  induction Ls generalizing levels with
  | nil =>
      obtain rfl := List.length_eq_zero_iff.1 hlength
      rfl
  | cons L Ls ih =>
      cases levels with
      | nil => cases hlength
      | cons fields levels =>
          rw [List.cons_append, List.cons_append, structTasks, structTasks,
            ih (Nat.succ.inj hlength), List.append_assoc]

section

variable {p : Protocol} {r : Replacement} {newInstance : BondType → Datum}
  {types : Nat → StructDescriptor}

theorem levelsToData_append {levels levels' : List (List (UInt16 × Object))}
    {descriptors descriptors' : List (List FieldDescriptor)}
    (hlength : levels.length = descriptors.length) :
    levelsToData r newInstance types (levels ++ levels') (descriptors ++ descriptors')
      = levelsToData r newInstance types levels descriptors
        ++ levelsToData r newInstance types levels' descriptors' := by
  induction levels generalizing descriptors with
  | nil =>
      obtain rfl := List.length_eq_zero_iff.1 hlength.symm
      rfl
  | cons level levels ih =>
      cases descriptors with
      | nil => cases hlength
      | cons structFields descriptors =>
          rw [List.cons_append, List.cons_append, levelsToData, levelsToData,
            ih (Nat.succ.inj hlength), List.append_assoc]

/-- The levels that are written for a struct, and the object that is read of them. -/
structure LevelsWritten (p : Protocol) (r : Replacement) (newInstance : BondType → Datum)
    (types : Nat → StructDescriptor) (descriptor : StructDescriptor) (levels : List Fields)
    (ds : List Datum) : Prop where
  length : levels.length = descriptor.levels.length
  wellFormed : ∀ fs ∈ levels, ∀ f ∈ fs, f.2.wellFormed encodeString = true
  known : ∀ fs ∈ levels, ∀ f ∈ fs, f.1 ∈ fieldIds types ∧
    ∀ c ∈ f.2.calls .before, KnownCall types c
  fits : ∀ c ∈ structTasks descriptor.bondType.levels levels,
    Everywhere (Task.children p (bondTypes types)) (Task.Fits p (bondTypes types)) c
  object : ∃ os, matchLevels descriptor.bondType.levels
      (levels.map (levelAs (bondTypes types) p.format)) = some os ∧
    os.length = descriptor.levels.length ∧
    levelsToData r newInstance types os descriptor.levels = ds

/-- One level alone. -/
theorem FieldsWritten.level {structFields : List FieldDescriptor}
    {ws : List (Option (UInt16 × Value))} {os : List (Option (UInt16 × Object))} {ds : List Datum}
    (h : FieldsWritten p r newInstance types structFields ws os ds)
    (hids : ∀ field ∈ structFields, field.id ∈ fieldIds types)
    (hnodup : (structFields.map fun field => field.id).Nodup) :
    LevelsWritten p r newInstance types (.root structFields) [ws.reduceOption] ds where
  length := rfl
  wellFormed := by simpa using h.wellFormed
  known := by simpa using h.known hids
  fits := by
    have hlevel := h.fits (fun _ h => h) hnodup
    simpa [StructDescriptor.bondType, StructBondType.levels, structTasks] using hlevel
  object := by
    refine ⟨[os.reduceOption], ?_, rfl, ?_⟩
    · have hlevel := h.levelAs hnodup
      rw [List.map_singleton, StructDescriptor.bondType, StructBondType.levels, matchLevels, hlevel]
      rfl
    · rw [StructDescriptor.levels, levelsToData, levelsToData, List.append_nil]
      · exact (h.assigned (fun _ h => h) hnodup hnodup).2
      · simp

theorem LevelsWritten.derived {base : StructDescriptor} {structFields : List FieldDescriptor}
    {levels levels' : List Fields} {ds ds' : List Datum}
    (h : LevelsWritten p r newInstance types base levels ds)
    (h' : LevelsWritten p r newInstance types (.root structFields) levels' ds') :
    LevelsWritten p r newInstance types (.derived base structFields) (levels ++ levels')
      (ds ++ ds') where
  length := by
    rw [List.length_append, h.length, h'.length]
    exact List.length_append.symm
  wellFormed := List.forall_mem_append.2 ⟨h.wellFormed, h'.wellFormed⟩
  known := List.forall_mem_append.2 ⟨h.known, h'.known⟩
  fits := by
    have hlength : levels.length = base.bondType.levels.length := by
      rw [h.length, StructDescriptor.levels_bondType, List.length_map]
    rw [StructDescriptor.bondType, StructBondType.levels, structTasks_append hlength]
    exact List.forall_mem_append.2 ⟨h.fits, h'.fits⟩
  object := by
    obtain ⟨os, hos, hlength, rfl⟩ := h.object
    obtain ⟨os', hos', hlength', rfl⟩ := h'.object
    have hlevels : (levels.map (levelAs (bondTypes types) p.format)).length
        = base.bondType.levels.length := by
      rw [List.length_map, h.length, StructDescriptor.levels_bondType, List.length_map]
    refine ⟨os ++ os', ?_, ?_, ?_⟩
    · rw [StructDescriptor.bondType, StructBondType.levels, List.map_append]
      exact matchLevels_append hlevels hos hos'
    · rw [List.length_append, hlength, hlength']
      exact List.length_append.symm
    · exact levelsToData_append hlength

/-- The fields that are written make the levels of the struct. -/
theorem FieldsWritten.arrange {descriptor : StructDescriptor}
    (hids : ∀ field ∈ descriptor.fields, field.id ∈ fieldIds types)
    (hnodup : ∀ structFields ∈ descriptor.levels,
      (structFields.map fun field : FieldDescriptor => field.id).Nodup)
    {ws : List (Option (UInt16 × Value))} {os : List (Option (UInt16 × Object))} {ds : List Datum}
    (h : FieldsWritten p r newInstance types descriptor.fields ws os ds) :
    LevelsWritten p r newInstance types descriptor (Tagged.arrange descriptor ws).levels ds := by
  induction descriptor generalizing ws os ds with
  | root structFields => exact h.level hids (hnodup structFields List.mem_cons_self)
  | derived base structFields ih =>
      obtain ⟨hbase, hown⟩ := List.forall_mem_append.1 hnodup
      obtain ⟨hbaseIds, hownIds⟩ := List.forall_mem_append.1 hids
      obtain ⟨ws₁, ws₂, os₁, os₂, ds₁, ds₂, rfl, rfl, hlength, hfirst, hsecond⟩ :=
        FieldsWritten.append_inv h
      rw [Tagged.arrange, ← hlength, List.take_left, List.drop_left, StructValue.levels]
      exact (ih hbaseIds hbase hfirst).derived
        (hsecond.level hownIds (hown structFields List.mem_cons_self))

/-- A struct whose levels are written is read as what they are. -/
theorem LevelsWritten.struct {index : Nat} {s : StructValue} {ds : List Datum}
    (h : LevelsWritten p r newInstance types (types index) s.levels ds) :
    WrittenAs p r newInstance types (.struct index) (.struct s) (.struct ds) where
  wellFormed := StructValue.wellFormed_iff.2 h.wellFormed
  known := by
    intro c hc
    rw [Value.calls, List.mem_cons, List.mem_append, List.mem_singleton] at hc
    rcases hc with rfl | hc | rfl
    · trivial
    · exact s.forall_bodyCalls trivial trivial h.known c hc
    · trivial
  fits := by
    refine .intro ?_ h.fits
    show s.levels.length = (types index).bondType.levels.length
    rw [h.length, StructDescriptor.levels_bondType, List.length_map]
  object := by
    obtain ⟨os, hos, -, hdata⟩ := h.object
    refine ⟨.struct os, ?_, ?_⟩
    · rw [Value.asType, StructValue.levelsAs_eq]
      exact congrArg (Object.struct <$> ·) hos
    · rw [Object.toDatum]
      exact congrArg Datum.struct hdata

end

/-! ## Omitted fields -/

/-- A field that is nothing by default omits an empty blob and nothing else. -/
theorem omits_eq_refuses {field : FieldDescriptor} (hnothing : field.isDefaultNothing = true)
    (value : Datum) : field.omits value = field.refuses value := by
  have hstring (v : BasicValue) : field.omitsString v = false := by
    have hdefault : field.getDefaultValue v.type = none := by
      simp only [FieldDescriptor.isDefaultNothing, decide_eq_true_eq] at hnothing
      rw [FieldDescriptor.getDefaultValue, hnothing]
    simp [FieldDescriptor.omitsString, hdefault]
  have hrefuses (htype : field.fieldType ≠ .blob) : field.refuses value = false := by
    unfold FieldDescriptor.refuses
    split
    · simp [htype]
    · rfl
  cases htype : field.fieldType with
  | blob =>
      cases value with
      | blob data =>
          cases data with
          | nil => simp [FieldDescriptor.omits, FieldDescriptor.omitsBlob,
              FieldDescriptor.refuses, hnothing, htype]
          | cons b data => simp [FieldDescriptor.omits, FieldDescriptor.omitsBlob,
              FieldDescriptor.refuses, htype]
      | _ => simp [FieldDescriptor.omits, FieldDescriptor.refuses, htype]
  | primitive type =>
      rw [hrefuses (by simp [htype])]
      cases value with
      | primitive v =>
          cases v <;> simp [FieldDescriptor.omits, FieldDescriptor.omitsPrimitive, htype, hstring,
            hnothing]
      | _ => simp [FieldDescriptor.omits, htype]
  | _ =>
      rw [hrefuses (by simp [htype])]
      cases value <;> simp [FieldDescriptor.omits, FieldDescriptor.omitsNullable,
        FieldDescriptor.omitsContainer, htype, hnothing]

/-- Only optional fields are omitted. -/
theorem isOptional_of_omits {field : FieldDescriptor} {d : Datum} (h : field.omits d = true) :
    field.modifier ≠ .required := by
  have hoptional : field.isOptional = true := by
    unfold FieldDescriptor.omits FieldDescriptor.omitsNullable FieldDescriptor.omitsString
      FieldDescriptor.omitsPrimitive FieldDescriptor.omitsBlob FieldDescriptor.omitsContainer at h
    split at h <;> simp_all
  simp only [FieldDescriptor.isOptional, decide_eq_true_eq] at hoptional
  rw [hoptional]
  decide

/-- A field of a type that is not primitive has no default of its own. -/
theorem fieldClass_of_wellFormed {field : FieldDescriptor} (hfield : field.wellFormed = true)
    (hnothing : field.isDefaultNothing = false)
    (htype : ∀ type, field.fieldType ≠ .primitive type) : field.fieldClass = .object := by
  cases hclass : field.fieldClass with
  | object => rfl
  | something => simp [FieldDescriptor.isDefaultNothing, hclass] at hnothing
  | valued defaultValue =>
      simp only [FieldDescriptor.wellFormed, hclass, Bool.and_eq_true, decide_eq_true_eq] at hfield
      exact absurd hfield.1 (htype _)

/-- A field that is omitted is initialized with its value. -/
theorem initialize_of_omits {newInstance : BondType → Datum} {types : Nat → StructDescriptor}
    {field : FieldDescriptor} (hfield : field.wellFormed = true)
    (hnothing : field.isDefaultNothing = false) {d : Datum}
    (htyped : d.typed types field.fieldType = true) (h : field.omits d = true) :
    field.initializeField newInstance = d := by
  have hcontainer {count : Nat} (h : field.omitsContainer count = true) : count = 0 := by
    simp only [FieldDescriptor.omitsContainer, Bool.and_eq_true, decide_eq_true_eq] at h
    exact h.1.2
  have hclass (htype : ∀ type, field.fieldType ≠ .primitive type) : field.fieldClass = .object :=
    fieldClass_of_wellFormed hfield hnothing htype
  unfold FieldDescriptor.initializeField
  cases htype : field.fieldType with
  | primitive type =>
      cases d with
      | primitive v =>
          obtain ⟨-, hdefault⟩ := value_of_omits hfield htype h
          have hv : type = v.type := by
            simp only [htype, Datum.typed, BondType.core, Bool.and_eq_true,
              decide_eq_true_eq] at htyped
            exact BondType.primitive.inj htyped.1
          subst hv
          unfold FieldDescriptor.getDefaultValue at hdefault
          split at hdefault
          · next hobject => simpa [hobject] using hdefault
          · cases hdefault
          · next hvalued => simpa [hvalued] using hdefault
      | _ => simp [FieldDescriptor.omits, htype] at h
  | nullable e =>
      simp only [FieldDescriptor.omits, htype, FieldDescriptor.omitsNullable, Bool.and_eq_true,
        isNull_iff] at h
      rw [hclass (by simp [htype]), h.1.2]
  | blob =>
      rw [hclass (by simp [htype])]
      cases d with
      | blob data =>
          simp only [FieldDescriptor.omits, htype, FieldDescriptor.omitsBlob, Bool.and_eq_true,
            decide_eq_true_eq, List.length_eq_zero_iff] at h
          rw [h.1]
      | _ => simp [FieldDescriptor.omits, htype] at h
  | vector e =>
      rw [hclass (by simp [htype])]
      cases d with
      | collection elements =>
          simp only [FieldDescriptor.omits, htype] at h
          rw [List.length_eq_zero_iff.1 (hcontainer h)]
      | _ => simp [FieldDescriptor.omits, htype] at h
  | list e =>
      rw [hclass (by simp [htype])]
      cases d with
      | collection elements =>
          simp only [FieldDescriptor.omits, htype] at h
          rw [List.length_eq_zero_iff.1 (hcontainer h)]
      | _ => simp [FieldDescriptor.omits, htype] at h
  | set e =>
      rw [hclass (by simp [htype])]
      cases d with
      | collection elements =>
          simp only [FieldDescriptor.omits, htype] at h
          rw [List.length_eq_zero_iff.1 (hcontainer h)]
      | _ => simp [FieldDescriptor.omits, htype] at h
  | map k e =>
      rw [hclass (by simp [htype])]
      cases d with
      | map entries =>
          simp only [FieldDescriptor.omits, htype] at h
          rw [List.length_eq_zero_iff.1 (hcontainer h)]
      | _ => simp [FieldDescriptor.omits, htype] at h
  | struct index => simp [FieldDescriptor.omits, htype] at h
  | bonded index => simp [FieldDescriptor.omits, htype] at h

/-! ## What is serialized -/

section

variable {p : Protocol} {r : Replacement} {newInstance : BondType → Datum}
  {types : Nat → StructDescriptor}

variable (p r newInstance types) in
/-- A value is serialized, and what is written is read as what comes back. -/
def Serialized (type : BondType) (d : Datum) : Prop :=
  ∃ v, Tagged.serializeValue types d type = .ok v ∧
    WrittenAs p r newInstance types type v (d.back r types type)

variable (types) in
/-- A value of a type that is serialized without exception, and has no `bonded` in it. -/
structure Admissible (type : BondType) (d : Datum) : Prop where
  keysPrimitive : type.keysPrimitive = true
  typed : d.typed types type = true
  writable : d.passes types writable type = true
  withoutBonded : d.passes types withoutBonded type = true

theorem WrittenAs.typeId {type : BondType} {v : Value} {d : Datum}
    (h : WrittenAs p r newInstance types type v d) : v.typeId = type.getBondDataType := by
  obtain ⟨o, ho, -⟩ := h.object
  exact Value.typeId_of_asType ho

theorem BondType.keysPrimitive_core {type : BondType} (h : type.keysPrimitive = true) :
    type.core.keysPrimitive = true := by
  induction type with
  | nullable e ih => exact ih h
  | _ => exact h

theorem BondType.keysPrimitive_elementType {type e : BondType} (h : type.keysPrimitive = true)
    (he : type.elementType = some e) : e.keysPrimitive = true := by
  cases type with
  | vector e' => obtain rfl := Option.some.inj he; exact h
  | list e' => obtain rfl := Option.some.inj he; exact h
  | set e' => obtain rfl := Option.some.inj he; exact h
  | _ => cases he

theorem BondType.isBasic_of_keysPrimitive {k e : BondType}
    (h : (BondType.map k e).keysPrimitive = true) :
    k.getBondDataType.isBasic = true ∧ k.keysPrimitive = true ∧ e.keysPrimitive = true := by
  cases k with
  | primitive type => exact ⟨rfl, rfl, h⟩
  | _ => cases h

/-! ### Containers -/

theorem serializeElements_written {ds : List Datum} {e : BondType}
    (h : ∀ d ∈ ds, Serialized p r newInstance types e d) :
    ∃ vs os, Tagged.serializeElements types ds e = .ok vs ∧ vs.length = ds.length ∧
      (∀ v ∈ vs, ∃ d, WrittenAs p r newInstance types e v d) ∧
      itemsAs (bondTypes types) p.format e vs = some os ∧
      elementsToData r newInstance types os e = elementsBack r types ds e := by
  induction ds with
  | nil => exact ⟨[], [], rfl, rfl, by simp, rfl, rfl⟩
  | cons d ds ih =>
      obtain ⟨⟨v, hv, hwritten⟩, hrest⟩ := List.forall_mem_cons.1 h
      obtain ⟨vs, os, hvs, hlength, hall, hos, hdata⟩ := ih hrest
      obtain ⟨o, ho, hback⟩ := hwritten.object
      refine ⟨v :: vs, o :: os, ?_, congrArg Nat.succ hlength, ?_, ?_, ?_⟩
      · rw [Tagged.serializeElements, hv, hvs]
        rfl
      · exact List.forall_mem_cons.2 ⟨⟨_, hwritten⟩, hall⟩
      · rw [itemsAs, ho, hos]
        rfl
      · rw [elementsToData, elementsBack, hback, hdata]

theorem serializeEntries_written {entries : List (Datum × Datum)} {k e : BondType}
    (h : ∀ kv ∈ entries, Serialized p r newInstance types k kv.1 ∧
      Serialized p r newInstance types e kv.2) :
    ∃ vs os, Tagged.serializeEntries types entries k e = .ok vs ∧ vs.length = entries.length ∧
      (∀ v ∈ vs, (∃ d, WrittenAs p r newInstance types k v.1 d) ∧
        ∃ d, WrittenAs p r newInstance types e v.2 d) ∧
      pairsAs (bondTypes types) p.format k e vs = some os ∧
      entriesToData r newInstance types os k e = entriesBack r types entries k e := by
  induction entries with
  | nil => exact ⟨[], [], rfl, rfl, by simp, rfl, rfl⟩
  | cons kv entries ih =>
      obtain ⟨key, value⟩ := kv
      obtain ⟨⟨⟨kv, hkv, hkey⟩, v, hv, hvalue⟩, hrest⟩ := List.forall_mem_cons.1 h
      obtain ⟨vs, os, hvs, hlength, hall, hos, hdata⟩ := ih hrest
      obtain ⟨ko, hko, hkback⟩ := hkey.object
      obtain ⟨o, ho, hback⟩ := hvalue.object
      refine ⟨(kv, v) :: vs, (ko, o) :: os, ?_, congrArg Nat.succ hlength, ?_, ?_, ?_⟩
      · rw [Tagged.serializeEntries, hkv, hv, hvs]
        rfl
      · exact List.forall_mem_cons.2 ⟨⟨⟨_, hkey⟩, _, hvalue⟩, hall⟩
      · rw [pairsAs, hko, ho, hos]
        rfl
      · rw [entriesToData, entriesBack, hkback, hback, hdata]

/-- A list or a set of what is written. -/
theorem writtenAs_list {kind : ListKind} {type e : BondType}
    (htype : kind = .list ∧ (type = .vector e ∨ type = .list e) ∨ kind = .set ∧ type = .set e)
    {ds : List Datum} (hlength : ds.length < 2 ^ 31)
    (h : ∀ d ∈ ds, Serialized p r newInstance types e d) :
    ∃ vs, Tagged.serializeElements types ds e = .ok vs ∧
      WrittenAs p r newInstance types type (.list kind e.getBondDataType vs)
        (.collection (elementsBack r types ds e)) := by
  obtain ⟨vs, os, hvs, hlen, hall, hos, hdata⟩ := serializeElements_written h
  have hitem (v : Value) (hv : v ∈ vs) :
      v.typeId = e.getBondDataType ∧ v.wellFormed encodeString = true := by
    obtain ⟨d, hd⟩ := hall v hv
    exact ⟨hd.typeId, hd.wellFormed⟩
  have hfits : ∀ c ∈ vs.map (Task.read e),
      Everywhere (Task.children p (bondTypes types)) (Task.Fits p (bondTypes types)) c := by
    intro c hc
    obtain ⟨v, hv, rfl⟩ := List.mem_map.1 hc
    obtain ⟨d, hd⟩ := hall v hv
    exact hd.fits
  have hknown (v : Value) (hv : v ∈ vs) : ∀ c ∈ v.calls .before, KnownCall types c := by
    obtain ⟨d, hd⟩ := hall v hv
    exact hd.known
  refine ⟨vs, hvs, ?_, ?_, ?_, .collection os, ?_, ?_⟩
  · rw [Value.wellFormed, wellFormedItems_iff.2 hitem, e.isValue_getBondDataType, hlen]
    simpa using hlength
  · rw [Value.calls]
    exact List.forall_mem_cons.2 ⟨trivial, forall_itemsCalls hknown⟩
  · rcases htype with ⟨rfl, rfl | rfl⟩ | ⟨rfl, rfl⟩ <;> exact .intro trivial hfits
  · rcases htype with ⟨rfl, rfl | rfl⟩ | ⟨rfl, rfl⟩ <;> simp [Value.asType, hos]
  · rcases htype with ⟨rfl, rfl | rfl⟩ | ⟨rfl, rfl⟩ <;>
      simp [Object.toDatum, BondType.core, BondType.elementType, hdata]

theorem writtenAs_map {k e : BondType} (hkeys : (BondType.map k e).keysPrimitive = true)
    {entries : List (Datum × Datum)} (hlength : entries.length < 2 ^ 31)
    (h : ∀ kv ∈ entries, Serialized p r newInstance types k kv.1 ∧
      Serialized p r newInstance types e kv.2) :
    ∃ vs, Tagged.serializeEntries types entries k e = .ok vs ∧
      WrittenAs p r newInstance types (.map k e)
        (.map k.getBondDataType e.getBondDataType vs) (.map (entriesBack r types entries k e)) := by
  obtain ⟨vs, os, hvs, hlen, hall, hos, hdata⟩ := serializeEntries_written h
  have hpair (v : Value × Value) (hv : v ∈ vs) :
      (v.1.typeId = k.getBondDataType ∧ v.1.wellFormed encodeString = true) ∧
        v.2.typeId = e.getBondDataType ∧ v.2.wellFormed encodeString = true := by
    obtain ⟨⟨_, hkey⟩, _, hvalue⟩ := hall v hv
    exact ⟨⟨hkey.typeId, hkey.wellFormed⟩, hvalue.typeId, hvalue.wellFormed⟩
  have hknown (v : Value × Value) (hv : v ∈ vs) :
      (∀ c ∈ v.1.calls .before, KnownCall types c) ∧
        ∀ c ∈ v.2.calls .before, KnownCall types c := by
    obtain ⟨⟨_, hkey⟩, _, hvalue⟩ := hall v hv
    exact ⟨hkey.known, hvalue.known⟩
  refine ⟨vs, hvs, ?_, ?_, .intro trivial fun c hc => ?_, .map os, ?_, ?_⟩
  · rw [Value.wellFormed, wellFormedPairs_iff.2 hpair, e.isValue_getBondDataType,
      (BondType.isBasic_of_keysPrimitive hkeys).1, hlen]
    simpa using hlength
  · rw [Value.calls]
    exact List.forall_mem_cons.2 ⟨trivial, forall_pairsCalls hknown⟩
  · obtain ⟨v, hv, hc⟩ := List.mem_flatMap.1 hc
    obtain ⟨⟨_, hkey⟩, _, hvalue⟩ := hall v hv
    rcases List.mem_cons.1 hc with rfl | hc
    · exact hkey.fits
    · obtain rfl := List.mem_singleton.1 hc
      exact hvalue.fits
  · simp [Value.asType, hos]
  · simp [Object.toDatum, BondType.core, hdata]

/-! ### Nullable types -/

/-- A nullable value is an object of the type of the value itself, or null. -/
theorem toDatum_nullable (o : Object) (e : BondType) :
    o.toDatum r newInstance types (.nullable e) = o.toDatum r newInstance types e := by
  cases o <;> simp only [Object.toDatum, BondType.core]

theorem WrittenAs.nullable {e : BondType} {v : Value} {d : Datum}
    (h : WrittenAs p r newInstance types e v d) :
    WrittenAs p r newInstance types (.nullable e) (.list .list e.getBondDataType [v]) d := by
  obtain ⟨o, ho, hdata⟩ := h.object
  refine ⟨?_, ?_, .intro trivial fun c hc => ?_, o, ?_, (toDatum_nullable o e).trans hdata⟩
  · simp [Value.wellFormed, wellFormedItems, h.typeId, h.wellFormed, e.isValue_getBondDataType]
  · rw [Value.calls]
    exact List.forall_mem_cons.2 ⟨trivial, forall_itemsCalls (by simpa using h.known)⟩
  · obtain rfl := List.mem_singleton.1 hc
    exact h.fits
  · simp [Value.asType, itemsAs, ho]

/-- A value that is written as one of a type without its nullability. -/
theorem writtenAs_of_core {serialize : BondType → Except Exception Value} {d : Datum}
    {type : BondType}
    (h : ∃ v, serialize type.core = .ok v ∧ WrittenAs p r newInstance types type.core v d) :
    ∃ v, Tagged.serializeNullable serialize type = .ok v ∧
      WrittenAs p r newInstance types type v d := by
  induction type with
  | nullable e ih =>
      obtain ⟨v, hv, hwritten⟩ := ih h
      exact ⟨_, by rw [Tagged.serializeNullable, hv]; rfl, hwritten.nullable⟩
  | _ => exact h

/-! ### Structs -/

theorem serializeField_written {field : FieldDescriptor} {d : Datum} {v : Value}
    (hwritable : d.passes types writable field.fieldType = true)
    (homits : field.omits d = false) :
    Tagged.serializeField field d (.ok v) = .ok (some (field.id, v)) := by
  have hnull : (d.isNull && !field.fieldType.isNullableType) = false := by
    cases d with
    | null => simpa [Datum.isNull, Datum.passes, writable] using hwritable
    | _ => rfl
  rw [Tagged.serializeField, hnull, homits]
  rfl

theorem serializeField_omitted {field : FieldDescriptor} {d : Datum}
    (hwritable : d.passes types writable field.fieldType = true)
    (homits : field.omits d = true) (serialized : Except Exception Value) :
    Tagged.serializeField field d serialized = .ok none := by
  have hnull : (d.isNull && !field.fieldType.isNullableType) = false := by
    cases d with
    | null => simpa [Datum.isNull, Datum.passes, writable] using hwritable
    | _ => rfl
  rw [Tagged.serializeField, hnull, homits]
  rfl

theorem Tagged.serializeStructFields_cons {d : Datum} (hd : ∀ value, d ≠ .something value)
    (ds : List Datum) (field : FieldDescriptor) (fields : List FieldDescriptor) :
    Tagged.serializeStructFields types (d :: ds) (field :: fields)
      = (if field.isDefaultNothing then
          if field.isOptional then do
            return none :: (← Tagged.serializeStructFields types ds fields)
          else .error .invalidBondData
        else do
          let written ← Tagged.serializeField field d
            (Tagged.serializeValue types d field.fieldType)
          return written :: (← Tagged.serializeStructFields types ds fields)) := by
  rw [Tagged.serializeStructFields]
  exact hd

theorem FieldWritten.of_writtenAs {field : FieldDescriptor} {v : Value} {d : Datum}
    (h : WrittenAs p r newInstance types field.fieldType v d) :
    ∃ set, FieldWritten p r newInstance types field (some (field.id, v)) set (field.wrap d) := by
  obtain ⟨o, ho, rfl⟩ := h.object
  exact ⟨_, .written h.wellFormed h.known h.fits ho⟩

end

section

variable {p : Protocol} {r : Replacement} {newInstance : BondType → Datum}
  {types : Nat → StructDescriptor}

/-- The fields of a struct are written, or omitted where they are initialized with what comes
    back. -/
theorem serializeStructFields_written {ds : List Datum} {fields : List FieldDescriptor}
    (hfields : ∀ field ∈ fields, field.wellFormed = true ∧ field.fieldType.keysPrimitive = true)
    (h : FieldsOf types ds fields) (hwritable : fieldsPass types writable ds fields = true)
    (hbonded : fieldsPass types withoutBonded ds fields = true)
    (ih : ∀ d ∈ ds, (∀ type, Admissible types type d → Serialized p r newInstance types type d) ∧
      ∀ value, d = .something value → ∀ type, Admissible types type value →
        Serialized p r newInstance types type value) :
    ∃ ws os, Tagged.serializeStructFields types ds fields = .ok ws ∧
      FieldsWritten p r newInstance types fields ws os (fieldsBack r types ds fields) := by
  induction h with
  | nil => exact ⟨[], [], rfl, .nil⟩
  | @something value ds field fields hnothing htyped hrest ihrest =>
      obtain ⟨⟨hfield, hkeys⟩, hfields⟩ := List.forall_mem_cons.1 hfields
      rw [fieldsPass, Bool.and_eq_true, Bool.and_eq_true] at hwritable hbonded
      obtain ⟨ws, os, hws, hwritten⟩ := ihrest hfields hwritable.2 hbonded.2
        fun d hd => ih d (List.mem_cons_of_mem _ hd)
      obtain ⟨v, hv, hvalue⟩ := (ih _ List.mem_cons_self).2 value rfl _
        ⟨hkeys, htyped, hwritable.1.2, hbonded.1.2⟩
      have homits := omits_eq_refuses hnothing value
      rw [Tagged.serializeStructFields, fieldsBack, hws]
      cases hrefuses : field.refuses value with
      | true =>
          rw [hrefuses] at homits
          have hinitialize : field.initializeField newInstance = .null := by
            simp only [FieldDescriptor.isDefaultNothing, decide_eq_true_eq] at hnothing
            rw [FieldDescriptor.initializeField, hnothing]
          rw [serializeField_omitted hwritable.1.2 homits]
          refine ⟨none :: ws, none :: os, rfl, .cons ?_ hwritten⟩
          rw [if_pos rfl, ← hinitialize]
          exact .omitted (isOptional_of_omits homits)
      | false =>
          rw [hrefuses] at homits
          obtain ⟨set, hset⟩ := FieldWritten.of_writtenAs hvalue
          rw [hv, serializeField_written hwritable.1.2 homits]
          refine ⟨_ :: ws, set :: os, rfl, .cons ?_ hwritten⟩
          rwa [FieldDescriptor.wrap, if_pos hnothing] at hset
  | @nothing ds field fields hnothing hrest ihrest =>
      obtain ⟨-, hfields⟩ := List.forall_mem_cons.1 hfields
      rw [fieldsPass_cons (by simp), Bool.and_eq_true, Bool.and_eq_true] at hwritable hbonded
      obtain ⟨ws, os, hws, hwritten⟩ := ihrest hfields hwritable.2 hbonded.2
        fun d hd => ih d (List.mem_cons_of_mem _ hd)
      have hoptional : field.isOptional = true := by
        simpa [writable, hnothing] using hwritable.1.1
      have hinitialize : field.initializeField newInstance = .null := by
        simp only [FieldDescriptor.isDefaultNothing, decide_eq_true_eq] at hnothing
        rw [FieldDescriptor.initializeField, hnothing]
      have hmodifier : field.modifier ≠ .required := by
        simp only [FieldDescriptor.isOptional, decide_eq_true_eq] at hoptional
        simp [hoptional]
      rw [Tagged.serializeStructFields_cons (by simp), fieldsBack_cons (by simp), hnothing,
        hoptional, hws]
      refine ⟨none :: ws, none :: os, rfl, .cons ?_ hwritten⟩
      rw [Bool.true_or, if_pos rfl, ← hinitialize]
      exact .omitted hmodifier
  | @value d ds field fields hd hnothing htyped hrest ihrest =>
      obtain ⟨⟨hfield, hkeys⟩, hfields⟩ := List.forall_mem_cons.1 hfields
      rw [fieldsPass_cons hd, hnothing, Bool.false_or, Bool.and_eq_true, Bool.and_eq_true]
        at hwritable hbonded
      obtain ⟨ws, os, hws, hwritten⟩ := ihrest hfields hwritable.2 hbonded.2
        fun d hd => ih d (List.mem_cons_of_mem _ hd)
      obtain ⟨v, hv, hvalue⟩ := (ih _ List.mem_cons_self).1 _
        ⟨hkeys, htyped, hwritable.1.2, hbonded.1.2⟩
      rw [Tagged.serializeStructFields_cons hd, fieldsBack_cons hd, hnothing, hws, hv,
        Bool.false_or]
      cases homits : field.omits d with
      | true =>
          rw [serializeField_omitted hwritable.1.2 homits]
          refine ⟨none :: ws, none :: os, rfl, .cons ?_ hwritten⟩
          have hinitialize : field.initializeField newInstance = d :=
            initialize_of_omits hfield hnothing htyped homits
          rw [if_pos rfl, ← hinitialize]
          exact .omitted (isOptional_of_omits homits)
      | false =>
          obtain ⟨set, hset⟩ := FieldWritten.of_writtenAs hvalue
          rw [serializeField_written hwritable.1.2 homits]
          refine ⟨_ :: ws, set :: os, rfl, .cons ?_ hwritten⟩
          rw [FieldDescriptor.wrap, hnothing] at hset
          exact hset

/-- A value is written as one of its type, and what is read is what comes back. -/
theorem serialized (htypes : ∀ index, (types index).Valid) (d : Datum) :
    ∀ type, Admissible types type d → Serialized p r newInstance types type d := by
  induction d using datum_induct with
  | null =>
      intro type h
      have hnullable : type.isNullableType = true := h.writable
      cases type with
      | nullable e =>
          refine ⟨_, rfl, ?_, ?_, .intro trivial (by simp [Task.children]), .null, ?_, ?_⟩
          · simp [Value.wellFormed, wellFormedItems, e.isValue_getBondDataType]
          · simp [Value.calls, itemsCalls, KnownCall]
          · simp [Value.asType, itemsAs]
          · rw [Object.toDatum]
            rfl
      | _ => cases hnullable
  | primitive v =>
      intro type h
      have htyped := h.typed
      simp only [Datum.typed, Bool.and_eq_true, decide_eq_true_eq] at htyped
      rw [Serialized, Tagged.serializeValue]
      refine writtenAs_of_core ?_
      rw [htyped.1]
      refine ⟨.basic v, rfl, htyped.2, ?_, .intro trivial (by simp [Task.children]),
        .primitive v.onWire, ?_, ?_⟩
      · simp [Value.calls, KnownCall]
      · simp [Value.asType]
      · rw [Object.toDatum, Datum.back]
  | blob data =>
      intro type h
      have htyped := h.typed
      simp only [Datum.typed, Bool.and_eq_true, decide_eq_true_eq] at htyped
      rw [Serialized, Tagged.serializeValue]
      refine writtenAs_of_core ?_
      rw [htyped.1]
      refine ⟨.blob (.basic .int8) data, rfl, ?_, ?_, .intro trivial (by simp [Task.children]),
        .blob data, ?_, ?_⟩
      · simpa [Value.wellFormed] using htyped.2
      · simp [Value.calls, KnownCall]
      · simp [Value.asType]
      · rw [Object.toDatum]
        rfl
  | collection elements ih =>
      intro type h
      have htyped := h.typed
      have hwritable := h.writable
      have hbonded := h.withoutBonded
      have hkeys := BondType.keysPrimitive_core h.keysPrimitive
      rw [Datum.typed, Bool.and_eq_true, decide_eq_true_eq] at htyped
      rw [Datum.passes] at hwritable hbonded
      rw [Serialized, Tagged.serializeValue, Datum.back]
      have helements {e : BondType} (he : type.core.elementType = some e) :
          ∀ d ∈ elements, Serialized p r newInstance types e d := by
        rw [he] at htyped hwritable hbonded
        exact fun d hd => ih d hd e
          ⟨BondType.keysPrimitive_elementType hkeys he, typedElements_iff.1 htyped.2 d hd,
            elementsPass_iff.1 hwritable d hd, elementsPass_iff.1 hbonded d hd⟩
      refine writtenAs_of_core ?_
      cases hcore : type.core with
      | vector e =>
          obtain ⟨vs, hvs, hwritten⟩ := writtenAs_list (.inl ⟨rfl, .inl rfl⟩) htyped.1
            (helements (by rw [hcore]; rfl))
          exact ⟨_, by simp only [hvs]; rfl, hwritten⟩
      | list e =>
          obtain ⟨vs, hvs, hwritten⟩ := writtenAs_list (.inl ⟨rfl, .inr rfl⟩) htyped.1
            (helements (by rw [hcore]; rfl))
          exact ⟨_, by simp only [hvs]; rfl, hwritten⟩
      | set e =>
          obtain ⟨vs, hvs, hwritten⟩ := writtenAs_list (.inr ⟨rfl, rfl⟩) htyped.1
            (helements (by rw [hcore]; rfl))
          exact ⟨_, by simp only [hvs]; rfl, hwritten⟩
      | _ => simp [hcore, BondType.elementType] at htyped
  | map entries ih =>
      intro type h
      have htyped := h.typed
      have hwritable := h.writable
      have hbonded := h.withoutBonded
      have hkeys := BondType.keysPrimitive_core h.keysPrimitive
      rw [Datum.typed, Bool.and_eq_true, decide_eq_true_eq] at htyped
      rw [Datum.passes] at hwritable hbonded
      rw [Serialized, Tagged.serializeValue, Datum.back]
      refine writtenAs_of_core ?_
      cases hcore : type.core with
      | map k e =>
          rw [hcore] at htyped hwritable hbonded hkeys
          obtain ⟨-, hk, he⟩ := BondType.isBasic_of_keysPrimitive hkeys
          have hentries (kv : Datum × Datum) (hkv : kv ∈ entries) :
              Serialized p r newInstance types k kv.1 ∧
                Serialized p r newInstance types e kv.2 := by
            have htypes := typedEntries_iff.1 htyped.2 kv hkv
            have hwrites := entriesPass_iff.1 hwritable kv hkv
            have hwithout := entriesPass_iff.1 hbonded kv hkv
            exact ⟨(ih kv hkv).1 k ⟨hk, htypes.1, hwrites.1, hwithout.1⟩,
              (ih kv hkv).2 e ⟨he, htypes.2, hwrites.2, hwithout.2⟩⟩
          obtain ⟨vs, hvs, hwritten⟩ := writtenAs_map hkeys htyped.1 hentries
          exact ⟨_, by simp only [hvs]; rfl, hwritten⟩
      | _ => simp [hcore] at htyped
  | something value ih =>
      intro type h
      cases h.typed
  | struct fields ih =>
      intro type h
      have htyped := h.typed
      have hwritable := h.writable
      have hbonded := h.withoutBonded
      rw [Datum.typed] at htyped
      rw [Datum.passes] at hwritable hbonded
      rw [Serialized, Tagged.serializeValue, Datum.back]
      refine writtenAs_of_core ?_
      cases hcore : type.core with
      | struct index =>
          rw [hcore] at htyped hwritable hbonded
          have hvalid := htypes index
          obtain ⟨ws, os, hws, hwritten⟩ := serializeStructFields_written
            (fun field hfield => ⟨hvalid.wellFormed field hfield,
              hvalid.keysPrimitive field hfield⟩)
            (fieldsOf_of_typed htyped) hwritable hbonded ih
          have hids (field : FieldDescriptor) (hfield : field ∈ (types index).fields) :
              field.id ∈ fieldIds types := ⟨index, field, hfield, rfl⟩
          exact ⟨_, by simp only [hws]; rfl, (hwritten.arrange hids hvalid.nodup).struct⟩
      | _ => simp [hcore] at htyped
  | bonded marshaled =>
      intro type h
      cases h.withoutBonded

end

end Bond.Java

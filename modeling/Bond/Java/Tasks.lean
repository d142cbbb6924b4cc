import Bond.Java.Objects

set_option autoImplicit false

/-! # Reading a payload as an object of a type in Java

What is read of a value, and what is skipped, when it is read as an object of a type. A task is done
right if the tasks in it are, except that a struct is only ever read up to the end of as many levels
as its type has: the readers never look at the levels of the payload. -/

namespace Bond.Java

open Bond.Cpp (BondDataType BasicType ListKind)
open Bond.Lib Bond.Managed
open Decoder Hereditary
open BinaryStreamReader StringHelper

/-! ## What is read and what is skipped -/

/-- A part of a payload, and what a reader has to do with it. -/
inductive Task where
  | read (type : BondType) (v : Value)
  | skip (v : Value)

/-- The fields of a level: those that the type knows are read, all others skipped. -/
def levelTasks (structFields : List StructField) (fields : Fields) : List Task :=
  fields.map fun f =>
    match findField structFields f.1 with
    | some field => .read field.fieldType f.2
    | none => .skip f.2

def structTasks : List (List StructField) → List Fields → List Task
  | structFields :: types, fields :: levels =>
      levelTasks structFields fields ++ structTasks types levels
  | _, _ => []

section

variable (p : Protocol) (types : Nat → StructBondType)

namespace Task

/-- The tasks that are part of a task. A `bonded` is skipped, to be read later. -/
def children : Task → List Task
  | .read (.vector e) (.list _ _ items) => items.map (.read e)
  | .read (.list e) (.list _ _ items) => items.map (.read e)
  | .read (.set e) (.list _ _ items) => items.map (.read e)
  | .read (.nullable e) (.list _ _ items) => items.map (.read e)
  | .read (.map k e) (.map _ _ items) => items.flatMap fun kv => [.read k kv.1, .read e kv.2]
  | .read (.struct index) (.struct s) => structTasks (types index).levels s.levels
  | .read (.struct index) (.bonded s) => structTasks (types index).levels s.levels
  | .read (.bonded _) v => [.skip v]
  | .read _ _ => []
  | .skip v => (p.skipped v).map .skip

/-- A task is about a well-formed value, which is of the type that it is read as. -/
def Valid : Task → Prop
  | .read type v =>
      v.wellFormed encodeString = true ∧ ∃ o, v.asType types p.format type = some o
  | .skip v => v.wellFormed encodeString = true

/-- A task is done right: all that is written for the value is consumed, and what is read is the
    value as an object of the type. -/
def Exact : Task → Prop
  | .read type v => ∀ o, v.asType types p.format type = some o →
      Decodes (deserializeValue p.reader types type) (v.encode p.format) (pure o)
  | .skip v => p.SkipsAsItReads v

/-- A struct that is read has no more levels than its type, and what is skipped fits. -/
def Fits : Task → Prop
  | .read (.struct index) (.struct s) => s.levels.length = (types index).levels.length
  | .read (.struct index) (.bonded s) => s.levels.length = (types index).levels.length
  | .read _ _ => True
  | .skip v => p.SkipFits v

end Task

end

theorem mem_structTasks {Ls : List (List StructField)} {levels : List Fields} {c : Task}
    (hc : c ∈ structTasks Ls levels) :
    ∃ fs ∈ levels, ∃ f ∈ fs, c = .skip f.2 ∨ ∃ type, c = .read type f.2 := by
  induction Ls generalizing levels with
  | nil => simp [structTasks] at hc
  | cons L Ls ih =>
      cases levels with
      | nil => simp [structTasks] at hc
      | cons fs levels =>
          rw [structTasks, List.mem_append] at hc
          rcases hc with hc | hc
          · obtain ⟨f, hf, rfl⟩ := List.mem_map.1 hc
            refine ⟨fs, List.mem_cons_self, f, hf, ?_⟩
            cases findField L f.1 with
            | some field => exact .inr ⟨field.fieldType, rfl⟩
            | none => exact .inl rfl
          · obtain ⟨fs', hfs', f, hf, hc⟩ := ih hc
            exact ⟨fs', List.mem_cons_of_mem fs hfs', f, hf, hc⟩

/-! ## Reading the levels of a type -/

/-- What is written behind the fields of a level, given the levels behind it. -/
def endMarker (F : TwoPass.Format WriterCall Int32) : List Fields → List UInt8
  | [] => F.bytes .writeStructEnd
  | _ :: _ => F.bytes .writeBaseEnd

/-- What is written for the levels of a struct, from some level on. -/
def encodeLevels (F : TwoPass.Format WriterCall Int32) : List Fields → List UInt8
  | [] => []
  | fields :: levels => encodeFields F fields ++ endMarker F levels ++ encodeLevels F levels

theorem encodeBody_baseEnd (F : TwoPass.Format WriterCall Int32) (s : StructValue)
    (fields : Fields) (levels : List Fields) :
    s.encodeBody F ++ F.bytes .writeBaseEnd ++ encodeLevels F (fields :: levels)
      = encodeLevels F (s.levels ++ fields :: levels) := by
  induction s generalizing fields levels with
  | root fields' => rfl
  | derived base fields' ih =>
      have hlevels : (StructValue.derived base fields').levels ++ fields :: levels
          = base.levels ++ fields' :: fields :: levels := by
        simp [StructValue.levels]
      rw [hlevels, ← ih]
      simp only [StructValue.encodeBody, encodeLevels, endMarker, List.append_assoc]

theorem encodeBody_structEnd (F : TwoPass.Format WriterCall Int32) (s : StructValue) :
    s.encodeBody F ++ F.bytes .writeStructEnd = encodeLevels F s.levels := by
  cases s with
  | root fields => simp [StructValue.encodeBody, StructValue.levels, encodeLevels, endMarker]
  | derived base fields =>
      rw [StructValue.levels, ← encodeBody_baseEnd]
      simp [StructValue.encodeBody, encodeLevels, endMarker]

section

variable (reader : TaggedProtocolReader) (onField : BondType → BondDataType → Reader Object)
  (bound : Nat)

/-- A struct is read by the levels of its type. -/
theorem deserializeValueAsBase_eq (T : StructBondType) :
    deserializeValueAsBase reader onField bound T
      = T.levels.mapM fun structFields =>
          deserializeStructFields reader structFields onField bound := by
  induction T with
  | root structFields => simp [deserializeValueAsBase, StructBondType.levels]
  | derived baseStructType structFields ih =>
      simp [deserializeValueAsBase, StructBondType.levels, ih]

end

section

variable {reader : TaggedProtocolReader} {F : TwoPass.Format WriterCall Int32}
  (G : Grammar reader F) {types : Nat → StructBondType}
  {onField : BondType → BondDataType → Reader Object}

/-- A task on a field is done right by the methods that read a field. -/
def Task.DoneAsField (reader : TaggedProtocolReader) (F : TwoPass.Format WriterCall Int32)
    (types : Nat → StructBondType) (onField : BondType → BondDataType → Reader Object) :
    Task → Prop
  | .read type v => ∀ o, v.asType types F type = some o →
      Decodes (onField type v.typeId) (v.encode F) (pure o)
  | .skip v => Decodes (reader.skip v.typeId) (v.encode F) (pure ())

include G

/-- The loop over the fields of a level, up to a marker. -/
theorem Grammar.decodes_readFields {structFields : List StructField} {marker : List UInt8}
    {endType : BondDataType}
    (hmarker : Decodes reader.readFieldBegin marker (pure (endType, 0)))
    (hend : endType = .stop ∨ endType = .stopBase) {fields : Fields} {seen : List UInt16}
    {os : List (UInt16 × Object)} (hos : fieldsAs types F structFields seen fields = some os)
    (htasks : ∀ c ∈ levelTasks structFields fields,
      Task.DoneAsField reader F types onField c)
    {bound : Nat} (hbound : (encodeFields F fields).length < bound) :
    Decodes (readFields reader structFields onField bound seen)
      (encodeFields F fields ++ marker) (pure os) := by
  induction fields generalizing seen os bound with
  | nil =>
      obtain ⟨bound, rfl⟩ : ∃ bound', bound = bound' + 1 := ⟨bound - 1, by omega⟩
      obtain rfl : [] = os := by simpa [fieldsAs] using hos
      rw [encodeFields, List.nil_append, ← List.append_nil marker, readFields]
      refine hmarker.bind_pure ?_
      simp only [if_pos hend]
      exact Decodes.pure []
  | cons f fields ih =>
      obtain ⟨bound, rfl⟩ : ∃ bound', bound = bound' + 1 := ⟨bound - 1, by omega⟩
      obtain ⟨id, v⟩ := f
      have hpos := G.fieldBegin_pos v.typeId id
      have hvalue := v.typeId_isValue
      have hmore : ¬ (v.typeId = .stop ∨ v.typeId = .stopBase) := by
        rintro (hend | hend) <;> rw [hend] at hvalue <;> cases hvalue
      simp only [encodeFields, List.length_append] at hbound
      have htask := htasks _ List.mem_cons_self
      have hrest (c : Task) (hc : c ∈ levelTasks structFields fields) :=
        htasks c (List.mem_cons_of_mem _ hc)
      rw [encodeFields, List.append_assoc, List.append_assoc, readFields]
      refine (G.fieldBegin v.typeId id hvalue).bind_pure ?_
      simp only [if_neg hmore]
      rw [fieldsAs] at hos
      cases hfield : findField structFields id with
      | some field =>
          simp only [hfield] at hos htask ⊢
          split at hos
          · cases hos
          · next hnew =>
              obtain ⟨o, ho, hos⟩ := Option.bind_eq_some_iff.1 hos
              obtain ⟨os', hos', hos⟩ := Option.bind_eq_some_iff.1 hos
              obtain rfl : (id, o) :: os' = os := by simpa using hos
              rw [if_neg hnew]
              refine (htask o ho).bind_pure ?_
              exact (ih hos' hrest (by omega)).bind_return fun os => (id, o) :: os
      | none =>
          simp only [hfield] at hos htask ⊢
          exact Decodes.bind_pure htask (ih hos hrest (by omega))

/-- A level, and its end. -/
theorem Grammar.decodes_deserializeStructFields {structFields : List StructField}
    {fields : Fields} (levels : List Fields) {os : List (UInt16 × Object)}
    (hos : levelAs types F fields structFields = some os)
    (htasks : ∀ c ∈ levelTasks structFields fields,
      Task.DoneAsField reader F types onField c)
    (bound : Nat) (hbound : (encodeFields F fields).length < bound) :
    Decodes (deserializeStructFields reader structFields onField bound)
      (encodeFields F fields ++ endMarker F levels) (pure os) := by
  rw [levelAs] at hos
  obtain ⟨os', hos', hverify⟩ := Option.bind_eq_some_iff.1 hos
  split at hverify
  · next hrequired =>
      obtain rfl : os' = os := by simpa using hverify
      have hmarker : ∃ endType,
          Decodes reader.readFieldBegin (endMarker F levels) (pure (endType, 0)) ∧
            (endType = .stop ∨ endType = .stopBase) := by
        cases levels with
        | nil => exact ⟨_, G.structEnd, .inl rfl⟩
        | cons => exact ⟨_, G.baseEnd, .inr rfl⟩
      obtain ⟨endType, hmarker, hend⟩ := hmarker
      have hread := G.decodes_readFields hmarker hend hos' htasks hbound
      rw [deserializeStructFields, ← List.append_nil (_ ++ _)]
      refine hread.bind_pure ?_
      rw [if_pos hrequired]
      exact Decodes.pure os'
  · cases hverify

/-- As many levels are read as the type has. -/
theorem Grammar.decodes_levels {Ls : List (List StructField)} {levels : List Fields}
    {os : List (List (UInt16 × Object))}
    (hos : matchLevels Ls (levels.map (levelAs types F)) = some os)
    (htasks : ∀ c ∈ structTasks Ls levels, Task.DoneAsField reader F types onField c)
    (bound : Nat) (hbound : (encodeLevels F levels).length < bound) :
    ∃ enc, encodeLevels F levels = enc ++ encodeLevels F (levels.drop Ls.length) ∧
      Decodes (Ls.mapM fun structFields =>
        deserializeStructFields reader structFields onField bound) enc (pure os) := by
  induction Ls generalizing levels os with
  | nil =>
      obtain rfl : [] = os := by simpa [matchLevels] using hos
      exact ⟨[], rfl, Decodes.pure []⟩
  | cons L Ls ih =>
      cases levels with
      | nil => simp [matchLevels] at hos
      | cons fields levels =>
          rw [List.map_cons, matchLevels] at hos
          obtain ⟨o, ho, hos⟩ := Option.bind_eq_some_iff.1 hos
          obtain ⟨os', hos', hos⟩ := Option.bind_eq_some_iff.1 hos
          obtain rfl : o :: os' = os := by simpa using hos
          simp only [structTasks, List.forall_mem_append] at htasks
          simp only [encodeLevels, List.length_append] at hbound
          obtain ⟨enc, henc, hread⟩ := ih hos' htasks.2 (by omega)
          refine ⟨encodeFields F fields ++ endMarker F levels ++ enc, ?_, ?_⟩
          · rw [encodeLevels, henc, List.append_assoc _ enc]
            rfl
          · rw [List.mapM_cons]
            have hlevel := G.decodes_deserializeStructFields levels ho htasks.1 bound (by omega)
            exact hlevel.bind_pure (hread.bind_return fun os => o :: os)

/-- Nothing is left of the levels only if there are no more. -/
theorem Grammar.encodeLevels_drop_eq_nil {levels : List Fields} {k : Nat}
    (h : encodeLevels F (levels.drop k) = []) : levels.length ≤ k := by
  by_contra hlt
  cases hdrop : levels.drop k with
  | nil => exact hlt (List.drop_eq_nil_iff.1 hdrop)
  | cons fields rest =>
      rw [hdrop] at h
      have hlength := congrArg List.length h
      simp only [encodeLevels, List.length_append, List.length_nil] at hlength
      have hend := G.structEnd_pos
      have hbase := G.baseEnd_pos
      cases rest with
      | nil => simp only [endMarker] at hlength; omega
      | cons => simp only [endMarker] at hlength; omega

/-! ## One task after the tasks in it -/

/-- A task is done right, however the depth is bounded. -/
def Task.Done (reader : TaggedProtocolReader) (F : TwoPass.Format WriterCall Int32)
    (types : Nat → StructBondType) : Task → Prop
  | .read type v => ∀ o, v.asType types F type = some o → ∀ fuel, (v.encode F).length < fuel →
      Decodes (deserializeWithin reader types fuel type) (v.encode F) (pure o)
  | .skip v => Decodes (reader.skip v.typeId) (v.encode F) (pure ())

omit G in
theorem Task.Done.asField {c : Task} (h : c.Done reader F types) {fuel : Nat}
    (hfuel : ∀ type v, c = .read type v → (v.encode F).length < fuel) :
    c.DoneAsField reader F types (deserializeField reader (deserializeWithin reader types fuel)) := by
  cases c with
  | skip v => exact h
  | read type v =>
      intro o ho
      have hread := h o ho fuel (hfuel type v rfl)
      have htype := Value.typeId_of_asType ho
      cases type with
      | primitive b =>
          obtain ⟨fuel, rfl⟩ : ∃ fuel', fuel = fuel' + 1 :=
            ⟨fuel - 1, by have := hfuel _ v rfl; omega⟩
          rw [htype]
          simp only [deserializeField, deserializePrimitiveField, BondType.getBondDataType,
            if_true]
          exact hread
      | _ =>
          rw [htype]
          simp only [deserializeField, ne_eq, not_true_eq_false, if_false]
          exact hread

theorem Grammar.decodes_deserializeElements {newDefaultValue : Int32 → Reader Unit}
    (hnew : ∀ n, n < 2 ^ 31 → newDefaultValue (Int32.ofNat n) = pure ()) {e : BondType}
    (kind : ListKind) {items : List Value} (hlen : items.length < 2 ^ 31)
    (hvalue : e.getBondDataType.isValue = true) {os : List Object}
    (hos : itemsAs types F e items = some os)
    (hitems : ∀ v ∈ items, Task.Done reader F types (.read e v)) {fuel : Nat}
    (hfuel : ((Value.list kind e.getBondDataType items).encode F).length < fuel + 1) :
    Decodes (deserializeElements reader newDefaultValue e.getBondDataType
      (deserializeWithin reader types fuel e)) ((Value.list kind e.getBondDataType items).encode F)
      (pure (.collection os)) := by
  rw [deserializeElements, Value.encode]
  refine (G.listBegin items.length e.getBondDataType hlen hvalue).bind_pure ?_
  simp only [ne_eq, not_true_eq_false, if_false, hnew items.length hlen, pure_bind,
    turns_ofNat hlen]
  rw [itemsAs_eq] at hos
  rw [encodeItems_eq]
  refine (Decodes.repeatN_mapM items hos fun v hv o ho => ?_).bind_return Object.collection
  have hlt := G.item_lt kind e.getBondDataType hv
  exact hitems v hv o ho fuel (by omega)

theorem Grammar.decodes_deserializeMap {k e : BondType} {items : List (Value × Value)}
    (hlen : items.length < 2 ^ 31) (hkey : k.getBondDataType.isValue = true)
    (hvalue : e.getBondDataType.isValue = true) {os : List (Object × Object)}
    (hos : pairsAs types F k e items = some os)
    (hitems : ∀ kv ∈ items, Task.Done reader F types (.read k kv.1) ∧
      Task.Done reader F types (.read e kv.2)) {fuel : Nat}
    (hfuel : ((Value.map k.getBondDataType e.getBondDataType items).encode F).length < fuel + 1) :
    Decodes (deserializeMap reader k.getBondDataType e.getBondDataType
      (deserializeWithin reader types fuel k) (deserializeWithin reader types fuel e))
      ((Value.map k.getBondDataType e.getBondDataType items).encode F) (pure (.map os)) := by
  rw [deserializeMap, Value.encode]
  refine (G.mapBegin items.length _ _ hlen hkey hvalue).bind_pure ?_
  simp only [ne_eq, not_true_eq_false, if_false, turns_ofNat hlen]
  rw [pairsAs_eq] at hos
  rw [encodePairs_eq]
  refine (Decodes.repeatN_mapM items hos fun kv hkv ko ho => ?_).bind_return Object.map
  obtain ⟨mapEntryKey, hkey, ho⟩ := Option.bind_eq_some_iff.1 ho
  obtain ⟨mapEntryValue, hvalue, ho⟩ := Option.bind_eq_some_iff.1 ho
  obtain rfl : (mapEntryKey, mapEntryValue) = ko := by simpa using ho
  have hlt := G.pair_lt k.getBondDataType e.getBondDataType hkv
  have hreadKey := (hitems kv hkv).1 mapEntryKey hkey fuel (by omega)
  have hreadValue := (hitems kv hkv).2 mapEntryValue hvalue fuel (by omega)
  exact hreadKey.bind_pure (hreadValue.bind_return fun mapEntryValue =>
    (mapEntryKey, mapEntryValue))

theorem Grammar.decodes_deserializeNullable {e : BondType} {items : List Value}
    (hvalue : e.getBondDataType.isValue = true) {o : Object}
    (ho : Value.asType types F (.nullable e) (.list .list e.getBondDataType items) = some o)
    (hitems : ∀ v ∈ items, Task.Done reader F types (.read e v)) {fuel : Nat}
    (hfuel : ((Value.list .list e.getBondDataType items).encode F).length < fuel + 1) :
    Decodes (deserializeNullable reader e.getBondDataType (deserializeWithin reader types fuel e))
      ((Value.list .list e.getBondDataType items).encode F) (pure o) := by
  rw [deserializeNullable, Value.encode]
  rw [Value.asType, if_pos rfl] at ho
  cases items with
  | nil =>
      obtain rfl : Object.null = o := by simpa [itemsAs] using ho
      refine (G.listBegin 0 e.getBondDataType (by decide) hvalue).bind_pure ?_
      simp only [ne_eq, not_true_eq_false, if_false, encodeItems]
      exact Decodes.pure _
  | cons v items =>
      have hone : items = [] ∧ v.asType types F e = some o := by
        rw [itemsAs] at ho
        cases hv : v.asType types F e with
        | none => simp [hv] at ho
        | some o' =>
            cases items with
            | nil => simpa [hv, itemsAs] using ho
            | cons w items =>
                rw [itemsAs] at ho
                cases hw : w.asType types F e with
                | none => simp [hv, hw] at ho
                | some _ =>
                    cases hrest : itemsAs types F e items with
                    | none => simp [hv, hw, hrest] at ho
                    | some _ => simp [hv, hw, hrest] at ho
      obtain ⟨rfl, hv⟩ := hone
      have hlt := G.item_lt .list e.getBondDataType (List.mem_singleton_self v)
      refine (G.listBegin 1 e.getBondDataType (by decide) hvalue).bind_pure ?_
      simp only [ne_eq, not_true_eq_false, if_false, encodeItems, List.append_nil]
      exact hitems v List.mem_cons_self o hv fuel (by omega)

theorem Grammar.decodes_deserializeBlob {data : List UInt8} (hlen : data.length < 2 ^ 31) :
    Decodes (deserializeBlob reader) ((Value.blob (.basic .int8) data).encode F)
      (pure (.blob data)) := by
  rw [deserializeBlob, Value.encode, G.bytes]
  refine (G.listBegin data.length (.basic .int8) hlen rfl).bind_pure ?_
  simp only [ne_eq, not_true_eq_false, if_false, G.readBytes]
  exact (decodes_readBytes hlen).bind_return Object.blob

omit G in
/-- The clone of a `bonded`'s reader stands at what is skipped. -/
theorem decodes_deserializeBonded {enc : List UInt8}
    (h : Decodes (reader.skip .struct) enc (pure ())) :
    Decodes (deserializeBonded reader) enc (pure (.bonded enc)) := by
  intro s rest hs
  obtain rfl : s = enc ++ rest := hs
  have hrun := h.list_run rest
  have hbonded : (deserializeBonded reader).run (enc ++ rest) = do
      let r ← (reader.skip .struct).run (enc ++ rest)
      return (.bonded ((enc ++ rest).take ((enc ++ rest).length - r.2.length)), r.2) := rfl
  rw [hbonded, hrun]
  show Except.ok (_, rest) = Except.ok (_, (enc ++ rest).drop enc.length)
  rw [List.drop_left, List.length_append, Nat.add_sub_cancel, List.take_left]

/-- A struct is read up to the end of as many levels as its type has. -/
theorem Grammar.decodes_deserializeStruct {s : StructValue} {index : Nat}
    {os : List (List (UInt16 × Object))}
    (hos : matchLevels (types index).levels (s.levelsAs types F) = some os)
    (htasks : ∀ c ∈ structTasks (types index).levels s.levels, c.Done reader F types) :
    ∃ enc, (Value.struct s).encode F
        = enc ++ encodeLevels F (s.levels.drop (types index).levels.length) ∧
      ∀ fuel, ((Value.struct s).encode F).length < fuel →
        Decodes (deserializeWithin reader types fuel (.struct index)) enc (pure (.struct os)) := by
  rw [StructValue.levelsAs_eq] at hos
  have hencode : (Value.struct s).encode F
      = F.lengthBytes (s.length F) ++ encodeLevels F s.levels := by
    rw [Value.encode, encodeBody_structEnd]
  have hlength := congrArg List.length hencode
  rw [List.length_append] at hlength
  have hfield {fuel : Nat} (hfuel : ((Value.struct s).encode F).length < fuel + 1) (c : Task)
      (hc : c ∈ structTasks (types index).levels s.levels) :
      c.DoneAsField reader F types
        (deserializeField reader (deserializeWithin reader types fuel)) := by
    refine (htasks c hc).asField fun type v hv => ?_
    obtain ⟨fs, hfs, f, hf, hskip | ⟨type', hread⟩⟩ := mem_structTasks hc
    · cases hv.symm.trans hskip
    · cases hv.symm.trans hread
      have hlt := G.field_lt hfs hf
      omega
  have hread (fuel : Nat) (hfuel : ((Value.struct s).encode F).length < fuel + 1) :=
    G.decodes_levels hos (hfield hfuel) (fuel + 1) (by omega)
  obtain ⟨enc, henc, -⟩ := hread ((Value.struct s).encode F).length (by omega)
  refine ⟨F.lengthBytes (s.length F) ++ enc, ?_, fun fuel hfuel => ?_⟩
  · rw [hencode, henc, List.append_assoc]
  · obtain ⟨fuel, rfl⟩ : ∃ fuel', fuel = fuel' + 1 := ⟨fuel - 1, by omega⟩
    obtain ⟨enc', henc', hlevels⟩ := hread fuel hfuel
    obtain rfl : enc = enc' := List.append_cancel_right (henc.symm.trans henc')
    rw [deserializeWithin]
    refine (G.structBegin _).bind_pure ?_
    rw [deserializeValueAsBase_eq]
    exact hlevels.bind_return Object.struct

end

end Bond.Java

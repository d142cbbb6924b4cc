import Bond.Cpp.Serializer

set_option autoImplicit false

/-! # Transcoding

The serializer reads exactly the values that the parser hands it, and calls the writer of the other
protocol as it would be called for the values themselves. -/

namespace Bond.Cpp

open Decoder InputBuffer

variable {n : Nat}

/-! ## Payloads of a schema -/

/-- In every struct of a value the ids of the fields increase. -/
inductive Value.Ordered : Value → Prop
  | basic (v : BasicValue) : Ordered (.basic v)
  | list {kind element items} (h : ∀ v ∈ items, Ordered v) : Ordered (.list kind element items)
  | map {key element items} (hkeys : ∀ kv ∈ items, Ordered kv.1) (h : ∀ kv ∈ items, Ordered kv.2) :
      Ordered (.map key element items)
  | struct {s : StructValue} (hs : ∀ fs ∈ s.levels, PayloadIncreasing fs)
      (h : ∀ fs ∈ s.levels, ∀ f ∈ fs, Ordered f.2) : Ordered (.struct s)

/-- Wherever the schema knows a struct of the payload, the payload has a level for each of its
    bases. -/
inductive SchemaDef.Covers (S : SchemaDef n) : TypeDef n → Value → Prop
  | basic {type} (v : BasicValue) : Covers S type (.basic v)
  | list {type kind element items}
      (h : element = type.element.id → ∀ v ∈ items, Covers S type.element v) :
      Covers S type (.list kind element items)
  | map {type key element items}
      (h : element = type.element.id → ∀ kv ∈ items, Covers S type.element kv.2) :
      Covers S type (.map key element items)
  | struct {i bondedType is} {s : StructValue} (hi : S.Hierarchy i is)
      (hlevels : is.length ≤ s.levels.length)
      (h : ∀ p ∈ is.zip s.levels, ∀ field ∈ (S.structs p.1).fields, ∀ f ∈ p.2,
        field.id = f.1 → field.type.id = f.2.typeId → Covers S field.type f.2) :
      Covers S (.struct i bondedType) (.struct s)

/-- A schema of which nothing is known covers everything. -/
theorem unknownSchema_covers : ∀ v : Value, v.wellFormed = true →
    ∀ type : TypeDef 1, (type = unknownType v.typeId ∨ type = .struct 0 false) →
      type.id = v.typeId → unknownSchema.Covers type v := by
  refine wellFormed_induct ?_ ?_ ?_ ?_
  · intro v _ type _ _
    exact .basic v
  · intro kind element items _ _ ih type htype hid
    have helement : type.element = .struct 0 false := by
      rcases htype with rfl | rfl <;> cases kind <;> rfl
    refine .list fun hstruct v hv => ?_
    obtain ⟨hv', _, hcovers⟩ := ih v hv
    rw [helement] at hstruct ⊢
    exact hcovers _ (.inr rfl) (by rw [← hv'] at hstruct; exact hstruct.symm)
  · intro key element items _ _ _ ih type htype hid
    have helement : type.element = .struct 0 false := by
      rcases htype with rfl | rfl <;> rfl
    refine .map fun hstruct kv hkv => ?_
    obtain ⟨-, hv', _, hcovers⟩ := ih kv hkv
    rw [helement] at hstruct ⊢
    exact hcovers _ (.inr rfl) (by rw [← hv'] at hstruct; exact hstruct.symm)
  · intro s _ _ type htype _
    have hstruct : type = .struct 0 false := by
      rcases htype with rfl | rfl <;> rfl
    subst hstruct
    refine .struct (.root rfl) ?_ fun p _ field hfield => absurd hfield List.not_mem_nil
    rw [List.length_singleton, s.levels_length]
    exact s.depth_pos

/-- A field is read as a value that the schema covers. -/
theorem covers_fieldType {S : SchemaDef n} {time time' : SchemaTime} {fields : List (FieldDef n)}
    {id : UInt16} {v : Value} {type : TypeDef n}
    (h : fieldType time fields id v.typeId = some (time', type))
    (hcovers : ∀ field ∈ fields, field.id = id → field.type.id = v.typeId → S.Covers field.type v) :
    S.Covers type v := by
  unfold fieldType at h
  split at h
  · cases h
  · next hT =>
      obtain ⟨x, rfl, -⟩ := Value.eq_basic_of_typeId hT
      exact .basic x
  · next field hfind _ =>
      have hid : field.id = id := by simpa using List.find?_some hfind
      split_ifs at h with htype
      obtain ⟨-, rfl⟩ := Prod.mk.inj (Option.some.inj h)
      exact hcovers field (List.mem_of_find?_eq_some hfind) hid htype

/-! ## One level -/

theorem decodes_skippedBytes {skip : Reader Unit} {enc : List UInt8}
    (h : Decodes skip enc (pure ())) : Decodes (skippedBytes skip) enc (pure enc) := by
  intro b rest hb
  have hskip := h b rest hb
  have htake := take_advance hb
  simp only [skippedBytes, StateT.run_bind, StateT.run_get, pure_bind] at hskip ⊢
  rw [hskip]
  simp only [pure_bind, StateT.run_pure, htake]

section

variable {P : TaggedProtocol} {pass : Bool} {S : SchemaDef n} {time : SchemaTime}
  {write : ∀ n, SchemaDef n → SchemaTime → TypeDef n → Reader (List WriterCall)}

theorem runsTo_writeField {id : UInt16} {type : BondDataType} {write : Reader (List WriterCall)}
    {v : Value} (htype : type = v.typeId)
    (h : Decodes write (v.encode P.writer) (pure (v.transcoded P.writer pass)))
    (calls : List WriterCall) :
    RunsTo (writeField id type write) calls (v.encode P.writer) ()
      (calls ++ fieldTranscoded P.writer pass (id, v)) := by
  subst htype
  have hcalls : calls ++ fieldTranscoded P.writer pass (id, v) =
      (calls ++ [.writeFieldBegin v.typeId id]) ++ v.transcoded P.writer pass := by
    rw [fieldTranscoded, List.append_assoc, List.singleton_append]
  rw [hcalls]
  exact RunsTo.nil_bind (RunsTo.modify _ calls)
    ((RunsTo.lift h _).bind_nil (RunsTo.modify _ _))

variable (write S time) in
theorem serializerFields_takesFields (base : Bool) :
    (serializerFields write S time base).TakesFields time
      (fun time' id type => writeField id type.id (write n S time' type))
      fun id type => writeField id type (writeUnknown write type) where
  nonBasicTypeField _ := rfl
  basicTypeField _ _ _ := rfl
  unknownField _ _ := rfl
  omittedField _ := rfl

/-- What `Write` does for the fields of a level that the schema knows. -/
def KnownFields (P : TaggedProtocol) (pass : Bool)
    (write : ∀ n, SchemaDef n → SchemaTime → TypeDef n → Reader (List WriterCall))
    (S : SchemaDef n) (time : SchemaTime) (i : Fin n) (fs : Fields) : Prop :=
  ∀ f ∈ fs, ∀ time' type, fieldType time (S.structs i).fields f.1 f.2.typeId = some (time', type) →
    Decodes (write n S time' type) (f.2.encode P.writer) (pure (f.2.transcoded P.writer pass))

/-- What `Write` does for fields that the schema does not know. -/
def UnknownFields (P : TaggedProtocol) (pass : Bool)
    (write : ∀ n, SchemaDef n → SchemaTime → TypeDef n → Reader (List WriterCall)) (fs : Fields) :
    Prop :=
  ∀ f ∈ fs, Decodes (writeUnknown write f.2.typeId) (f.2.encode P.writer)
    (pure (f.2.transcoded P.writer pass))

theorem foldl_append_flatMap {α β : Type} (f : α → List β) (xs : List α) (ys : List β) :
    xs.foldl (fun ys x => ys ++ f x) ys = ys ++ xs.flatMap f := by
  induction xs generalizing ys with
  | nil => rw [List.foldl_nil, List.flatMap_nil, List.append_nil]
  | cons x xs ih => rw [List.foldl_cons, ih, List.flatMap_cons, List.append_assoc]

/-- One level of a struct. -/
theorem runsTo_serializerLevel {i : Fin n} (k : Nat) (base : Bool) {fs : Fields}
    {rest : List Fields} (hfs : PayloadIncreasing fs)
    (hknown : KnownFields P pass write S time i fs)
    (hunknown : ∀ fs' ∈ fs :: if base then [] else rest, UnknownFields P pass write fs')
    (calls : List WriterCall) :
    RunsTo (readFields P.reader (serializer P.reader write S time k base) time base
        (S.structs i).fields) calls (levelPayload P.writer base fs rest) (base && rest.isEmpty)
      (calls ++ fieldsTranscoded P.writer pass fs
        ++ if base then [] else restTranscoded P.writer pass rest) := by
  have htakes := serializerFields_takesFields S time write base
  have hevents := htakes.handles_fields (W := P.writer) (S.structs i).increasing hfs
    (fun calls p => calls ++ fieldTranscoded P.writer pass p) (fun p hp t => by
      unfold fieldCall
      cases hfield : fieldType time (S.structs i).fields p.1 p.2.typeId with
      | none => exact runsTo_writeField rfl (hunknown fs List.mem_cons_self p hp) t
      | some d => exact runsTo_writeField (fieldType_id hfield) (hknown p hp d.1 d.2 hfield) t) calls
  have hend (t : List WriterCall) :
      RunsTo (serializerFields write S time base).unknownEnd t ([] : List UInt8) ()
        (t ++ [.writeStructEnd true]) :=
    RunsTo.modify (· ++ [WriterCall.writeStructEnd true]) t
  have hrest := htakes.handles_rest (W := P.writer) base rest
    (fun calls p => calls ++ fieldTranscoded P.writer pass p)
    (fun calls => calls ++ [.writeStructEnd true])
    (fun hbase fs' hfs' p hp t => by
      rw [hbase] at hunknown
      exact runsTo_writeField rfl (hunknown fs' (List.mem_cons_of_mem fs hfs') p hp) t)
    hend (calls ++ fieldsTranscoded P.writer pass fs)
  simp only [foldl_append_flatMap, ← fieldsTranscoded_eq] at hevents hrest
  have hstate : (if base then calls ++ fieldsTranscoded P.writer pass fs
      else rest.foldl (fun t fs => t ++ [.writeStructEnd true] ++ fieldsTranscoded P.writer pass fs)
        (calls ++ fieldsTranscoded P.writer pass fs)) =
      calls ++ fieldsTranscoded P.writer pass fs
        ++ if base then [] else restTranscoded P.writer pass rest := by
    cases base with
    | true => simp
    | false =>
        simp only [Bool.false_eq_true, if_false, List.append_assoc, foldl_append_flatMap,
          restTranscoded, List.singleton_append]
  rw [hstate] at hrest
  refine runsTo_readFields P time base (S.structs i).fields fs rest ?_
  cases k <;> exact (hevents.append hrest).withBase _

/-! ## Hierarchies -/

/-- What the serializer has called when it is through with a struct: `front` are the levels of the
    bases in the schema, and `rest` those that the schema does not have. -/
def levelsTranscoded (W : ProtocolWriter) (pass base : Bool) (front : List Fields) (fs : Fields)
    (rest : List Fields) : List WriterCall :=
  (if base then [] else [.writeStructBegin false]) ++ basesTranscoded W pass front
    ++ fieldsTranscoded W pass fs ++ (if base then [] else restTranscoded W pass rest)
    ++ [.writeStructEnd base]

/-- A struct, level by level. -/
theorem runsTo_serializer {i : Fin n} {is : List (Fin n)} (hi : S.Hierarchy i is) {k : Nat}
    (hk : is.length ≤ k + 1) {bound : Nat} (hbound : 0 < bound) (base : Bool)
    {front : List Fields} {fs : Fields} {rest : List Fields} (hfront : front.length + 1 = is.length)
    (hfs : ∀ gs ∈ front ++ fs :: rest, PayloadIncreasing gs)
    (hknown : ∀ p ∈ is.zip (front ++ fs :: rest), KnownFields P pass write S time p.1 p.2)
    (hunknown : ∀ gs ∈ front ++ fs :: (if base then [] else rest), UnknownFields P pass write gs)
    (calls : List WriterCall) :
    ∃ done, RunsTo (readSchema P.reader (serializer P.reader write S time k base) S time base bound i)
      calls (levelsRead P.writer base is.length (front ++ fs :: rest)) done
      (calls ++ levelsTranscoded P.writer pass base front fs rest) := by
  have hdepth := hi.schemaDepth
  have hnot (k : Nat) (base : Bool) (depth : UInt16) :
      ¬ depth > (serializer P.reader write S time k base).expectedDepth := by
    have hmax : (serializer P.reader write S time k base).expectedDepth = 0xffff := by
      cases k <;> rfl
    rw [hmax]
    exact not_depth_gt_max depth
  have hbegin (k : Nat) (base : Bool) (metadata : Metadata) (calls : List WriterCall) :
      RunsTo ((serializer P.reader write S time k base).begin_ metadata) calls ([] : List UInt8) ()
        (calls ++ if base then [] else [.writeStructBegin false]) := by
    cases k <;> exact RunsTo.modify _ calls
  have hend (k : Nat) (base : Bool) (calls : List WriterCall) :
      RunsTo (serializer P.reader write S time k base).end_ calls ([] : List UInt8) ()
        (calls ++ [.writeStructEnd base]) := by
    cases k <;> exact RunsTo.modify _ calls
  induction hi generalizing k base bound front fs rest calls with
  | @root i hnone =>
      obtain rfl : front = [] := List.length_eq_zero_iff.1 (by simpa using hfront)
      have hbase := runsTo_base_none hnone (serializer P.reader write S time k base).base
        (calls ++ if base then [] else [.writeStructBegin false])
      have hlevel := runsTo_serializerLevel k base (hfs fs List.mem_cons_self)
        (hknown (i, fs) List.mem_cons_self) hunknown
        (calls ++ if base then [] else [.writeStructBegin false])
      have hread := Cpp.runsTo_readSchema hbound hdepth (hnot k base _) (hbegin k base _ calls) hbase
        hlevel (hend k base _)
      have henc := levelsRead_succ P.writer base [] fs rest
      rw [List.length_nil, Nat.zero_add, List.nil_append] at henc
      refine ⟨base && rest.isEmpty, ?_⟩
      rw [List.nil_append, List.length_singleton, henc, encodeFirst, levelsTranscoded,
        basesTranscoded, List.flatMap_nil, List.append_nil]
      simp only [← List.append_assoc]
      exact hread
  | @derived i j js hsome hj ih =>
      rw [List.length_append, List.length_singleton] at hk hdepth hfront ⊢
      have hpos := hj.length_pos
      obtain ⟨k, rfl⟩ : ∃ k', k = k' + 1 := ⟨k - 1, by omega⟩
      obtain ⟨front, gs, rfl⟩ : ∃ front' gs, front = front' ++ [gs] := by
        rcases List.eq_nil_or_concat front with rfl | ⟨front', gs, rfl⟩
        · rw [List.length_nil] at hfront
          omega
        · exact ⟨front', gs, List.concat_eq_append⟩
      have hlength : (front ++ [gs]).length = js.length := Nat.succ.inj hfront
      have hmem {fs' : Fields} (h : fs' ∈ fs :: rest) : fs' ∈ front ++ [gs] ++ fs :: rest :=
        List.mem_append_right _ h
      rw [zip_append_cons i fs rest hlength.symm] at hknown
      -- the level of the base is followed by the one that was the last
      have hlevels : front ++ [gs] ++ fs :: rest = front ++ gs :: fs :: rest := by simp
      have hincreasing : ∀ fs' ∈ front ++ gs :: fs :: rest, PayloadIncreasing fs' := by
        rwa [← hlevels]
      obtain ⟨done, hbelow⟩ := ih (by omega : js.length ≤ k + 1) (Fin.pos i) true
        (by simpa using hlength) hincreasing
        (fun p hp => hknown p (List.mem_append_left _ (by rwa [hlevels])))
        (fun gs' h => hunknown gs' (List.mem_append_left _ h))
        (calls ++ if base then [] else [.writeStructBegin false]) hj.schemaDepth
      have hstart := RunsTo.lift P.decodes_structBegin_base
        (calls ++ if base then [] else [WriterCall.writeStructBegin false])
      have hderived : RunsTo ((serializer P.reader write S time (k + 1) base).base j)
          (calls ++ if base then [] else [.writeStructBegin false])
          (levelsRead P.writer true js.length (front ++ gs :: fs :: rest)) false
          ((calls ++ if base then [] else [.writeStructBegin false]) ++
            levelsTranscoded P.writer pass true front gs (fs :: rest)) := by
        rw [serializer]
        exact (hstart.nil_bind hbelow).bind_nil (RunsTo.pure false _)
      have hbase := runsTo_base_some hsome (serializer P.reader write S time (k + 1) base).base
        hderived
      have hlevel := runsTo_serializerLevel (k + 1) base (hfs fs (hmem List.mem_cons_self))
        (hknown (i, fs) (by simp)) (fun fs' h => hunknown fs' (List.mem_append_right _ h))
        ((calls ++ if base then [] else [.writeStructBegin false]) ++
            levelsTranscoded P.writer pass true front gs (fs :: rest))
      have hread := Cpp.runsTo_readSchema hbound hdepth (hnot (k + 1) base _)
        (hbegin (k + 1) base _ calls) hbase hlevel (hend (k + 1) base _)
      refine ⟨base && rest.isEmpty, ?_⟩
      have henc := levelsRead_succ P.writer base (front ++ [gs]) fs rest
      rw [← hlevels] at hread
      rw [hlength] at henc
      rw [henc, levelsTranscoded, basesTranscoded_append]
      simp only [levelsTranscoded, levelsRead, if_true, List.append_assoc, List.nil_append] at hread ⊢
      exact hread

end

/-! ## All values -/

theorem levelsRead_false (W : ProtocolWriter) (d : Nat) (s : StructValue) :
    levelsRead W false d s.levels = s.encodeBody W ++ stopBytes false := by
  rw [levelsRead, if_neg Bool.false_ne_true, encodeLevels_levels]

/-- What `Write` does on a value of a schema that covers it. -/
def Transcodes (P : TaggedProtocol) (pass : Bool)
    (write : ∀ n, SchemaDef n → SchemaTime → TypeDef n → Reader (List WriterCall)) (v : Value) :
    Prop :=
  ∀ (n : Nat) (S : SchemaDef n) (time : SchemaTime) (type : TypeDef n), type.id = v.typeId →
    S.Covers type v → Decodes (write n S time type) (v.encode P.writer)
      (pure (v.transcoded P.writer pass))

section

variable {P : TaggedProtocol} {pass : Bool} {S : SchemaDef n} {time : SchemaTime}
  {write : ∀ n, SchemaDef n → SchemaTime → TypeDef n → Reader (List WriterCall)}

theorem unknownType_id {type : BondDataType} (h : type.isValue = true) :
    (unknownType type).id = type := by
  cases type <;> first | rfl | cases h

theorem Transcodes.unknown {v : Value} (h : Transcodes P pass write v) (hwf : v.wellFormed = true) :
    Decodes (writeUnknown write v.typeId) (v.encode P.writer)
      (pure (v.transcoded P.writer pass)) := by
  have hid := unknownType_id v.typeId_isValue
  exact h 1 unknownSchema .runtime _ hid (unknownSchema_covers v hwf _ (.inl rfl) hid)

/-- An element is written by the type in the payload. -/
theorem Transcodes.element {element : TypeDef n} {type : BondDataType} {v : Value}
    (h : Transcodes P pass write v) (hwf : v.wellFormed = true) (htype : v.typeId = type)
    (hcovers : type = element.id → S.Covers element v) :
    Decodes (writeElement write S time element type) (v.encode P.writer)
      (pure (v.transcoded P.writer pass)) := by
  subst htype
  have hbasic (T : BasicType) (hT : v.typeId = .basic T) :
      Decodes (write n S .compileTime (.basic T)) (v.encode P.writer)
        (pure (v.transcoded P.writer pass)) := by
    obtain ⟨x, rfl, -⟩ := Value.eq_basic_of_typeId hT
    exact h n S .compileTime (.basic T) hT.symm (.basic x)
  have hother : Decodes (if v.typeId = element.id then write n S time element
      else writeUnknown write v.typeId) (v.encode P.writer)
        (pure (v.transcoded P.writer pass)) := by
    split_ifs with hid
    · exact h n S time element hid.symm (hcovers hid)
    · exact h.unknown hwf
  unfold writeElement
  cases htype : v.typeId with
  | basic T => exact hbasic T htype
  | _ => simpa only [htype] using hother

/-- `Apply` of the serializer to a struct of another protocol. -/
theorem decodes_serializeStruct {i : Fin n} {is : List (Fin n)} (hi : S.Hierarchy i is)
    {s : StructValue} (hlevels : is.length ≤ s.levels.length)
    (hs : ∀ fs ∈ s.levels, PayloadIncreasing fs) (hwf : s.wellFormed = true)
    (hknown : ∀ p ∈ is.zip s.levels, KnownFields P pass write S time p.1 p.2)
    (hunknown : ∀ fs ∈ s.levels, UnknownFields P pass write fs) :
    Decodes (serializeStruct P.reader pass write S time false i) ((Value.struct s).encode P.writer)
      (pure ((Value.struct s).transcoded P.writer pass)) := by
  rw [serializeStruct, Value.transcoded]
  cases pass with
  | true =>
      have hskip := P.decodes_skip (.struct s) (by rwa [Value.wellFormed])
      exact (decodes_skippedBytes hskip).bind_return fun bytes => [WriterCall.writeRange bytes]
  | false =>
      have hpos := hi.length_pos
      obtain ⟨front, fs, rest, hsplit, hfront⟩ := exists_split
        (show is.length - 1 < s.levels.length by omega)
      rw [hsplit] at hs hknown hunknown
      obtain ⟨done, hread⟩ := runsTo_serializer hi (Nat.le_succ_of_le hi.length_le) (Fin.pos i) false
        (by omega) hs hknown hunknown []
      have hstart := RunsTo.lift (P.decodes_structBegin
        (UInt32.ofNat (s.encodeBody P.writer ++ stopBytes false).length)) ([] : List WriterCall)
      have happly : RunsTo (applyParser P.reader (serializer P.reader write S time n false) S time
          false i) [] _ done _ := hstart.bind hread
      have hcalls : ([] : List WriterCall) ++ levelsTranscoded P.writer false false front fs rest =
          .writeStructBegin false :: (s.bodyTranscoded P.writer false ++ [.writeStructEnd false]) := by
        rw [bodyTranscoded_eq P.writer false s hsplit, levelsTranscoded]
        simp
      rw [hcalls, ← hsplit, levelsRead_false] at happly
      rw [encode_struct]
      simp only [Bool.false_eq_true, if_false]
      exact Decodes.bind_return happly fun result => result.2

end

/-- `Serializer::Write` of a serialized value. -/
theorem decodes_serializeWithin (P : TaggedProtocol) (pass : Bool) : ∀ v : Value,
    v.wellFormed = true → v.Ordered → ∀ fuel, (v.encode P.writer).length < fuel →
      Transcodes P pass (serializeWithin P.reader pass fuel) v := by
  refine wellFormed_induct ?_ ?_ ?_ ?_
  · intro v hv _ fuel hfuel n S time type hid _
    obtain ⟨fuel, rfl⟩ : ∃ fuel', fuel = fuel' + 1 := ⟨fuel - 1, by omega⟩
    obtain rfl : type = .basic v.type := by
      cases type <;> simp_all [Value.typeId, TypeDef.id]
    rw [serializeWithin, Value.encode, Value.transcoded]
    exact (P.decodes_read v hv).bind_return fun v => [WriterCall.write v]
  · intro kind element items hlen helement ih hordered fuel hfuel n S time type hid hcovers
    obtain ⟨fuel, rfl⟩ : ∃ fuel', fuel = fuel' + 1 := ⟨fuel - 1, by omega⟩
    have hpos := P.writer.containerBegin_pos (UInt32.ofNat items.length) element
    rw [Value.encode, List.length_append] at hfuel
    have hheader := P.decodes_containerBegin (UInt32.ofNat items.length) element helement
    rw [UInt32.toNat_ofNat_of_lt' hlen] at hheader
    cases hordered with
    | list hordered =>
    cases hcovers with
    | list hcovers =>
    have hitems : Decodes (repeatN items.length
          (writeElement (serializeWithin P.reader pass fuel) S time type.element element))
        (encodeItems P.writer items) (pure (items.map (Value.transcoded P.writer pass))) := by
      rw [encodeItems_eq]
      refine Decodes.repeatN_pure items fun v hv => ?_
      obtain ⟨htype, hwf, hwrites⟩ := ih v hv
      have hle := encode_item_length_le P.writer hv
      exact (hwrites (hordered v hv) fuel (by omega)).element hwf htype fun h => hcovers h v hv
    rw [Value.encode, Value.transcoded, itemsTranscoded_eq, List.flatMap]
    cases kind <;> cases type <;>
      first
      | exact hheader.bind_pure (hitems.bind_return fun items =>
          WriterCall.writeContainerBegin _ element :: items.flatten)
      | cases hid
  · intro key element items hlen hkey helement ih hordered fuel hfuel n S time type hid hcovers
    obtain ⟨fuel, rfl⟩ : ∃ fuel', fuel = fuel' + 1 := ⟨fuel - 1, by omega⟩
    have hpos := P.writer.containerBeginPair_pos (UInt32.ofNat items.length) key element
    rw [Value.encode, List.length_append] at hfuel
    have hheader := P.decodes_containerBeginPair (UInt32.ofNat items.length) key element
      (BondDataType.isValue_of_isBasic hkey) helement
    rw [UInt32.toNat_ofNat_of_lt' hlen] at hheader
    cases hordered with
    | map _ hordered =>
    cases hcovers with
    | map hcovers =>
    obtain ⟨K, rfl⟩ : ∃ K, key = .basic K := by
      cases key <;> first | exact ⟨_, rfl⟩ | cases hkey
    have hitems : Decodes (repeatN items.length (do
          let k ← P.reader.read K
          let calls ← writeElement (serializeWithin P.reader pass fuel) S time type.element element
          return .write k :: calls)) (encodePairs P.writer items)
        (pure (items.map fun kv => kv.1.transcoded P.writer pass ++ kv.2.transcoded P.writer pass)) := by
      rw [encodePairs_eq]
      refine Decodes.repeatN_pure items fun kv hkv => ?_
      obtain ⟨⟨hk, hkwf, -⟩, htype, hwf, hwrites⟩ := ih kv hkv
      obtain ⟨x, hx, rfl⟩ := Value.eq_basic_of_typeId hk
      have hle := encode_pair_length_le P.writer hkv
      have hread := P.decodes_read x (by simpa [hx, Value.wellFormed] using hkwf)
      have helem : Decodes (writeElement (serializeWithin P.reader pass fuel) S time type.element
          element) _ _ :=
        (hwrites (hordered kv hkv) fuel (by omega)).element hwf htype fun h => hcovers h kv hkv
      rw [hx, Value.encode, Value.transcoded]
      exact hread.bind_pure (helem.bind_return fun calls => WriterCall.write x :: calls)
    rw [Value.encode, Value.transcoded, pairsTranscoded_eq, List.flatMap]
    cases type with
    | map k e =>
        rw [serializeWithin]
        exact hheader.bind_pure (hitems.bind_return fun items =>
          WriterCall.writeContainerBeginPair _ (.basic K) element :: items.flatten)
    | _ => cases hid
  · intro s hs ih hordered fuel hfuel n S time type hid hcovers
    obtain ⟨fuel, rfl⟩ : ∃ fuel', fuel = fuel' + 1 := ⟨fuel - 1, by omega⟩
    cases hordered with
    | struct hincreasing hordered =>
    cases hcovers with
    | struct hi hlevels hcovers =>
    have hwrites {fs : Fields} (hfs : fs ∈ s.levels) {f : UInt16 × Value} (hf : f ∈ fs) :
        Transcodes P pass (serializeWithin P.reader pass fuel) f.2 := by
      have hlt := field_encode_length_lt P.writer hfs hf
      exact (ih fs hfs f hf).2 (hordered fs hfs f hf) fuel (by omega)
    rw [serializeWithin]
    refine decodes_serializeStruct hi hlevels hincreasing hs (fun p hp f hf time' type htype => ?_)
      fun fs hfs f hf => (hwrites hfs hf).unknown (ih fs hfs f hf).1
    refine hwrites (List.of_mem_zip hp).2 hf n S time' type (fieldType_id htype) ?_
    exact covers_fieldType htype (hcovers p hp · · f hf)

end Bond.Cpp

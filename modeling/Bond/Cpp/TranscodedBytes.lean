import Bond.Cpp.DeserializeExact
import Bond.Cpp.RoundTrip
import Bond.Cpp.Transcoding

set_option autoImplicit false

/-! # From one tagged protocol to another

A payload that goes through the serializer comes out as the writer of the other protocol would have
written the values in it, and so it is read as the same value. -/

namespace Bond.Cpp

open Decoder Hereditary

variable {n m : Nat}

/-! ## What a writer makes of the calls -/

/-- The begin of a base, for which no tagged protocol writes anything. -/
def WriterCall.isBaseBegin (c : WriterCall) : Bool :=
  c = .writeStructBegin true

/-- The calls for a struct of another protocol are those for the struct itself. -/
theorem bodyTranscoded_eq_calls (W : ProtocolWriter) (s : StructValue)
    (h : ∀ fs ∈ s.levels, ∀ f ∈ fs,
      f.2.transcoded W false = f.2.calls.filter fun c => !c.isBaseBegin) :
    s.bodyTranscoded W false = s.bodyCalls.filter fun c => !c.isBaseBegin := by
  have hfields (fs : Fields) (hfs : fs ∈ s.levels) :
      fieldsTranscoded W false fs = (fieldsCalls fs).filter fun c => !c.isBaseBegin := by
    rw [fieldsTranscoded_eq, fieldsCalls_eq, List.filter_flatMap]
    refine List.flatMap_congr fun f hf => ?_
    rw [fieldTranscoded, h fs hfs f hf]
    rfl
  induction s with
  | root fields => exact hfields fields (by simp [StructValue.levels])
  | derived base fields ih =>
      have hbase := ih (fun fs hfs => h fs (by simp [StructValue.levels, hfs]))
        (fun fs hfs => hfields fs (by simp [StructValue.levels, hfs]))
      have hlast := hfields fields (by simp [StructValue.levels])
      simp [StructValue.bodyTranscoded, StructValue.bodyCalls, hbase, hlast, List.filter_append,
        WriterCall.isBaseBegin]

theorem transcoded_eq_calls (W : ProtocolWriter) : ∀ v : Value,
    v.transcoded W false = v.calls.filter fun c => !c.isBaseBegin := by
  refine value_induct ?_ ?_ ?_ ?_ ?_
  · intro v
    rfl
  · intro kind element items ih
    have hitems : itemsTranscoded W false items =
        (itemsCalls items).filter fun c => !c.isBaseBegin := by
      rw [itemsTranscoded_eq, itemsCalls_eq, List.filter_flatMap]
      exact List.flatMap_congr ih
    rw [Value.transcoded, Value.calls, hitems]
    rfl
  · intro key element items ih
    have hpairs : pairsTranscoded W false items =
        (pairsCalls items).filter fun c => !c.isBaseBegin := by
      rw [pairsTranscoded_eq, pairsCalls_eq, List.filter_flatMap]
      refine List.flatMap_congr fun kv hkv => ?_
      rw [(ih kv hkv).1, (ih kv hkv).2, List.filter_append]
    rw [Value.transcoded, Value.calls, hpairs]
    rfl
  · intro s ih
    have hbody := bodyTranscoded_eq_calls W s ih
    simp [Value.transcoded, Value.calls, hbody, List.filter_append, WriterCall.isBaseBegin]
  · intro payload
    rfl

/-- Steps that leave the state as it is can be left out. -/
theorem foldlM_filter {σ α : Type} {step : σ → α → Option σ} {p : α → Bool}
    (h : ∀ s c, p c = false → step s c = some s) (cs : List α) (s : σ) :
    (cs.filter p).foldlM step s = cs.foldlM step s := by
  induction cs generalizing s with
  | nil => rfl
  | cons c cs ih =>
      cases hc : p c with
      | true =>
          rw [List.filter_cons_of_pos hc, List.foldlM_cons, List.foldlM_cons]
          exact congrArg (step s c).bind (funext ih)
      | false =>
          rw [List.filter_cons_of_neg (by simp [hc]), List.foldlM_cons, h s c hc, ih]
          rfl

/-! ## Protocols -/

/-- The tagged protocols of the library -/
inductive TaggedBinary where
  | compact (version : CompactBinary.Version)
  | fast
deriving DecidableEq, Repr

namespace TaggedBinary

def protocol : TaggedBinary → TaggedProtocol
  | compact version => compactBinary version
  | fast => fastBinary

/-- What the writer has written after two passes with the calls of each, if it needs two: the second
    takes the lengths that the first has recorded. -/
def writeCalls (target : TaggedBinary) (first calls : List WriterCall) : Option (List UInt8) :=
  match target with
  | compact .v2 => do
      let pass0 ← CompactBinary.Pass0.init.run first
      let pass1 ← CompactBinary.Pass1.run ⟨[], pass0.lengths⟩ calls
      return pass1.output
  | compact .v1 => some (outputBytes (calls.flatMap (CompactBinary.writer .v1).callOutput))
  | fast => some (FastBinary.writeCalls calls)

theorem writeCalls_calls (target : TaggedBinary) (v : Value) :
    target.writeCalls v.calls v.calls = some (v.encode target.protocol.writer) := by
  cases target with
  | fast => exact congrArg some (FastBinary.writeCalls_calls v)
  | compact version =>
      have hcalls := CompactBinary.writeCalls_calls version v
      cases version with
      | v1 => exact hcalls
      | v2 =>
          rw [CompactBinary.writeCalls, if_pos rfl, CompactBinary.doublePass] at hcalls
          show writeCalls (compact .v2) v.calls v.calls = some (v.encode (CompactBinary.writer .v2))
          simpa [writeCalls, Option.map_bind, Option.bind_map, Function.comp_def] using hcalls

/-- It does not matter where a base begins. -/
theorem writeCalls_filter (target : TaggedBinary) (calls : List WriterCall) :
    target.writeCalls (calls.filter fun c => !c.isBaseBegin) (calls.filter fun c => !c.isBaseBegin) =
      target.writeCalls calls calls := by
  have hbase {c : WriterCall} (h : (!c.isBaseBegin) = false) : c = .writeStructBegin true := by
    simpa [WriterCall.isBaseBegin] using h
  have houtput (P : ProtocolWriter) :
      (calls.filter fun c => !c.isBaseBegin).flatMap P.callOutput = calls.flatMap P.callOutput := by
    induction calls with
    | nil => rfl
    | cons c calls ih =>
        cases hc : c.isBaseBegin with
        | true =>
            obtain rfl := hbase (congrArg not hc)
            exact ih
        | false => rw [List.filter_cons_of_pos (by simp [hc]), List.flatMap_cons, ih, List.flatMap_cons]
  have hpass0 (st : CompactBinary.Pass0) :
      st.run (calls.filter fun c => !c.isBaseBegin) = st.run calls :=
    foldlM_filter (fun st c hc => by rw [hbase hc]; rfl) calls st
  have hpass1 (st : CompactBinary.Pass1) :
      st.run (calls.filter fun c => !c.isBaseBegin) = st.run calls :=
    foldlM_filter (fun st c hc => by rw [hbase hc]; rfl) calls st
  rcases target with (_ | _) | _
  · exact congrArg (fun calls => some (outputBytes calls)) (houtput _)
  · simp only [writeCalls, hpass0, hpass1]
  · exact congrArg (fun calls => some (outputBytes calls)) (houtput _)

/-- A blob goes through both passes as it is. -/
theorem writeCalls_range (target : TaggedBinary) (bytes : List UInt8) :
    target.writeCalls [.writeRange bytes] [.writeRange bytes] = some bytes := by
  have hrange (P : ProtocolWriter) : outputBytes (P.callOutput (.writeRange bytes)) = bytes := by
    simp [ProtocolWriter.callOutput, outputBytes, OutputCall.bytes]
  rcases target with (_ | _) | _
  · exact congrArg some ((congrArg outputBytes (List.flatMap_singleton _ _)).trans (hrange _))
  · simp [writeCalls, CompactBinary.Pass0.run, CompactBinary.Pass0.step, CompactBinary.Pass1.run,
      CompactBinary.Pass1.step, hrange]
  · exact congrArg some ((congrArg outputBytes (List.flatMap_singleton _ _)).trans (hrange _))

end TaggedBinary

/-! ## Transcoding -/

/-- `Serialize` of a `bonded`. For a writer with two passes the payload is parsed twice, each time
    from a copy of the reader, as it is where the payload begins. -/
def transcode (source target : TaggedBinary) (S : SchemaDef n) (time : SchemaTime) (i : Fin n) :
    Reader (Option (List UInt8)) := do
  let b ← get
  let serialize := serializeValue source.protocol.reader (source = target) S time (.struct i false)
  let first ← serialize
  if target = .compact .v2 then
    set b
    let calls ← serialize
    return target.writeCalls first calls
  else
    return target.writeCalls first first

section

variable {S : SchemaDef n} {time : SchemaTime} {i : Fin n} {s : StructValue}

theorem decodes_serializeValue (P : TaggedProtocol) (pass : Bool) {type : TypeDef n} {v : Value}
    (hwf : v.wellFormed = true) (hordered : v.Ordered) (htype : type.id = v.typeId)
    (hcovers : S.Covers type v) :
    Decodes (serializeValue P.reader pass S time type) (v.encode P.writer)
      (pure (v.transcoded P.writer pass)) := by
  refine InputBuffer.decodes_remainingLength fun left hleft => ?_
  exact decodes_serializeWithin P pass v hwf hordered (left + 1) (Nat.lt_succ_of_le hleft) n S time
    type htype hcovers

/-- A program that may go back to where it began, and then reads the same again. -/
theorem decodes_again {α β : Type} {op : Reader α} {enc : List UInt8} {a : α} (again : Prop)
    [Decidable again] (next : α → α → β) (h : Decodes op enc (pure a)) :
    Decodes (do
        let b ← get
        let first ← op
        if again then
          set b
          let a ← op
          return next first a
        else
          return next first first) enc (pure (next a a)) := by
  intro b rest hb
  have hop := h b rest hb
  simp only [pure_bind] at hop ⊢
  by_cases hagain : again <;>
    simp only [hagain, if_true, if_false, StateT.run_bind, StateT.run_get, StateT.run_set, pure_bind,
      hop, StateT.run_pure]

/-- The payload comes out as the other writer writes the value. -/
theorem decodes_transcode (source target : TaggedBinary) (hwf : s.wellFormed = true)
    (hordered : (Value.struct s).Ordered) (hcovers : S.Covers (.struct i false) (.struct s)) :
    Decodes (transcode source target S time i) ((Value.struct s).encode source.protocol.writer)
      (pure (some ((Value.struct s).encode target.protocol.writer))) := by
  have hcalls : Decodes (serializeValue source.protocol.reader (source = target) S time
      (.struct i false)) _ _ :=
    decodes_serializeValue source.protocol (source = target) (by rwa [Value.wellFormed]) hordered rfl
      hcovers
  have hbytes : target.writeCalls
      ((Value.struct s).transcoded source.protocol.writer (source = target))
      ((Value.struct s).transcoded source.protocol.writer (source = target)) =
        some ((Value.struct s).encode target.protocol.writer) := by
    by_cases hsame : source = target
    · subst hsame
      simp only [decide_true, Value.transcoded, if_true]
      exact source.writeCalls_range _
    · simp only [hsame, decide_false]
      rw [transcoded_eq_calls, target.writeCalls_filter, target.writeCalls_calls]
  rw [← hbytes]
  exact decodes_again (target = .compact .v2) target.writeCalls hcalls

end

/-! ## Reading the result -/

section

variable {S : SchemaDef n} {C : CppSchema m}

theorem elementOf_compileTime {element : TypeDef n} {X : CppType m} {type : BondDataType}
    {d : SchemaTime × TypeDef n} (h : elementOf .compileTime element X type = some d) :
    d.1 = .compileTime := by
  unfold elementOf at h
  split at h
  · split_ifs at h
    obtain rfl := Option.some.inj h
    rfl
  · split at h
    · split_ifs at h
      obtain rfl := Option.some.inj h
      rfl
    · cases h

theorem fieldType_compileTime {fields : List (FieldDef n)} {id : UInt16} {type : BondDataType}
    {d : SchemaTime × TypeDef n} (h : fieldType .compileTime fields id type = some d) :
    d.1 = .compileTime := by
  unfold fieldType at h
  split at h
  · cases h
  · split_ifs at h
    obtain rfl := Option.some.inj h
    rfl
  · split_ifs at h
    obtain rfl := Option.some.inj h
    rfl

/-- With a compile-time schema the values in a value are deserialized with compile-time schemas. -/
theorem Site.child_compileTime {site c : Site n m} (h : c ∈ site.children S C)
    (htime : site.time = .compileTime) : c.time = .compileTime := by
  obtain ⟨time, type, X, v⟩ := site
  obtain rfl : time = .compileTime := htime
  unfold children at h
  split_ifs at h
  · split at h
    · split at h
      · next helement =>
          obtain ⟨v, -, rfl⟩ := List.mem_map.1 h
          exact elementOf_compileTime helement
      · cases h
    · split at h
      · next helement =>
          split_ifs at h
          · obtain ⟨kv, -, rfl⟩ := List.mem_map.1 h
            exact elementOf_compileTime helement
          · cases h
      · cases h
    · obtain ⟨p, -, hc⟩ := List.mem_flatMap.1 h
      obtain ⟨f, -, hc⟩ := List.mem_filterMap.1 hc
      obtain ⟨d, hd, rfl⟩ := Option.map_eq_some_iff.1 hc
      obtain ⟨⟨time', type'⟩, hfield, hd⟩ := Option.bind_eq_some_iff.1 hd
      obtain ⟨head, -, hd⟩ := Option.bind_eq_some_iff.1 hd
      cases hd
      exact fieldType_compileTime hfield
    · cases h
  · cases h

/-- With a compile-time schema nothing is lost. -/
theorem lossless_compileTime {site : Site n m} (htime : site.time = .compileTime)
    (h : Everywhere (Site.children S C) (fun s => s.conforms S C = true) site) :
    Everywhere (Site.children S C) (fun s => s.conforms S C = true ∧ ¬ s.isLossy = true) site := by
  induction h with
  | @intro site h _ ih =>
      refine .intro ⟨h, ?_⟩ fun c hc => ih c hc (Site.child_compileTime hc htime)
      obtain ⟨time, type, X, v⟩ := site
      obtain rfl : time = .compileTime := htime
      exact Bool.false_ne_true

end

theorem TaggedBinary.plain (target : TaggedBinary) : target.protocol.Plain := by
  cases target with
  | compact version => exact compactBinary_plain version
  | fast => exact fastBinary_plain

/-- A payload that is serialized to another tagged protocol, with the schema `S` or without one, is the
    payload of that protocol for the same value: reading it gives the value that reading the original
    gives, with all its fields, and so does deserializing it as an object. -/
theorem transcode_exact (source target : TaggedBinary) (S : SchemaDef n) (i : Fin n) (s : StructValue)
    (hwf : s.wellFormed = true) (hordered : (Value.struct s).Ordered)
    (hcovers : S.Covers (.struct i false) (.struct s)) :
    ∃ bytes,
      (∀ time, Decodes (transcode source target S time i)
        ((Value.struct s).encode source.protocol.writer) (pure (some bytes))) ∧
      Decodes (transcode source target unknownSchema .runtime 0)
        ((Value.struct s).encode source.protocol.writer) (pure (some bytes)) ∧
      Decodes (source.protocol.readPayload .struct)
        ((Value.struct s).encode source.protocol.writer) (pure (.struct s)) ∧
      Decodes (target.protocol.readPayload .struct) bytes (pure (.struct s)) ∧
      ∀ {m : Nat} (C : CppSchema m) (x : Fin m) (debug : Bool) (var : CppValue m), S.Grounded →
        C.schemaDef.Grounded → Everywhere (Site.children S C) (fun s => s.conforms S C = true)
          ⟨.compileTime, .struct i false, .struct x, .struct s⟩ →
        ∃ object,
          Decodes (deserializeVar source.protocol.reader debug S C .compileTime (.struct i false)
            (.struct x) var) ((Value.struct s).encode source.protocol.writer) (pure object) ∧
          Decodes (deserializeVar target.protocol.reader debug S C .compileTime (.struct i false)
            (.struct x) var) bytes (pure object) := by
  have hwf' : (Value.struct s).wellFormed = true := by rwa [Value.wellFormed]
  refine ⟨(Value.struct s).encode target.protocol.writer, ?_, ?_, ?_, ?_, ?_⟩
  · intro time
    exact decodes_transcode source target hwf hordered hcovers
  · exact decodes_transcode source target hwf hordered
      (unknownSchema_covers (.struct s) hwf' _ (.inr rfl) rfl)
  · exact source.protocol.decodes_readPayload _ hwf'
  · exact target.protocol.decodes_readPayload _ hwf'
  · intro m C x debug var hS hC hconf
    refine ⟨(Value.struct s).assign debug S C .compileTime (.struct i false) (.struct x) var, ?_, ?_⟩
    · exact reads_of_lossless source.plain hS hC hwf' rfl (lossless_compileTime rfl hconf) var
    · exact reads_of_lossless target.plain hS hC hwf' rfl (lossless_compileTime rfl hconf) var

theorem outerStruct_ordered (k : Nat) : (Value.struct (outerStruct k)).Ordered := by
  have hinner : (Value.struct (.root [])).Ordered := by
    refine .struct (fun fs hfs => ?_) fun fs hfs f hf => ?_
    · obtain rfl := List.mem_singleton.1 hfs
      exact List.Pairwise.nil
    · obtain rfl := List.mem_singleton.1 hfs
      cases hf
  refine .struct (fun fs hfs => ?_) fun fs hfs f hf => ?_
  · obtain rfl := List.mem_singleton.1 hfs
    simp [PayloadIncreasing]
  · obtain rfl := List.mem_singleton.1 hfs
    rcases List.mem_cons.1 hf with rfl | hf
    · refine .list fun v hv => ?_
      rw [List.eq_of_mem_replicate hv]
      exact hinner
    · obtain rfl := List.mem_singleton.1 hf
      exact .basic _

theorem outerStruct_covers (k : Nat) :
    nullableStructs.schemaDef.Covers (.struct 0 false) (.struct (outerStruct k)) := by
  have hnone : ∀ i, (nullableStructs.schemaDef.structs i).baseDef = none := by decide
  have hinner : nullableStructs.schemaDef.Covers (.struct 1 false) (.struct (.root [])) :=
    .struct (.root (hnone 1)) (Nat.le_refl 1) fun p hp field _ f hf => by
      obtain rfl := List.mem_singleton.1 hp
      cases hf
  refine .struct (.root (hnone 0)) (Nat.le_refl 1) fun p hp field hfield f hf hid htype => ?_
  obtain rfl := List.mem_singleton.1 hp
  rcases List.mem_cons.1 hf with rfl | hf
  · have htypes : ∀ field ∈ (nullableStructs.schemaDef.structs 0).fields, field.id = 0 →
        field.type = .list (.struct 1 false) := by
      decide
    rw [htypes field hfield hid]
    refine .list fun _ v hv => ?_
    rw [List.eq_of_mem_replicate hv]
    exact hinner
  · obtain rfl := List.mem_singleton.1 hf
    exact .basic _

theorem transcode_exact_outer :
    ∃ bytes,
      Decodes (transcode (.compact .v2) .fast nullableStructs.schemaDef .runtime 0)
        ((Value.struct (outerStruct 2)).encode (CompactBinary.writer .v2)) (pure (some bytes)) ∧
      Decodes (fastBinary.readPayload .struct) bytes (pure (.struct (outerStruct 2))) := by
  obtain ⟨bytes, htime, -, -, hread, -⟩ := transcode_exact (.compact .v2) .fast
    nullableStructs.schemaDef 0 (outerStruct 2) (by decide) (outerStruct_ordered 2)
    (outerStruct_covers 2)
  exact ⟨bytes, htime .runtime, hread⟩

end Bond.Cpp

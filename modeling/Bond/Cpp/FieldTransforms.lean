import Bond.Cpp.Assign
import Bond.Cpp.ParserDescent

set_option autoImplicit false

/-! # Transforms field by field

A transform that does nothing about omitted fields is described by what it does with a field that the
schema knows, with one that it does not know, and at the end of a level that it does not know. What
the parser makes of the fields of a payload follows from what the transform does with each. -/

namespace Bond.Cpp

open Decoder

variable {n : Nat}

/-! ## Events of payload fields -/

/-- The event for a payload field with the id of a schema field. -/
def SchemaTime.event : SchemaTime → FieldDef n → Value → Event n
  | .compileTime => compileTimeEvent
  | .runtime => runtimeEvent

theorem fieldEvents_eq (time : SchemaTime) (fields : List (FieldDef n)) {fs : Fields}
    (hfs : PayloadIncreasing fs) :
    fieldEvents time fields fs = mergeEvents time.omitsAlways time.event fields fs := by
  cases time with
  | compileTime => exact compileTimeEvents_eq fields hfs
  | runtime => exact runtimeEvents_eq fields hfs

/-- The event for a payload field. -/
def payloadEvent (event : FieldDef n → Value → Event n) (fields : List (FieldDef n))
    (p : UInt16 × Value) : Event n :=
  match fields.find? fun field => field.id = p.1 with
  | some field => event field p.2
  | none => .unknownField p.1 p.2

/-- Apart from omitted fields the merge has one event for each payload field. -/
theorem mergeEvents_filter {event : FieldDef n → Value → Event n}
    (hevent : ∀ field v, (event field v).omitted = none) (always : Bool) {fields : List (FieldDef n)}
    (hfields : Increasing fields) {fs : Fields} (hfs : PayloadIncreasing fs) :
    (mergeEvents always event fields fs).filter (fun e => e.omitted.isNone) =
      fs.map (payloadEvent event fields) := by
  have hunknown (fs : Fields) (fields : List (FieldDef n))
      (h : ∀ p ∈ fs, fields.find? (fun field => field.id = p.1) = none) :
      (unknownEvents fs : List (Event n)).filter (fun e => e.omitted.isNone) =
        fs.map (payloadEvent event fields) := by
    rw [unknownEvents, List.filter_map, List.filter_eq_self.2 (by simp [Event.omitted])]
    refine List.map_congr_left fun p hp => ?_
    rw [payloadEvent, h p hp]
  induction fields generalizing fs with
  | nil => exact hunknown fs [] fun p _ => rfl
  | cons field fields ih =>
      obtain ⟨hlt, htail⟩ := List.pairwise_cons.1 hfields
      have hbelow := hunknown (below field.id fs) (field :: fields) fun p hp => by
        have hp := lt_of_mem_below hp
        rw [List.find?_eq_none]
        intro g hg
        have hle : field.id ≤ g.id := by
          rcases List.mem_cons.1 hg with rfl | hg
          · exact UInt16.le_refl _
          · exact UInt16.le_of_lt (hlt g hg)
        simpa using (UInt16.ne_of_lt (UInt16.lt_of_lt_of_le hp hle)).symm
      have habove : (above field.id fs).map (payloadEvent event fields) =
          (above field.id fs).map (payloadEvent event (field :: fields)) := by
        refine List.map_congr_left fun p hp => ?_
        have hne := UInt16.ne_of_lt (lt_of_mem_above hfs hp)
        rw [payloadEvent, payloadEvent, List.find?_cons_of_neg (by simpa using hne)]
      rw [mergeEvents, List.filter_append, List.filter_append, hbelow,
        ih htail (above_increasing hfs _), habove]
      conv_rhs => rw [split_at_id hfs field.id, List.map_append, List.map_append]
      congr 2
      cases hwith : withId field.id fs with
      | none => split_ifs <;> rfl
      | some p =>
          have hid := withId_id hwith
          simp [payloadEvent, hid, hevent]

/-- A transform that does nothing about omitted fields handles what it handles without them. -/
theorem Handles.of_filter {τ : Type} {W : ProtocolWriter} {transform : Transform n τ}
    (homitted : ∀ field t, RunsTo (transform.omittedField field) t [] () t) {t t' : τ}
    {es : List (Event n)} (h : Handles W transform t (es.filter fun e => e.omitted.isNone) t') :
    Handles W transform t es t' := by
  induction es generalizing t with
  | nil => exact h
  | cons e es ih =>
      by_cases he : e.omitted.isNone = true
      · rw [List.filter_cons_of_pos (by simpa using he)] at h
        cases h with
        | cons h hs => exact .cons h (ih hs)
      · rw [List.filter_cons_of_neg (by simpa using he)] at h
        cases e with
        | omittedField field => exact .cons (homitted field t) (ih h)
        | _ => exact absurd rfl he

/-- A transform that takes each event in turn, and keeps an invariant about those it has taken. -/
theorem Handles.exists_of_step {τ : Type} {W : ProtocolWriter} {transform : Transform n τ}
    {es : List (Event n)} (inv : List (Event n) → τ → Prop)
    (hstep : ∀ e done todo, es = done ++ e :: todo → ∀ t, inv done t →
      ∃ t', RunsTo (transform.on e) t (e.encoding W) () t' ∧ inv (done ++ [e]) t')
    {t : τ} (ht : inv [] t) : ∃ t', Handles W transform t es t' ∧ inv es t' := by
  have hfrom (done todo : List (Event n)) (hsplit : es = done ++ todo) (t : τ) (ht : inv done t) :
      ∃ t', Handles W transform t todo t' ∧ inv es t' := by
    induction todo generalizing done t with
    | nil =>
        rw [List.append_nil] at hsplit
        exact ⟨t, .nil t, hsplit ▸ ht⟩
    | cons e todo ih =>
        obtain ⟨t₁, he, ht₁⟩ := hstep e done todo hsplit t ht
        obtain ⟨t₂, htail, ht₂⟩ := ih (done ++ [e]) (by simpa using hsplit) t₁ ht₁
        exact ⟨t₂, .cons he htail, ht₂⟩
  exact hfrom [] es rfl t ht

theorem SchemaTime.event_omitted (time : SchemaTime) (field : FieldDef n) (v : Value) :
    (time.event field v).omitted = none := by
  cases time with
  | compileTime => exact Cpp.event_omitted compileTimeEvent_payload field v
  | runtime => exact Cpp.event_omitted runtimeEvent_payload field v

theorem encoding_payloadEvent {W : ProtocolWriter} (time : SchemaTime) (fields : List (FieldDef n))
    (p : UInt16 × Value) : (payloadEvent time.event fields p).encoding W = p.2.encode W := by
  unfold payloadEvent
  cases fields.find? fun field => field.id = p.1 with
  | none => rfl
  | some field =>
      cases time with
      | compileTime => exact encoding_headEvent W field field.id p.2
      | runtime =>
          simp only [SchemaTime.event, runtimeEvent]
          split_ifs <;> rfl

/-! ## Calls for the fields of a payload -/

theorem fieldType_id {time : SchemaTime} {fields : List (FieldDef n)} {id : UInt16} {type : BondDataType}
    {time' : SchemaTime} {type' : TypeDef n}
    (h : fieldType time fields id type = some (time', type')) : type'.id = type := by
  unfold fieldType at h
  split at h
  · cases h
  · split_ifs at h
    cases h
    rfl
  · split_ifs at h with htype
    cases h
    exact htype

section

variable {τ : Type}

/-- What the overloads of `Field` and `UnknownField` have in common. -/
structure Transform.TakesFields (transform : Transform n τ) (time : SchemaTime)
    (field : SchemaTime → UInt16 → TypeDef n → ParserM τ Unit)
    (unknown : UInt16 → BondDataType → ParserM τ Unit) : Prop where
  nonBasicTypeField (f : FieldDef n) : transform.nonBasicTypeField f = field time f.id f.type
  basicTypeField (id : UInt16) (metadata : Metadata) (T : BasicType) :
    transform.basicTypeField id metadata T = field .compileTime id (.basic T)
  unknownField (id : UInt16) (type : BondDataType) : transform.unknownField id type = unknown id type
  omittedField (f : FieldDef n) : transform.omittedField f = pure ()

/-- The call for a field of a payload with the schema fields `fields`. -/
def fieldCall (field : SchemaTime → UInt16 → TypeDef n → ParserM τ Unit)
    (unknown : UInt16 → BondDataType → ParserM τ Unit) (time : SchemaTime)
    (fields : List (FieldDef n)) (p : UInt16 × Value) : ParserM τ Unit :=
  match fieldType time fields p.1 p.2.typeId with
  | some (time', type) => field time' p.1 type
  | none => unknown p.1 p.2.typeId

variable {transform : Transform n τ} {time : SchemaTime}
  {field : SchemaTime → UInt16 → TypeDef n → ParserM τ Unit}
  {unknown : UInt16 → BondDataType → ParserM τ Unit}

/-- The call of the transform for a payload field. -/
theorem Transform.TakesFields.on_payloadEvent (h : transform.TakesFields time field unknown)
    (fields : List (FieldDef n)) (p : UInt16 × Value) :
    transform.on (payloadEvent time.event fields p) = fieldCall field unknown time fields p := by
  have hvalue := p.2.typeId_isValue
  have hunknown : transform.on (.unknownField p.1 p.2) = unknown p.1 p.2.typeId := by
    rw [Transform.on, Cpp.unknownField, if_pos hvalue, h.unknownField]
  unfold payloadEvent fieldCall fieldType
  cases hfind : fields.find? (fun f => f.id = p.1) with
  | none => exact hunknown
  | some f =>
      have hid : f.id = p.1 := by simpa using List.find?_some hfind
      rw [← hid] at hunknown ⊢
      cases time with
      | compileTime =>
          simp only [SchemaTime.event, compileTimeEvent, headEvent, true_and]
          cases htype : p.2.typeId with
          | basic T =>
              by_cases hmatch : f.type.id = .basic T
              · obtain ⟨type, htype'⟩ : ∃ type, f.type = .basic type := by
                  cases hf : f.type <;> simp_all [TypeDef.id]
                obtain rfl : type = T := by simpa [htype', TypeDef.id] using hmatch
                have hcall := h.nonBasicTypeField f
                rw [htype'] at hcall
                simp only [htype', TypeDef.id, BondDataType.isBasic, not_true, if_false, if_true,
                  Transform.on, hcall]
              · rw [if_neg hmatch]
                by_cases hbasic : f.type.id.isBasic = true
                · simp only [hbasic, BondDataType.isNonBasic, Bool.false_eq_true, not_false_eq_true,
                    and_self, if_true, not_true, if_false, Transform.on, htype,
                    Cpp.basicTypeField, h.basicTypeField]
                · simp only [hbasic, Bool.false_eq_true, false_and, if_false, not_false_eq_true,
                    if_true]
                  rw [htype] at hunknown
                  exact hunknown
          | struct | list | set | map =>
              simp only [BondDataType.isNonBasic, not_true, and_false, if_false]
              split_ifs with hmatch
              · exact h.nonBasicTypeField f
              · rw [htype] at hunknown
                exact hunknown
          | _ =>
              rw [htype] at hvalue
              cases hvalue
      | runtime =>
          simp only [SchemaTime.event, runtimeEvent]
          cases htype : p.2.typeId with
          | basic T =>
              simp only [BondDataType.isNonBasic, Bool.false_eq_true, if_false, Transform.on, htype,
                Cpp.basicTypeField, h.basicTypeField, reduceCtorEq, false_and]
          | struct | list | set | map =>
              simp only [BondDataType.isNonBasic, if_true]
              split_ifs with hmatch
              · exact h.nonBasicTypeField f
              · rw [htype] at hunknown
                exact hunknown
          | _ =>
              rw [htype] at hvalue
              cases hvalue

/-! ## Levels -/

variable {W : ProtocolWriter}

/-- The fields of a level that the schema knows, one after the other. `inv` says of a state which
    fields have been handed to the transform. -/
theorem Transform.TakesFields.exists_handles_fields (h : transform.TakesFields time field unknown)
    {fields : List (FieldDef n)} (hfields : Increasing fields) {fs : Fields}
    (hfs : PayloadIncreasing fs) (inv : Fields → τ → Prop)
    (hstep : ∀ p done todo, fs = done ++ p :: todo → ∀ t, inv done t →
      ∃ t', RunsTo (fieldCall field unknown time fields p) t (p.2.encode W) () t' ∧
        inv (done ++ [p]) t')
    {t : τ} (ht : inv [] t) :
    ∃ t', Handles W transform t (fieldEvents time fields fs) t' ∧ inv fs t' := by
  have hcalls : ∃ t', Handles W transform t (fs.map (payloadEvent time.event fields)) t' ∧
      inv (fs.take (fs.map (payloadEvent time.event fields)).length) t' := by
    refine Handles.exists_of_step (fun es t => inv (fs.take es.length) t) ?_ ht
    intro e done todo hsplit t ht
    obtain ⟨done', rest, rfl, rfl, hrest⟩ := List.map_eq_append_iff.1 hsplit
    obtain ⟨p, todo, rfl, rfl, rfl⟩ := List.map_eq_cons_iff.1 hrest
    rw [List.length_map, List.take_left] at ht
    obtain ⟨t', hp, ht'⟩ := hstep p done' todo rfl t ht
    rw [← h.on_payloadEvent, ← encoding_payloadEvent time fields p] at hp
    refine ⟨t', hp, ?_⟩
    rwa [List.length_append, List.length_map, List.length_singleton, List.append_cons,
      List.take_left' (by simp)]
  rw [List.length_map, List.take_length] at hcalls
  obtain ⟨t', hhandles, ht'⟩ := hcalls
  refine ⟨t', ?_, ht'⟩
  rw [fieldEvents_eq time fields hfs]
  refine Handles.of_filter (fun f t => ?_) ?_
  · rw [h.omittedField]
    exact RunsTo.pure () t
  · rw [mergeEvents_filter (SchemaTime.event_omitted time) time.omitsAlways hfields hfs]
    exact hhandles

theorem Transform.TakesFields.handles_fields (h : transform.TakesFields time field unknown)
    {fields : List (FieldDef n)} (hfields : Increasing fields) {fs : Fields}
    (hfs : PayloadIncreasing fs) (step : τ → UInt16 × Value → τ)
    (hstep : ∀ p ∈ fs, ∀ t,
      RunsTo (fieldCall field unknown time fields p) t (p.2.encode W) () (step t p)) (t : τ) :
    Handles W transform t (fieldEvents time fields fs) (fs.foldl step t) := by
  obtain ⟨t', hhandles, rfl⟩ := h.exists_handles_fields (W := W) hfields hfs
    (fun done t' => t' = done.foldl step t) (fun p done todo hsplit t₁ ht₁ => by
      refine ⟨step t₁ p, hstep p (by rw [hsplit]; simp) t₁, ?_⟩
      rw [ht₁, List.foldl_append, List.foldl_cons, List.foldl_nil]) rfl
  exact hhandles

/-- The levels that only the payload has: the marker in front of each, and its fields. -/
theorem Transform.TakesFields.handles_rest (h : transform.TakesFields time field unknown)
    (base : Bool) (levels : List Fields) (step : τ → UInt16 × Value → τ) (next : τ → τ)
    (hstep : base = false → ∀ fs ∈ levels, ∀ p ∈ fs, ∀ t,
      RunsTo (unknown p.1 p.2.typeId) t (p.2.encode W) () (step t p))
    (hnext : ∀ t, RunsTo transform.unknownEnd t ([] : List UInt8) () (next t)) (t : τ) :
    Handles W transform t (restEvents base levels)
      (if base then t else levels.foldl (fun t fs => fs.foldl step (next t)) t) := by
  cases base with
  | true => exact .nil t
  | false =>
      have hfields := hstep rfl
      clear hstep
      have hlevel (fs : Fields) (hfs : ∀ p ∈ fs, ∀ t,
          RunsTo (unknown p.1 p.2.typeId) t (p.2.encode W) () (step t p)) (t : τ) :
          Handles W transform t (unknownEvents fs) (fs.foldl step t) := by
        induction fs generalizing t with
        | nil => exact .nil t
        | cons p fs ih =>
            have hp : RunsTo (transform.on (.unknownField p.1 p.2)) t (p.2.encode W) () (step t p) := by
              rw [Transform.on, Cpp.unknownField, if_pos p.2.typeId_isValue, h.unknownField]
              exact hfs p List.mem_cons_self t
            exact .cons hp (ih (fun q hq => hfs q (List.mem_cons_of_mem p hq)) (step t p))
      simp only [restEvents, Bool.false_eq_true, if_false, levelEvents]
      induction levels generalizing t with
      | nil => exact .nil t
      | cons fs levels ih =>
          rw [List.flatMap_cons, List.foldl_cons]
          have hmark : RunsTo (transform.on (.unknownEnd : Event n)) t
              ((Event.unknownEnd : Event n).encoding W) () (next t) := hnext t
          have hfirst := hlevel fs (hfields fs List.mem_cons_self) (next t)
          exact (Handles.cons hmark hfirst).append
            (ih _ fun fs' hfs' => hfields fs' (List.mem_cons_of_mem fs hfs'))

end

end Bond.Cpp

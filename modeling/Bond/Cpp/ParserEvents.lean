import Bond.Cpp.DynamicParser
import Mathlib.Data.List.TakeWhile

set_option autoImplicit false

/-! # What a parser reports

The calls that `DynamicParser` makes on a transform depend only on the schema and on the ids and
types in the payload. They are listed here as events, by functions that follow the two versions of
`ReadFields`; and a parser is shown to do, on any payload, what its transform does on the events one
after the other. -/

namespace Bond.Cpp

open Decoder InputBuffer

/-! ## Events -/

/-- A call on a transform, together with the payload that belongs to it. -/
inductive Event (n : Nat) where
  | nonBasicTypeField (field : FieldDef n) (value : Value)
  | basicTypeField (field : FieldDef n) (value : Value)
  | unknownField (id : UInt16) (value : Value)
  | omittedField (field : FieldDef n)
  | unknownEnd

variable {n : Nat} {τ : Type}

/-- What the input holds for an event, headers apart. -/
def Event.encoding (W : ProtocolWriter) : Event n → List UInt8
  | .nonBasicTypeField _ v | .basicTypeField _ v | .unknownField _ v => v.encode W
  | .omittedField _ | .unknownEnd => []

/-- The call that an event stands for. -/
def Transform.on (transform : Transform n τ) : Event n → ParserM τ Unit
  | .nonBasicTypeField field _ => transform.nonBasicTypeField field
  | .basicTypeField field v => Cpp.basicTypeField transform field.id field.metadata v.typeId
  | .unknownField id v => Cpp.unknownField transform id v.typeId
  | .omittedField field => transform.omittedField field
  | .unknownEnd => transform.unknownEnd

/-- From state to state, a transform takes one event after the other and reads what belongs to
    each. -/
inductive Handles (W : ProtocolWriter) (transform : Transform n τ) : τ → List (Event n) → τ → Prop
  | nil (t : τ) : Handles W transform t [] t
  | cons {t t' t'' e es} (h : RunsTo (transform.on e) t (e.encoding W) () t')
      (hs : Handles W transform t' es t'') : Handles W transform t (e :: es) t''

theorem Handles.append {W : ProtocolWriter} {transform : Transform n τ} {t t' t'' : τ}
    {es es' : List (Event n)} (h : Handles W transform t es t')
    (h' : Handles W transform t' es' t'') : Handles W transform t (es ++ es') t'' := by
  induction h with
  | nil => exact h'
  | cons h _ ih => exact .cons h (ih h')

theorem Handles.of_append {W : ProtocolWriter} {transform : Transform n τ} {t t'' : τ}
    {es es' : List (Event n)} (h : Handles W transform t (es ++ es') t'') :
    ∃ t', Handles W transform t es t' ∧ Handles W transform t' es' t'' := by
  induction es generalizing t with
  | nil => exact ⟨t, .nil t, h⟩
  | cons e es ih =>
      cases h with
      | cons h hs =>
          obtain ⟨t', hes, hes'⟩ := ih hs
          exact ⟨t', .cons h hes, hes'⟩

/-- The transform with another `Base`. -/
def Transform.withBase (transform : Transform n τ) (base : Fin n → ParserM τ Bool) :
    Transform n τ :=
  { transform with base }

theorem Transform.withBase_on (transform : Transform n τ) (base : Fin n → ParserM τ Bool)
    (e : Event n) : (transform.withBase base).on e = transform.on e := by
  cases e <;> rfl

theorem Handles.withBase {W : ProtocolWriter} {transform : Transform n τ} {t t' : τ}
    {es : List (Event n)} (h : Handles W transform t es t') (base : Fin n → ParserM τ Bool) :
    Handles W (transform.withBase base) t es t' := by
  induction h with
  | nil t => exact .nil t
  | cons h _ ih => exact .cons (transform.withBase_on base _ ▸ h) ih

/-- The event for a payload field at or below the id of `Head`. -/
def headEvent (head : FieldDef n) (id : UInt16) (v : Value) : Event n :=
  if head.id = id ∧ head.type.id = v.typeId then .nonBasicTypeField head v
  else if head.type.id.isBasic ∧ id = head.id ∧ ¬ v.typeId.isNonBasic then .basicTypeField head v
  else .unknownField id v

/-- Whether what is left of the payload is beyond the id of `Head`. -/
def isPast (head : FieldDef n) : Fields → Bool
  | [] => true
  | (id, _) :: _ => head.id < id

/-- The events of `readHead`, and the payload fields that are left. -/
def headEvents (head : FieldDef n) : Fields → List (Event n) × Fields
  | [] => ([.omittedField head], [])
  | (id, v) :: fs =>
      if head.id ≥ id then
        if isPast head fs then
          ([headEvent head id v], fs)
        else
          let (es, rest) := headEvents head fs
          (headEvent head id v :: es, rest)
      else
        ([.omittedField head], (id, v) :: fs)

def unknownEvents (fs : Fields) : List (Event n) :=
  fs.map fun f => .unknownField f.1 f.2

/-- The events of `readFieldsCompileTime` -/
def compileTimeEvents : List (FieldDef n) → Fields → List (Event n)
  | [], fs => unknownEvents fs
  | head :: fields, fs => (headEvents head fs).1 ++ compileTimeEvents fields (headEvents head fs).2

/-- The event for a payload field with the id of a schema field, at run time. -/
def runtimeEvent (field : FieldDef n) (v : Value) : Event n :=
  if v.typeId.isNonBasic then
    if field.type.id = v.typeId then .nonBasicTypeField field v else .unknownField field.id v
  else
    .basicTypeField field v

/-- The event of `readRuntimeField`, and the schema fields that are left. -/
def runtimeStep (fields : List (FieldDef n)) (id : UInt16) (v : Value) :
    Event n × List (FieldDef n) :=
  match fields with
  | field :: rest =>
      if field.id = id then (runtimeEvent field v, rest) else (.unknownField id v, field :: rest)
  | [] => (.unknownField id v, [])

/-- The events of `readFieldsRuntime` -/
def runtimeEvents : List (FieldDef n) → Fields → List (Event n)
  | fields, [] => fields.map .omittedField
  | fields, (id, v) :: fs =>
      let step := runtimeStep (fields.dropWhile fun field => field.id < id) id v
      (fields.takeWhile fun field => field.id < id).map .omittedField
        ++ step.1 :: runtimeEvents step.2 fs

/-- The events of one level of a struct. -/
def fieldEvents (time : SchemaTime) (fields : List (FieldDef n)) (fs : Fields) : List (Event n) :=
  match time with
  | .compileTime => compileTimeEvents fields fs
  | .runtime => runtimeEvents fields fs

/-- The events of `readUnknownFields` for further levels. -/
def levelEvents (levels : List Fields) : List (Event n) :=
  levels.flatMap fun fs => .unknownEnd :: unknownEvents fs

/-! ## Payloads -/

/-- What follows the marker of a level: the fields and markers of further levels. Only the marker of
    the last level is not one of a base. -/
def encodeLevels (W : ProtocolWriter) : List Fields → List UInt8
  | [] => []
  | fs :: levels => encodeFields W fs ++ stopBytes (!levels.isEmpty) ++ encodeLevels W levels

/-- The payload of one level up to its marker, or to the end of the struct if the parser does not
    parse a base. -/
def levelPayload (W : ProtocolWriter) (base : Bool) (fs : Fields) (levels : List Fields) :
    List UInt8 :=
  encodeFields W fs ++ stopBytes (!levels.isEmpty) ++ if base then [] else encodeLevels W levels

/-- The header that starts the fields `fs`, which end with a stop marker. -/
def headerOf (base : Bool) : Fields → BondDataType × UInt16
  | [] => (if base then .stopBase else .stop, 0)
  | (id, v) :: _ => (v.typeId, id)

/-- What follows that header, up to the stop marker. -/
def pending (W : ProtocolWriter) (base : Bool) : Fields → List UInt8
  | [] => []
  | (_, v) :: fs => v.encode W ++ (encodeFields W fs ++ stopBytes base)

section

variable (P : TaggedProtocol) {base : Bool} {t t' t'' : τ} {β : Type} {b : β}

/-- Reading the next header in front of a program. -/
theorem runsTo_readFieldBegin (fs : Fields) {f : BondDataType × UInt16 → ParserM τ β}
    {enc : List UInt8}
    (h : RunsTo (f (headerOf base fs)) t (pending P.writer base fs ++ enc) b t') :
    RunsTo (onInput P.reader.readFieldBegin >>= f) t
      (encodeFields P.writer fs ++ stopBytes base ++ enc) b t' := by
  cases fs with
  | nil => exact (RunsTo.lift (P.decodes_structEnd base) t).bind h
  | cons g fs =>
      have hheader := P.decodes_fieldBegin g.2.typeId g.1 g.2.typeId_isValue
      have hrest := (RunsTo.lift hheader t).bind h
      rw [encodeFields]
      simp only [pending, List.append_assoc] at hrest ⊢
      exact hrest

/-! ## Runs -/

theorem Value.not_isStop (v : Value) : v.typeId.isStop = false := by
  have hvalue := v.typeId_isValue
  cases h : v.typeId <;> simp_all [BondDataType.isStop, BondDataType.isValue]

theorem headerOf_isStop (base : Bool) : (headerOf base []).1.isStop = true := by
  cases base <;> rfl

variable {transform : Transform n τ}

/-- The call for a field at or below the id of `Head`. -/
theorem on_headEvent (head : FieldDef n) (id : UInt16) (v : Value) :
    transform.on (headEvent head id v) =
      if head.id = id ∧ head.type.id = v.typeId then transform.nonBasicTypeField head
      else unknownFieldOrTypeMismatch transform head id v.typeId := by
  unfold headEvent unknownFieldOrTypeMismatch
  split_ifs <;> rfl

theorem encoding_headEvent (W : ProtocolWriter) (head : FieldDef n) (id : UInt16) (v : Value) :
    (headEvent head id v).encoding W = v.encode W := by
  unfold headEvent
  split_ifs <;> rfl

theorem isPast_iff (head : FieldDef n) (base : Bool) (fs : Fields) :
    isPast head fs = true ↔
      head.id < (headerOf base fs).2 ∨ (headerOf base fs).1.isStop = true := by
  cases fs with
  | nil => simp [isPast, headerOf_isStop]
  | cons g fs => simp [isPast, headerOf, g.2.not_isStop]

/-- A field at or below the id of `Head` goes to the transform. -/
theorem readHead_of_ge {reader : ProtocolReader} {head : FieldDef n} {id : UInt16}
    (h : head.id ≥ id) (v : Value) (k : Nat) :
    readHead reader transform head (k + 1) (v.typeId, id) = (do
      transform.on (headEvent head id v)
      let header ← readSubsequentField reader
      if head.id < header.2 ∨ header.1.isStop then
        return header
      else
        readHead reader transform head k header) := by
  rw [readHead, on_headEvent]
  by_cases hmatch : head.id = id ∧ head.type.id = v.typeId
  · simp only [hmatch, and_self, if_true, pure_bind]
  · have hnot : head.id ≥ id ∧ ¬ v.typeId.isStop = true := ⟨h, by simp [v.not_isStop]⟩
    simp only [if_neg hmatch, if_pos hnot, pure_bind, if_true]

/-- At a stop marker, or beyond the id of `Head`, the field is omitted. -/
theorem readHead_of_not {reader : ProtocolReader} {head : FieldDef n}
    {header : BondDataType × UInt16} (htype : head.type.id ≠ header.1 ∨ head.id ≠ header.2)
    (h : ¬ (head.id ≥ header.2 ∧ ¬ header.1.isStop = true)) (k : Nat) :
    readHead reader transform head (k + 1) header
      = (transform.omittedField head >>= fun _ => return header) := by
  obtain ⟨type, id⟩ := header
  have hmatch : ¬ (head.id = id ∧ head.type.id = type) := by
    rintro ⟨hid, heq⟩
    rcases htype with hne | hne
    · exact hne heq
    · exact hne hid
  rw [readHead]
  simp only [if_neg hmatch, if_neg h, pure_bind, Bool.false_eq_true, if_false]

theorem runsTo_readHead (head : FieldDef n) (fs : Fields) (k : Nat) (hk : fs.length < k)
    (hes : Handles P.writer transform t (headEvents head fs).1 t')
    {f : BondDataType × UInt16 → ParserM τ β} {enc : List UInt8}
    (hf : RunsTo (f (headerOf base (headEvents head fs).2)) t'
      (pending P.writer base (headEvents head fs).2 ++ enc) b t'') :
    RunsTo (readHead P.reader transform head k (headerOf base fs) >>= f) t
      (pending P.writer base fs ++ enc) b t'' := by
  induction fs generalizing k t with
  | nil =>
      obtain ⟨k, rfl⟩ : ∃ k', k = k' + 1 := ⟨k - 1, by simp at hk; omega⟩
      have htype : head.type.id ≠ (headerOf base []).1 := by
        intro heq
        have hvalue := head.type.id_isValue
        rw [heq] at hvalue
        cases base <;> exact absurd hvalue (by decide)
      rw [readHead_of_not (Or.inl htype) (by simp [headerOf_isStop]), bind_assoc]
      cases hes with
      | cons h hs =>
          cases hs
          refine RunsTo.nil_bind h ?_
          rw [pure_bind]
          exact hf
  | cons g fs ih =>
      obtain ⟨k, rfl⟩ : ∃ k', k = k' + 1 := ⟨k - 1, by simp at hk; omega⟩
      obtain ⟨id, v⟩ := g
      by_cases hge : head.id ≥ id
      · have henc : pending P.writer base ((id, v) :: fs) ++ enc
            = v.encode P.writer ++ (encodeFields P.writer fs ++ stopBytes base ++ enc) := by
          rw [pending, List.append_assoc]
        rw [headEvents, if_pos hge] at hes hf
        rw [headerOf, readHead_of_ge hge, bind_assoc, henc]
        simp only [bind_assoc]
        by_cases hpast : isPast head fs = true
        · -- the next header is for a later schema field
          rw [if_pos hpast] at hes hf
          cases hes with
          | cons h hs =>
              cases hs
              rw [encoding_headEvent] at h
              refine h.bind (runsTo_readFieldBegin P fs ?_)
              rw [if_pos ((isPast_iff head base fs).1 hpast), pure_bind]
              exact hf
        · rw [if_neg hpast] at hes hf
          cases hes with
          | cons h hs =>
              rw [encoding_headEvent] at h
              refine h.bind (runsTo_readFieldBegin P fs ?_)
              rw [if_neg fun hor => hpast ((isPast_iff head base fs).2 hor)]
              exact ih k (by simpa using hk) hs hf
      · have hid : head.id ≠ id := by
          rintro rfl
          exact hge (UInt16.le_refl _)
        rw [headEvents, if_neg hge] at hes hf
        rw [readHead_of_not (Or.inr hid) (fun h => hge h.1), bind_assoc]
        cases hes with
        | cons h hs =>
            cases hs
            refine RunsTo.nil_bind h ?_
            rw [pure_bind]
            exact hf

theorem headEvents_length_le (head : FieldDef n) (fs : Fields) :
    (headEvents head fs).2.length ≤ fs.length := by
  induction fs with
  | nil => exact Nat.le_refl _
  | cons g fs ih =>
      rw [headEvents]
      split_ifs
      · exact Nat.le_succ _
      · exact Nat.le_succ_of_le ih
      · exact Nat.le_refl _

theorem runsTo_readTrailingFields (fs : Fields) (k : Nat) (hk : fs.length < k)
    (hes : Handles P.writer transform t (unknownEvents fs) t') {enc : List UInt8}
    {f : BondDataType × UInt16 → ParserM τ β}
    (hf : RunsTo (f (headerOf base [])) t' enc b t'') :
    RunsTo (readTrailingFields P.reader transform k (headerOf base fs) >>= f) t
      (pending P.writer base fs ++ enc) b t'' := by
  induction fs generalizing k t with
  | nil =>
      obtain ⟨k, rfl⟩ : ∃ k', k = k' + 1 := ⟨k - 1, by simp at hk; omega⟩
      cases hes
      rw [readTrailingFields, if_pos (headerOf_isStop base), pure_bind]
      exact hf
  | cons g fs ih =>
      obtain ⟨k, rfl⟩ : ∃ k', k = k' + 1 := ⟨k - 1, by simp at hk; omega⟩
      obtain ⟨id, v⟩ := g
      have hnot : ¬ v.typeId.isStop = true := by simp [v.not_isStop]
      rw [headerOf, readTrailingFields, if_neg hnot, bind_assoc]
      simp only [bind_assoc]
      cases hes with
      | cons h hs =>
          rw [pending, List.append_assoc]
          exact h.bind (runsTo_readFieldBegin P fs (ih k (by simpa using hk) hs))

theorem runsTo_readFieldsCompileTime (fields : List (FieldDef n)) (fs : Fields) (k : Nat)
    (hk : fs.length < k) (hes : Handles P.writer transform t (compileTimeEvents fields fs) t')
    {f : BondDataType × UInt16 → ParserM τ β} {enc : List UInt8}
    (hf : RunsTo (f (headerOf base [])) t' enc b t'') :
    RunsTo (readFieldsCompileTime P.reader transform k fields (headerOf base fs) >>= f) t
      (pending P.writer base fs ++ enc) b t'' := by
  induction fields generalizing fs t with
  | nil => exact runsTo_readTrailingFields P fs k hk hes hf
  | cons head fields ih =>
      rw [compileTimeEvents] at hes
      obtain ⟨t₁, hhead, hrest⟩ := hes.of_append
      rw [readFieldsCompileTime, bind_assoc]
      refine runsTo_readHead P head fs k hk hhead ?_
      exact ih _ (Nat.lt_of_le_of_lt (headEvents_length_le head fs) hk) hrest

theorem runsTo_omitFields (fields : List (FieldDef n)) (header : BondDataType × UInt16)
    (hes : Handles P.writer transform t
      ((fields.takeWhile fun field => field.id < header.2 || header.1.isStop).map .omittedField) t')
    {f : List (FieldDef n) → ParserM τ β} {enc : List UInt8}
    (hf : RunsTo (f (fields.dropWhile fun field => field.id < header.2 || header.1.isStop)) t' enc
      b t'') :
    RunsTo (omitFields transform fields header >>= f) t enc b t'' := by
  obtain ⟨type, id⟩ := header
  induction fields generalizing t with
  | nil =>
      cases hes
      rw [omitFields, pure_bind]
      exact hf
  | cons field fields ih =>
      rw [omitFields]
      by_cases hpast : field.id < id ∨ type.isStop = true
      · have hdrop : (decide (field.id < id) || type.isStop) = true := by simpa using hpast
        simp only [List.takeWhile_cons, List.dropWhile_cons, hdrop, if_true, List.map_cons] at hes hf
        rw [if_pos hpast, bind_assoc]
        cases hes with
        | cons h hs => exact RunsTo.nil_bind h (ih hs hf)
      · have hdrop : ¬ (decide (field.id < id) || type.isStop) = true := by simpa using hpast
        simp only [List.takeWhile_cons, List.dropWhile_cons, hdrop] at hes hf
        cases hes
        rw [if_neg hpast, pure_bind]
        exact hf

theorem readRuntimeField_eq (fields : List (FieldDef n)) (id : UInt16) (v : Value) :
    readRuntimeField transform fields v.typeId id
      = (transform.on (runtimeStep fields id v).1 >>= fun _ => return (runtimeStep fields id v).2) := by
  cases fields with
  | nil => rfl
  | cons field rest =>
      rw [readRuntimeField, runtimeStep]
      by_cases hid : field.id = id
      · subst hid
        simp only [if_true, runtimeEvent]
        by_cases hnon : v.typeId.isNonBasic = true
        · by_cases htype : field.type.id = v.typeId
          · simp only [if_pos hnon, if_pos htype]
            rfl
          · simp only [if_pos hnon, if_neg htype]
            rfl
        · simp only [if_neg hnon]
          rfl
      · simp only [if_neg hid]
        rfl

theorem encoding_runtimeStep (W : ProtocolWriter) (fields : List (FieldDef n)) (id : UInt16)
    (v : Value) : (runtimeStep fields id v).1.encoding W = v.encode W := by
  cases fields with
  | nil => rfl
  | cons field rest =>
      simp only [runtimeStep, runtimeEvent]
      split_ifs <;> rfl

theorem runsTo_readFieldsRuntime (fields : List (FieldDef n)) (fs : Fields) (k : Nat)
    (hk : fs.length < k) (hes : Handles P.writer transform t (runtimeEvents fields fs) t')
    {f : BondDataType × UInt16 → ParserM τ β} {enc : List UInt8}
    (hf : RunsTo (f (headerOf base [])) t' enc b t'') :
    RunsTo (readFieldsRuntime P.reader transform k fields (headerOf base fs) >>= f) t
      (pending P.writer base fs ++ enc) b t'' := by
  induction fs generalizing fields k t with
  | nil =>
      obtain ⟨k, rfl⟩ : ∃ k', k = k' + 1 := ⟨k - 1, by simp at hk; omega⟩
      have homit : Handles P.writer transform t ((fields.takeWhile fun field =>
          field.id < (headerOf base []).2 || (headerOf base []).1.isStop).map .omittedField) t' := by
        rwa [List.takeWhile_eq_self_iff.2 fun field _ => by simp [headerOf_isStop]]
      rw [readFieldsRuntime, bind_assoc]
      refine runsTo_omitFields P fields (headerOf base []) homit ?_
      rw [if_pos (headerOf_isStop base), pure_bind]
      exact hf
  | cons g fs ih =>
      obtain ⟨k, rfl⟩ : ∃ k', k = k' + 1 := ⟨k - 1, by simp at hk; omega⟩
      obtain ⟨id, v⟩ := g
      have hnot : ¬ v.typeId.isStop = true := by simp [v.not_isStop]
      have hpast : (fun field : FieldDef n => decide (field.id < id) || v.typeId.isStop)
          = fun field => decide (field.id < id) := by
        simp [v.not_isStop]
      rw [runtimeEvents] at hes
      obtain ⟨t₁, hpassed, hes⟩ := hes.of_append
      have homit : Handles P.writer transform t ((fields.takeWhile fun field =>
          field.id < id || v.typeId.isStop).map .omittedField) t₁ := by
        simpa only [hpast] using hpassed
      rw [headerOf, readFieldsRuntime, bind_assoc]
      refine runsTo_omitFields P fields (v.typeId, id) homit ?_
      simp only [hpast, if_neg hnot, readRuntimeField_eq, bind_assoc, pure_bind]
      cases hes with
      | cons h hs =>
          rw [encoding_runtimeStep] at h
          rw [pending, List.append_assoc]
          exact h.bind (runsTo_readFieldBegin P fs (ih _ k (by simpa using hk) hs))

theorem runsTo_remainingLength {f : Nat → ParserM τ β} {enc : List UInt8}
    (h : ∀ left, enc.length ≤ left → RunsTo (f left) t enc b t') :
    RunsTo (onInput remainingLength >>= f) t enc b t' := by
  unfold RunsTo
  rw [onInput, StateT.run_bind, StateT.run_lift]
  simp only [bind_assoc, pure_bind]
  exact decodes_remainingLength h

/-- Unknown fields in front of a stop marker and what comes behind it. -/
theorem runsTo_readUnknownFields_append {es : List (Event n)} {enc : List UInt8} (bound : Nat)
    (hend : ∀ t₁ k, bound < k → Handles P.writer transform t₁ es t' →
      RunsTo (readUnknownFields P.reader transform k (headerOf base [])) t₁ enc () t')
    (fs : Fields) (k : Nat) (hk : fs.length + bound < k)
    (hes : Handles P.writer transform t (unknownEvents fs ++ es) t') :
    RunsTo (readUnknownFields P.reader transform k (headerOf base fs)) t
      (pending P.writer base fs ++ enc) () t' := by
  induction fs generalizing k t with
  | nil => exact hend t k (by simpa using hk) hes
  | cons g fs ih =>
      obtain ⟨k, rfl⟩ : ∃ k', k = k' + 1 := ⟨k - 1, by omega⟩
      obtain ⟨id, v⟩ := g
      have hstop : v.typeId ≠ .stop := fun h => by
        have hnot := v.not_isStop
        rw [h] at hnot
        cases hnot
      have hstopBase : v.typeId ≠ .stopBase := fun h => by
        have hnot := v.not_isStop
        rw [h] at hnot
        cases hnot
      rw [headerOf, readUnknownFields, if_neg hstop, if_neg hstopBase, pending, List.append_assoc]
      cases hes with
      | cons h hs =>
          refine h.bind (runsTo_readFieldBegin P fs (ih k ?_ hs))
          rw [List.length_cons] at hk
          omega

theorem runsTo_readUnknownFields (levels : List Fields) (fs : Fields) (k : Nat)
    (hk : fs.length + (encodeLevels P.writer levels).length < k)
    (hes : Handles P.writer transform t (unknownEvents fs ++ levelEvents levels) t') :
    RunsTo (readUnknownFields P.reader transform k (headerOf (!levels.isEmpty) fs)) t
      (pending P.writer (!levels.isEmpty) fs ++ encodeLevels P.writer levels) () t' := by
  induction levels generalizing fs k t with
  | nil =>
      refine runsTo_readUnknownFields_append P 0 (fun t₁ k hk hes => ?_) fs k
        (by rw [encodeLevels] at hk; simpa using hk) hes
      obtain ⟨k, rfl⟩ : ∃ k', k = k' + 1 := ⟨k - 1, by omega⟩
      cases hes
      exact RunsTo.pure () _
  | cons level levels ih =>
      refine runsTo_readUnknownFields_append P _ (fun t₁ k hk hes => ?_) fs k hk hes
      obtain ⟨k, rfl⟩ : ∃ k', k = k' + 1 := ⟨k - 1, by omega⟩
      rw [encodeLevels, List.length_append, List.length_append, stopBytes_length] at hk
      rw [List.isEmpty_cons, Bool.not_false, headerOf, if_pos rfl, readUnknownFields,
        if_neg (by decide), if_pos rfl, encodeLevels]
      have hcount := fields_length_le P.writer level
      cases hes with
      | cons h hs =>
          exact RunsTo.nil_bind h (runsTo_readFieldBegin P level (ih level k (by omega) hs))

/-- `ReadFields` on one level of a struct with further levels behind it. -/
theorem runsTo_readFields (time : SchemaTime) (base : Bool) (fields : List (FieldDef n))
    (fs : Fields) (levels : List Fields)
    (hes : Handles P.writer transform t
      (fieldEvents time fields fs ++ if base then [] else levelEvents levels) t') :
    RunsTo (readFields P.reader transform time base fields) t
      (levelPayload P.writer base fs levels) (base && levels.isEmpty) t' := by
  refine runsTo_remainingLength fun left hleft => runsTo_readFieldBegin P fs ?_
  rw [levelPayload, List.length_append, List.length_append, stopBytes_length] at hleft
  have hcount := fields_length_le P.writer fs
  obtain ⟨t₁, hfields, hlevels⟩ := hes.of_append
  have hend : RunsTo (if base then
        return decide ((headerOf (!levels.isEmpty) []).1 = .stop)
      else do
        readUnknownFields P.reader transform (left + 1) (headerOf (!levels.isEmpty) [])
        return false : ParserM τ Bool) t₁ (if base then [] else encodeLevels P.writer levels)
      (base && levels.isEmpty) t' := by
    cases base with
    | true =>
        cases hlevels
        cases levels with
        | nil => exact RunsTo.pure true _
        | cons level levels => exact RunsTo.pure false _
    | false =>
        have hunknown := runsTo_readUnknownFields P levels [] (left + 1)
          (by simp at hleft ⊢; omega) hlevels
        exact hunknown.bind_nil (RunsTo.pure false t')
  cases time with
  | compileTime =>
      exact runsTo_readFieldsCompileTime P fields fs (left + 1) (by omega) hfields hend
  | runtime =>
      exact runsTo_readFieldsRuntime P fields fs (left + 1) (by omega) hfields hend

end

end Bond.Cpp

import Bond.Cpp.FastBinary
import Bond.Cpp.ParserMerge

set_option autoImplicit false

/-! # What a parser reports of a struct

A transform that records what `DynamicParser` tells it, and what the record says of the fields of the
schema and of the payload. -/

namespace Bond.Cpp

open Decoder

variable {n : Nat}

/-! ## A transform that records -/

/-- What a transform is told of one field. -/
inductive Report where
  | field (id : UInt16) (metadata : Metadata) (value : Value)
  | unknownField (id : UInt16) (value : Value)
  | omittedField (id : UInt16) (metadata : Metadata) (type : BondDataType)
  | unknownEnd

/-- The id that is reported on. -/
def Report.id : Report → Option UInt16
  | .field id _ _ | .unknownField id _ | .omittedField id _ _ => some id
  | .unknownEnd => none

/-- The payload field that is reported. -/
def Report.payload : Report → Option (UInt16 × Value)
  | .field id _ v | .unknownField id v => some (id, v)
  | .omittedField _ _ _ | .unknownEnd => none

def Event.report : Event n → Report
  | .nonBasicTypeField field v | .basicTypeField field v => .field field.id field.metadata v
  | .unknownField id v => .unknownField id v
  | .omittedField field => .omittedField field.id field.metadata field.type.id
  | .unknownEnd => .unknownEnd

/-- A transform for the fields of one level that keeps a record of what it is told and reads every
    value. -/
def recorder (P : TaggedProtocol) : Transform n (List Report) where
  expectedDepth := 0xffff
  begin_ _ := return ()
  end_ := return ()
  unknownEnd := modify (· ++ [.unknownEnd])
  base _ := return false
  nonBasicTypeField field := do
    let v ← onInput (P.readPayload field.type.id)
    modify (· ++ [.field field.id field.metadata v])
  basicTypeField id metadata type := do
    let v ← onInput (P.readPayload (.basic type))
    modify (· ++ [.field id metadata v])
  unknownField id type := do
    let v ← onInput (P.readPayload type)
    modify (· ++ [.unknownField id v])
  omittedField field := modify (· ++ [.omittedField field.id field.metadata field.type.id])

/-- The value of an event is one that the call for the event can be about. -/
def Event.Fits : Event n → Prop
  | .nonBasicTypeField field v => field.type.id = v.typeId ∧ v.wellFormed = true
  | .basicTypeField _ v => v.typeId.isBasic = true ∧ v.wellFormed = true
  | .unknownField _ v => v.wellFormed = true
  | .omittedField _ | .unknownEnd => True

theorem BondDataType.isBasic_of_not_isNonBasic {type : BondDataType} (h : type.isValue = true)
    (hnot : type.isNonBasic = false) : type.isBasic = true := by
  cases type <;> simp_all [isValue, isNonBasic, isBasic]

theorem compileTimeEvent_fits (field : FieldDef n) {v : Value} (h : v.wellFormed = true) :
    (compileTimeEvent field v).Fits := by
  unfold compileTimeEvent headEvent
  split_ifs with hmatch hbasic
  · exact ⟨hmatch.2, h⟩
  · exact ⟨BondDataType.isBasic_of_not_isNonBasic v.typeId_isValue (by simpa using hbasic.2.2), h⟩
  · exact h

theorem runtimeEvent_fits (field : FieldDef n) {v : Value} (h : v.wellFormed = true) :
    (runtimeEvent field v).Fits := by
  unfold runtimeEvent
  split_ifs with hnon hmatch
  · exact ⟨hmatch, h⟩
  · exact h
  · exact ⟨BondDataType.isBasic_of_not_isNonBasic v.typeId_isValue (by simpa using hnon), h⟩

theorem fieldEvents_fits (time : SchemaTime) (fields : List (FieldDef n)) {fs : Fields}
    (hfs : PayloadIncreasing fs) (hwf : wellFormedFields fs = true) :
    ∀ e ∈ fieldEvents time fields fs, e.Fits := by
  have hvalue := wellFormedFields_iff.1 hwf
  cases time with
  | compileTime =>
      rw [fieldEvents, compileTimeEvents_eq fields hfs]
      exact forall_mergeEvents hfs hvalue (fun f p hp => compileTimeEvent_fits f (hvalue p hp))
        fun _ => trivial
  | runtime =>
      rw [fieldEvents, runtimeEvents_eq fields hfs]
      exact forall_mergeEvents hfs hvalue (fun f p hp => runtimeEvent_fits f (hvalue p hp))
        fun _ => trivial

theorem levelEvents_fits {levels : List Fields} (hwf : ∀ fs ∈ levels, wellFormedFields fs = true) :
    ∀ e ∈ (levelEvents levels : List (Event n)), e.Fits := by
  intro e he
  obtain ⟨fs, hfs, he⟩ := List.mem_flatMap.1 he
  rcases List.mem_cons.1 he with rfl | he
  · trivial
  · obtain ⟨p, hp, rfl⟩ := List.mem_map.1 he
    exact wellFormedFields_iff.1 (hwf fs hfs) p hp

/-- The events on the levels that only the payload has. -/
def restEvents (base : Bool) (levels : List Fields) : List (Event n) :=
  if base then [] else levelEvents levels

theorem restEvents_nil (base : Bool) : (restEvents base [] : List (Event n)) = [] := by
  cases base <;> rfl

/-- The calls on one level, and on those behind it, are about values that fit them. -/
theorem level_fits (time : SchemaTime) (base : Bool) (fields : List (FieldDef n)) {fs : Fields}
    {rest : List Fields} (hfs : PayloadIncreasing fs)
    (hwf : ∀ fs' ∈ fs :: rest, wellFormedFields fs' = true) :
    ∀ e ∈ fieldEvents time fields fs ++ restEvents base rest, e.Fits := by
  intro e he
  rcases List.mem_append.1 he with he | he
  · exact fieldEvents_fits time fields hfs (hwf fs List.mem_cons_self) e he
  · cases base with
    | true => cases he
    | false => exact levelEvents_fits (fun fs' h => hwf fs' (List.mem_cons_of_mem fs h)) e he

section

variable (P : TaggedProtocol)

theorem runsTo_record {type : BondDataType} {v : Value} (htype : type = v.typeId)
    (h : v.wellFormed = true) (report : Value → Report) (log : List Report) :
    RunsTo (do let v ← onInput (P.readPayload type); modify (· ++ [report v])) log
      (v.encode P.writer) () (log ++ [report v]) := by
  subst htype
  exact (RunsTo.lift (P.decodes_readPayload v h) log).bind_nil (RunsTo.modify _ log)

theorem recorder_on {e : Event n} (he : e.Fits) (log : List Report) :
    RunsTo ((recorder P).on e) log (e.encoding P.writer) () (log ++ [e.report]) := by
  cases e with
  | nonBasicTypeField field v => exact runsTo_record P he.1 he.2 (.field field.id field.metadata) log
  | basicTypeField field v =>
      obtain ⟨hbasic, hwf⟩ := he
      obtain ⟨type, htype⟩ : ∃ type, v.typeId = .basic type := by
        cases h : v.typeId <;> simp_all [BondDataType.isBasic]
      rw [Transform.on, htype, basicTypeField]
      exact runsTo_record P htype.symm hwf (.field field.id field.metadata) log
  | unknownField id v =>
      rw [Transform.on, unknownField, if_pos v.typeId_isValue]
      exact runsTo_record P rfl he (.unknownField id) log
  | omittedField field => exact RunsTo.modify _ log
  | unknownEnd => exact RunsTo.modify _ log

theorem handles_recorder {es : List (Event n)} (hes : ∀ e ∈ es, e.Fits) (log : List Report) :
    Handles P.writer (recorder P) log es (log ++ es.map Event.report) := by
  induction es generalizing log with
  | nil =>
      rw [List.map_nil, List.append_nil]
      exact .nil log
  | cons e es ih =>
      have htail := ih (fun e he => hes e (List.mem_cons_of_mem _ he)) (log ++ [e.report])
      rw [List.append_assoc, List.singleton_append, ← List.map_cons] at htail
      exact .cons (recorder_on P (hes e List.mem_cons_self) log) htail

/-- What a parser that does not parse a base reports of further levels. -/
def levelReports (base : Bool) (levels : List Fields) : List Report :=
  if base then [] else
    levels.flatMap fun fs => .unknownEnd :: fs.map fun p => .unknownField p.1 p.2

theorem levelReports_eq (base : Bool) (levels : List Fields) :
    levelReports base levels = (restEvents base levels : List (Event n)).map Event.report := by
  cases base with
  | true => rfl
  | false =>
      simp only [levelReports, restEvents, levelEvents, unknownEvents, Bool.false_eq_true, if_false,
        List.map_flatMap, List.map_cons, List.map_map]
      rfl

/-- What `recorder` does on one level. -/
theorem handles_recorder_level (time : SchemaTime) (base : Bool) (fields : List (FieldDef n))
    {fs : Fields} {levels : List Fields} (hfs : PayloadIncreasing fs)
    (hwf : ∀ fs' ∈ fs :: levels, wellFormedFields fs' = true) (log : List Report) :
    Handles P.writer (recorder P) log
      (fieldEvents time fields fs ++ if base then [] else levelEvents levels)
      (log ++ ((fieldEvents time fields fs).map Event.report ++ levelReports base levels)) := by
  rw [levelReports_eq (n := n), ← List.map_append]
  exact handles_recorder P (level_fits time base fields hfs hwf) log

/-- The record of one level. -/
theorem runsTo_recorder (time : SchemaTime) (base : Bool) (fields : List (FieldDef n))
    {fs : Fields} {levels : List Fields} (hfs : PayloadIncreasing fs)
    (hwf : ∀ fs' ∈ fs :: levels, wellFormedFields fs' = true) :
    RunsTo (readFields P.reader (recorder P) time base fields) []
      (levelPayload P.writer base fs levels) (base && levels.isEmpty)
      ((fieldEvents time fields fs).map Event.report ++ levelReports base levels) :=
  runsTo_readFields P time base fields fs levels
    (handles_recorder_level P time base fields hfs hwf [])

end

/-! ## Every field once -/

/-- In a list that is ordered by a key, each key occurs once. -/
theorem countP_key {α : Type} {key : α → UInt16} {xs : List α}
    (h : xs.Pairwise fun a b => key a < key b) {a : α} (ha : a ∈ xs) :
    xs.countP (fun x => key x = key a) = 1 := by
  induction xs with
  | nil => cases ha
  | cons x xs ih =>
      obtain ⟨hx, htail⟩ := List.pairwise_cons.1 h
      rcases List.mem_cons.1 ha with rfl | hmem
      · have hnone : xs.countP (fun x => key x = key a) = 0 := by
          rw [List.countP_eq_zero]
          intro y hy
          simpa using (UInt16.ne_of_lt (hx y hy)).symm
        rw [List.countP_cons, hnone]
        simp
      · have hne : key x ≠ key a := UInt16.ne_of_lt (hx a hmem)
        rw [List.countP_cons, ih htail hmem]
        simp [hne]

theorem countP_id_report (es : List (Event n)) (id : UInt16) :
    (es.map Event.report).countP (fun r => r.id = some id) =
      (es.filterMap Event.payload).countP (fun p => p.1 = id) +
        (es.filterMap Event.omitted).countP (fun f => f.id = id) := by
  induction es with
  | nil => rfl
  | cons e es ih =>
      rw [List.map_cons, List.countP_cons, ih]
      cases e <;>
        simp [Event.report, Report.id, Event.payload, Event.omitted, List.filterMap_cons,
          List.countP_cons] <;> omega

section

variable {fields : List (FieldDef n)} {fs : Fields} (hfields : Increasing fields)
  (hfs : PayloadIncreasing fs)

include hfields hfs

theorem mergeEvents_count (always : Bool) {event : FieldDef n → Value → Event n}
    (hevent : ∀ field v, (event field v).payload = some (field.id, v)) {f : FieldDef n}
    (hf : f ∈ fields) :
    ((mergeEvents always event fields fs).map Event.report).countP (fun r => r.id = some f.id) =
      if always = true ∨ ¬ Hidden fields fs f.id then 1 else 0 := by
  rw [countP_id_report, mergeEvents_payload hevent always fields hfs,
    mergeEvents_omitted hevent always hfields hfs]
  have hnotOmitted (h : ¬ (Absent f.id fs ∧ (always = true ∨ ¬ Hidden fields fs f.id))) :
      (fields.filter fun g =>
        decide (Absent g.id fs ∧ (always = true ∨ ¬ Hidden fields fs g.id))).countP
          (fun g => g.id = f.id) = 0 := by
    rw [List.countP_eq_zero]
    intro g hg hid
    have hkept := of_decide_eq_true (List.mem_filter.1 hg).2
    rw [of_decide_eq_true hid] at hkept
    exact h hkept
  by_cases habsent : Absent f.id fs
  · have hnone : fs.countP (fun p => p.1 = f.id) = 0 := by
      rw [List.countP_eq_zero]
      intro p hp
      simpa using habsent p hp
    rw [hnone, Nat.zero_add]
    split_ifs with hreported
    · exact countP_key (hfields.sublist List.filter_sublist)
        (List.mem_filter.2 ⟨hf, decide_eq_true ⟨habsent, hreported⟩⟩)
    · exact hnotOmitted fun h => hreported h.2
  · have hreported : always = true ∨ ¬ Hidden fields fs f.id := Or.inr fun h => habsent h.1
    obtain ⟨p, hp⟩ := not_forall.1 habsent
    obtain ⟨hmem, hid⟩ := Classical.not_imp.1 hp
    have hone := countP_key hfs hmem
    rw [not_not.1 hid] at hone
    rw [hone, hnotOmitted fun h => habsent h.1, if_pos hreported]

end

/-- Whether a schema field that is not in the payload is always reported as omitted. -/
def SchemaTime.omitsAlways : SchemaTime → Bool
  | .compileTime => false
  | .runtime => true

/-- What a parser is expected to do on the fields `fs` of a payload, in front of further levels and of
    `rest`: report each field of the payload once and in order, report each field of the schema once,
    and stop right in front of `rest`. -/
def ReportsOnce (P : TaggedProtocol) (time : SchemaTime) (base : Bool) (fields : List (FieldDef n))
    (fs : Fields) (levels : List Fields) (b : InputBuffer) (rest : List UInt8) : Prop :=
  ∃ done own b',
    ((readFields P.reader (recorder P) time base fields).run []).run b =
      .ok ((done, own ++ levelReports base levels), b') ∧
    remaining b' = rest ∧
    own.filterMap Report.payload = fs ∧
    ∀ f ∈ fields, own.countP (fun r => r.id = some f.id) = 1

theorem compileTimeEvent_payload (field : FieldDef n) (v : Value) :
    (compileTimeEvent field v).payload = some (field.id, v) := by
  unfold compileTimeEvent headEvent
  split_ifs <;> rfl

theorem runtimeEvent_payload (field : FieldDef n) (v : Value) :
    (runtimeEvent field v).payload = some (field.id, v) := by
  unfold runtimeEvent
  split_ifs <;> rfl

theorem report_payload (es : List (Event n)) :
    (es.map Event.report).filterMap Report.payload = es.filterMap Event.payload := by
  rw [List.filterMap_map]
  congr 1
  funext e
  cases e <;> rfl

section

variable {fields : List (FieldDef n)} {fs : Fields} (hfields : Increasing fields)
  (hfs : PayloadIncreasing fs)

include hfs

theorem fieldEvents_payload (time : SchemaTime) (fields : List (FieldDef n)) :
    ((fieldEvents time fields fs).map Event.report).filterMap Report.payload = fs := by
  rw [report_payload]
  cases time with
  | compileTime =>
      rw [fieldEvents, compileTimeEvents_eq fields hfs]
      exact mergeEvents_payload compileTimeEvent_payload false fields hfs
  | runtime =>
      rw [fieldEvents, runtimeEvents_eq fields hfs]
      exact mergeEvents_payload runtimeEvent_payload true fields hfs

include hfields

theorem fieldEvents_count (time : SchemaTime) {f : FieldDef n} (hf : f ∈ fields) :
    ((fieldEvents time fields fs).map Event.report).countP (fun r => r.id = some f.id) =
      if time.omitsAlways = true ∨ ¬ Hidden fields fs f.id then 1 else 0 := by
  cases time with
  | compileTime =>
      rw [fieldEvents, compileTimeEvents_eq fields hfs]
      exact mergeEvents_count hfields hfs false compileTimeEvent_payload hf
  | runtime =>
      rw [fieldEvents, runtimeEvents_eq fields hfs]
      exact mergeEvents_count hfields hfs true runtimeEvent_payload hf

/-- A hidden field is not reported. -/
theorem ReportsOnce.not_hidden {P : TaggedProtocol} {base : Bool} {levels : List Fields}
    (hwf : ∀ fs' ∈ fs :: levels, wellFormedFields fs' = true) {b : InputBuffer} {rest : List UInt8}
    (hb : remaining b = levelPayload P.writer base fs levels ++ rest)
    (h : ReportsOnce P .compileTime base fields fs levels b rest) {f : FieldDef n}
    (hf : f ∈ fields) : ¬ Hidden fields fs f.id := by
  intro hhidden
  obtain ⟨done, own, b', hown, -, -, honce⟩ := h
  have hrun := runsTo_recorder P .compileTime base fields hfs hwf b rest hb
  rw [hrun] at hown
  have hlogs := congrArg (fun r => r.toOption.map fun x => x.1.2) hown
  have heq := List.append_cancel_right (Option.some.inj hlogs)
  have hzero := fieldEvents_count hfields hfs .compileTime hf
  rw [if_neg (by simp [SchemaTime.omitsAlways, hhidden]), heq, honce f hf] at hzero
  cases hzero

/-- `DynamicParser` reports every field once, except for what a compile-time schema hides: a schema
    field that is absent from the payload behind a payload field that the schema does not know. -/
theorem reportsOnce_iff (P : TaggedProtocol) (time : SchemaTime) (base : Bool) (levels : List Fields)
    (hwf : ∀ fs' ∈ fs :: levels, wellFormedFields fs' = true) (b : InputBuffer) (rest : List UInt8)
    (hb : remaining b = levelPayload P.writer base fs levels ++ rest) :
    ReportsOnce P time base fields fs levels b rest ↔
      (time = .compileTime → ∀ f ∈ fields, ¬ Hidden fields fs f.id) := by
  constructor
  · rintro h rfl f hf
    exact h.not_hidden hfields hfs hwf hb hf
  · intro h
    refine ⟨_, _, _, runsTo_recorder P time base fields hfs hwf b rest hb,
      remaining_advance_append hb, fieldEvents_payload hfs time fields, fun f hf => ?_⟩
    rw [fieldEvents_count hfields hfs time hf, if_pos]
    cases time with
    | compileTime => exact Or.inr (h rfl f hf)
    | runtime => exact Or.inl rfl

end

/-! ### Two payloads of one schema -/

/-- A schema with one optional field. -/
def fieldFive : FieldDef 1 where
  metadata := { name := "five", qualifiedName := "", modifier := .optional }
  id := 5
  type := .basic .int32

/-- Fast Binary with a field in front of field 5, which is not there. -/
def fieldThree : Fields := [(3, .basic (.int32 7))]

def fieldThreePayload : InputBuffer :=
  .ofBlob (levelPayload fastBinary.writer false fieldThree []) (by decide)

theorem fieldFive_not_reported :
    Increasing [fieldFive] ∧ PayloadIncreasing fieldThree ∧ wellFormedFields fieldThree = true ∧
      remaining fieldThreePayload = levelPayload fastBinary.writer false fieldThree [] ++ [] ∧
      ¬ ReportsOnce fastBinary .compileTime false [fieldFive] fieldThree [] fieldThreePayload [] := by
  have hwf : ∀ fs ∈ [fieldThree], wellFormedFields fs = true := by decide
  refine ⟨by decide, by decide, by decide, rfl, fun h => ?_⟩
  exact h.not_hidden (by decide) (by decide) hwf rfl List.mem_cons_self (by decide)

/-- Fast Binary with field 5 and a further level behind it. -/
def fieldFivePayload : InputBuffer :=
  .ofBlob (levelPayload fastBinary.writer false [(5, .basic (.int16 7)), (9, .struct (.root []))]
    [fieldThree]) (by decide)

theorem reportsOnce_fieldFive :
    ReportsOnce fastBinary .compileTime false [fieldFive]
      [(5, .basic (.int16 7)), (9, .struct (.root []))] [fieldThree] fieldFivePayload [] :=
  (reportsOnce_iff (by decide) (by decide) fastBinary .compileTime false [fieldThree] (by decide)
    fieldFivePayload [] rfl).2 (by decide)

end Bond.Cpp

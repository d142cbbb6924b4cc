import Bond.Cpp.ParserDescent

set_option autoImplicit false

/-! # Compile-time schema and runtime schema

`DynamicParser` has a version of `ReadFields` for a schema that is a C++ type and one for a
`RuntimeSchema`. The two are compared on whole structs: what they tell a transform, and what they
consume. -/

namespace Bond.Cpp

open Decoder

variable {n : Nat}

/-! ## The record of a struct -/

/-- `recorder`, whose `Base` records the base struct. The levels of the hierarchy are bounded. -/
def recordBases (P : TaggedProtocol) (S : SchemaDef n) (time : SchemaTime) :
    Nat → Transform n (List Report)
  | 0 => (recorder P).withBase fun _ => onInput (InputBuffer.bondThrow .undefinedBehavior)
  | k + 1 => (recorder P).withBase fun j =>
      applyParser P.reader (recordBases P S time k) S time true j

/-- What a parser reports of a struct. -/
def record (P : TaggedProtocol) (S : SchemaDef n) (time : SchemaTime) (i : Fin n) :
    Reader (Bool × List Report) :=
  (applyParser P.reader (recordBases P S time n) S time false i).run []

theorem recordBases_expectedDepth (P : TaggedProtocol) (S : SchemaDef n) (time : SchemaTime)
    (k : Nat) : (recordBases P S time k).expectedDepth = 0xffff := by
  cases k <;> rfl

theorem recordBases_begin (P : TaggedProtocol) (S : SchemaDef n) (time : SchemaTime) (k : Nat)
    (metadata : Metadata) (log : List Report) :
    RunsTo ((recordBases P S time k).begin_ metadata) log [] () log := by
  cases k <;> exact RunsTo.pure () log

theorem recordBases_end (P : TaggedProtocol) (S : SchemaDef n) (time : SchemaTime) (k : Nat)
    (log : List Report) : RunsTo (recordBases P S time k).end_ log [] () log := by
  cases k <;> exact RunsTo.pure () log

theorem Handles.recordBases {P : TaggedProtocol} {W : ProtocolWriter} {log log' : List Report}
    {es : List (Event n)} (h : Handles W (recorder P) log es log') (S : SchemaDef n)
    (time : SchemaTime) (k : Nat) : Handles W (recordBases P S time k) log es log' := by
  cases k <;> exact h.withBase _

/-- The reports on the levels that both the schema and the payload have. -/
def hierarchyReports (S : SchemaDef n) (time : SchemaTime) (is : List (Fin n))
    (levels : List Fields) : List Report :=
  (is.zip levels).flatMap fun p => (fieldEvents time (S.structs p.1).fields p.2).map Event.report

theorem hierarchyReports_eq (S : SchemaDef n) (time : SchemaTime) (is : List (Fin n))
    (levels : List Fields) :
    hierarchyReports S time is levels = (hierarchyEvents S time is levels).map Event.report := by
  rw [hierarchyReports, hierarchyEvents, List.map_flatMap]

/-- A record grows by a report for each event. -/
theorem descends_recordBases (P : TaggedProtocol) (S : SchemaDef n) (time : SchemaTime) :
    Descends P S time (recordBases P S time) fun log es => log ++ es.map Event.report where
  expectedDepth := recordBases_expectedDepth P S time
  begin_ := recordBases_begin P S time
  end_ := recordBases_end P S time
  base _ _ := rfl
  handles k _ log h := (handles_recorder P h log).recordBases S time k
  after_append log es es' := by rw [List.map_append, List.append_assoc]

/-! ## Where the two versions agree -/

/-- A field that the schema says is a struct or a container, while the payload has a basic value. -/
def Mistyped (field : FieldDef n) (v : Value) : Prop :=
  field.type.id.isNonBasic = true ∧ v.typeId.isNonBasic = false

instance (field : FieldDef n) (v : Value) : Decidable (Mistyped field v) :=
  inferInstanceAs (Decidable (_ ∧ _))

theorem isBasic_iff_not_isNonBasic {type : BondDataType} (h : type.isValue = true) :
    type.isBasic = true ↔ ¬ type.isNonBasic = true := by
  cases type <;> simp_all [BondDataType.isValue, BondDataType.isBasic, BondDataType.isNonBasic]

theorem event_report_eq_iff (field : FieldDef n) (v : Value) :
    (compileTimeEvent field v).report = (runtimeEvent field v).report ↔ ¬ Mistyped field v := by
  have hbasic := isBasic_iff_not_isNonBasic field.type.id_isValue
  unfold compileTimeEvent headEvent runtimeEvent Mistyped
  by_cases hmatch : field.type.id = v.typeId
  · cases hnon : v.typeId.isNonBasic <;> simp [hmatch, hnon, Event.report]
  · cases hnon : v.typeId.isNonBasic <;> by_cases hfield : field.type.id.isNonBasic = true <;>
      simp [hmatch, hbasic, hfield, Event.report]

/-- What a list of fields is and is not told alike by both versions. -/
def Agree (fields : List (FieldDef n)) (fs : Fields) : Prop :=
  ∀ f ∈ fields, ¬ Hidden fields fs f.id ∧ ∀ p ∈ fs, p.1 = f.id → ¬ Mistyped f p.2

instance (fields : List (FieldDef n)) (fs : Fields) : Decidable (Agree fields fs) :=
  inferInstanceAs (Decidable (∀ f ∈ fields, _))

/-- The compile-time version never reports more. -/
theorem mergeEvents_length_le (event event' : FieldDef n → Value → Event n)
    (fields : List (FieldDef n)) (fs : Fields) :
    (mergeEvents false event fields fs).length ≤ (mergeEvents true event' fields fs).length := by
  induction fields generalizing fs with
  | nil => exact Nat.le_refl _
  | cons field fields ih =>
      have htail := ih (above field.id fs)
      simp only [mergeEvents, List.length_append]
      cases withId field.id fs with
      | some p =>
          simp only [List.length_singleton]
          omega
      | none =>
          simp only [Bool.true_or, Bool.false_or, if_true, List.length_singleton]
          split_ifs <;> simp <;> omega

section

variable {field : FieldDef n} {fields : List (FieldDef n)} {fs : Fields}
  (hfields : Increasing (field :: fields)) (hfs : PayloadIncreasing fs)

include hfields hfs

theorem agree_cons_iff :
    Agree (field :: fields) fs ↔
      (¬ Hidden (field :: fields) fs field.id ∧ ∀ p, withId field.id fs = some p →
        ¬ Mistyped field p.2) ∧ Agree fields (above field.id fs) := by
  have htail : (∀ f ∈ fields, ¬ Hidden (field :: fields) fs f.id ∧
        ∀ p ∈ fs, p.1 = f.id → ¬ Mistyped f p.2) ↔ Agree fields (above field.id fs) := by
    refine forall₂_congr fun f hf => ?_
    have hlt := (List.pairwise_cons.1 hfields).1 f hf
    rw [hidden_tail_iff hfields hfs hf]
    refine and_congr_right fun _ => forall_congr' fun p => ?_
    rw [mem_above_iff hfs]
    constructor
    · intro h hp hid
      exact h hp.1 hid
    · intro h hp hid
      exact h ⟨hp, hid ▸ hlt⟩ hid
  rw [Agree, List.forall_mem_cons, htail]
  refine and_congr_left fun _ => and_congr_right fun _ => ?_
  simp only [withId_eq_some_iff hfs, and_imp]

end

theorem reports_eq_iff {fields : List (FieldDef n)} (hfields : Increasing fields) {fs : Fields}
    (hfs : PayloadIncreasing fs) :
    (mergeEvents false compileTimeEvent fields fs).map Event.report =
        (mergeEvents true runtimeEvent fields fs).map Event.report ↔ Agree fields fs := by
  induction fields generalizing fs with
  | nil => simp [mergeEvents, Agree]
  | cons field fields ih =>
      have htail := ih (List.pairwise_cons.1 hfields).2 (above_increasing hfs field.id)
      have hlength := mergeEvents_length_le compileTimeEvent runtimeEvent fields (above field.id fs)
      rw [agree_cons_iff hfields hfs, ← htail]
      simp only [hidden_head_iff hfields, ← below_isEmpty_iff hfs, ← withId_eq_none_iff]
      rw [mergeEvents, mergeEvents]
      simp only [List.map_append, List.append_assoc, List.append_cancel_left_eq]
      cases hwith : withId field.id fs with
      | some p =>
          simp [event_report_eq_iff]
      | none =>
          cases hempty : (below field.id fs).isEmpty with
          | true => simp
          | false =>
              -- one report less, and no more of them in what follows
              have hne (e : Report) (h : (mergeEvents false compileTimeEvent fields
                  (above field.id fs)).map Event.report = e :: (mergeEvents true runtimeEvent fields
                  (above field.id fs)).map Event.report) : False := by
                have hcount := congrArg List.length h
                rw [List.length_map, List.length_cons, List.length_map] at hcount
                omega
              simpa using hne _

theorem flatMap_length_le {α β : Type} {f g : α → List β} {xs : List α}
    (h : ∀ x ∈ xs, (f x).length ≤ (g x).length) :
    (xs.flatMap f).length ≤ (xs.flatMap g).length := by
  induction xs with
  | nil => exact Nat.le_refl _
  | cons x xs ih =>
      obtain ⟨hx, hxs⟩ := List.forall_mem_cons.1 h
      rw [List.flatMap_cons, List.flatMap_cons, List.length_append, List.length_append]
      exact Nat.add_le_add hx (ih hxs)

/-- Lists put together from parts that are no longer in one than in the other. -/
theorem flatMap_eq_iff {α β : Type} {f g : α → List β} {xs : List α}
    (h : ∀ x ∈ xs, (f x).length ≤ (g x).length) :
    xs.flatMap f = xs.flatMap g ↔ ∀ x ∈ xs, f x = g x := by
  constructor
  · intro heq
    induction xs with
    | nil => simp
    | cons x xs ih =>
        obtain ⟨hx, hxs⟩ := List.forall_mem_cons.1 h
        have hle := flatMap_length_le hxs
        have hlength := congrArg List.length heq
        rw [List.flatMap_cons, List.flatMap_cons, List.length_append, List.length_append] at hlength
        obtain ⟨hhead, htail⟩ := List.append_inj heq (by omega)
        exact List.forall_mem_cons.2 ⟨hhead, ih hxs htail⟩
  · intro heq
    exact List.flatMap_congr heq

section

variable {S : SchemaDef n} {i : Fin n} {is : List (Fin n)} {s : StructValue}
  (hs : ∀ fs ∈ s.levels, PayloadIncreasing fs)

include hs

theorem hierarchyReports_eq_iff :
    hierarchyReports S .compileTime is s.levels = hierarchyReports S .runtime is s.levels ↔
      ∀ p ∈ is.zip s.levels, Agree (S.structs p.1).fields p.2 := by
  have hlevel (p : Fin n × Fields) (hp : p ∈ is.zip s.levels) : PayloadIncreasing p.2 :=
    hs p.2 (List.of_mem_zip hp).2
  have hmerge (p : Fin n × Fields) (hp : p ∈ is.zip s.levels) :=
    compileTimeEvents_eq (S.structs p.1).fields (hlevel p hp)
  have hmerge' (p : Fin n × Fields) (hp : p ∈ is.zip s.levels) :=
    runtimeEvents_eq (S.structs p.1).fields (hlevel p hp)
  unfold hierarchyReports
  rw [flatMap_eq_iff]
  · refine forall₂_congr fun p hp => ?_
    rw [fieldEvents, fieldEvents, hmerge p hp, hmerge' p hp]
    exact reports_eq_iff (S.structs p.1).increasing (hlevel p hp)
  · intro p hp
    rw [fieldEvents, fieldEvents, hmerge p hp, hmerge' p hp, List.length_map, List.length_map]
    exact mergeEvents_length_le _ _ _ _

/-- What a parser tells of a struct. -/
theorem record_run (P : TaggedProtocol) (time : SchemaTime) (h : S.Hierarchy i is)
    (hwf : s.wellFormed = true) (b : InputBuffer) (rest : List UInt8)
    (hb : remaining b = (Value.struct s).encode P.writer ++ rest) :
    (record P S time i).run b =
      .ok ((levelsDone false is.length s.levels,
        hierarchyReports S time is s.levels ++ levelReports false (s.levels.drop is.length)),
        advance b ((Value.struct s).encode P.writer).length) := by
  have hread := (descends_recordBases P S time).runsTo_applyParser h hs hwf []
  rw [List.nil_append, List.map_append, ← hierarchyReports_eq, ← levelReports_eq] at hread
  exact hread b rest hb

/-- The two versions of `DynamicParser` tell a transform the same, and end at the same position, if
    and only if at no level that schema and payload have in common a field is hidden or mistyped. -/
theorem record_eq_iff (P : TaggedProtocol) (h : S.Hierarchy i is) (hwf : s.wellFormed = true)
    (b : InputBuffer) (rest : List UInt8)
    (hb : remaining b = (Value.struct s).encode P.writer ++ rest) :
    (record P S .compileTime i).run b = (record P S .runtime i).run b ↔
      ∀ p ∈ is.zip s.levels, Agree (S.structs p.1).fields p.2 := by
  rw [record_run hs P .compileTime h hwf b rest hb, record_run hs P .runtime h hwf b rest hb,
    ← hierarchyReports_eq_iff hs]
  simp

end

/-! ### A schema for both versions -/

/-- A schema with the struct of field 5. -/
def schemaFive : SchemaDef 1 where
  structs _ :=
    { metadata := { name := "Five", qualifiedName := "Five", modifier := .optional }
      baseDef := none
      fields := [fieldFive]
      increasing := List.pairwise_singleton _ _ }
  root := 0
  size_le := SchemaDef.one_le

/-- Fast Binary with a struct of field 3. -/
def structThreePayload : InputBuffer :=
  .ofBlob ((Value.struct (.root fieldThree)).encode fastBinary.writer) (by decide)

/-- Only the runtime version reports field 5 as omitted. -/
theorem record_three_ne :
    remaining structThreePayload
        = (Value.struct (.root fieldThree)).encode fastBinary.writer ++ [] ∧
      (∀ fs ∈ (StructValue.root fieldThree).levels, PayloadIncreasing fs) ∧
      ¬ (record fastBinary schemaFive .compileTime 0).run structThreePayload
        = (record fastBinary schemaFive .runtime 0).run structThreePayload := by
  have hlevels : ∀ fs ∈ (StructValue.root fieldThree).levels, PayloadIncreasing fs := by decide
  have hroot : schemaFive.Hierarchy 0 [0] := .root rfl
  refine ⟨rfl, hlevels, fun heq => ?_⟩
  rw [record_run hlevels fastBinary .compileTime hroot (by decide) structThreePayload [] rfl,
    record_run hlevels fastBinary .runtime hroot (by decide) structThreePayload [] rfl] at heq
  have hreports : hierarchyReports schemaFive .compileTime [0] (StructValue.root fieldThree).levels
      = hierarchyReports schemaFive .runtime [0] (StructValue.root fieldThree).levels := by
    simpa using heq
  have hagree := (hierarchyReports_eq_iff hlevels).1 hreports (0, fieldThree) List.mem_cons_self
  revert hagree
  decide

/-- Fast Binary with a struct of field 5, as another integer. -/
def structFivePayload : InputBuffer :=
  .ofBlob ((Value.struct (.root [(5, .basic (.int16 7))])).encode fastBinary.writer) (by decide)

theorem record_five_eq :
    (record fastBinary schemaFive .compileTime 0).run structFivePayload
      = (record fastBinary schemaFive .runtime 0).run structFivePayload := by
  have hlevels : ∀ fs ∈ (StructValue.root [(5, .basic (.int16 7))]).levels,
      PayloadIncreasing fs := by decide
  have hroot : schemaFive.Hierarchy 0 [0] := .root rfl
  exact (record_eq_iff hlevels fastBinary hroot (by decide) structFivePayload [] rfl).2 (by decide)

end Bond.Cpp

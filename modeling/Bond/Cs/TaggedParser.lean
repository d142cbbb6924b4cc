import Bond.Cpp.ParserMerge
import Mathlib.Data.List.Forall2

set_option autoImplicit false

/-! # The tagged parser of C#

`TaggedParser.Apply` (cs/src/core/expressions/TaggedParser.cs) generates code: one loop for each
field of the transform, one loop for the rest of the payload. What the generated code does to a
payload is modelled, and which actions of the transform it comes to.

The parser knows of the payload only the header that it read last. A header is the first field of
those that are left in front of a stop marker; a stop marker has the id 0. -/

namespace Bond.Cs

open Bond.Cpp (Value Fields PayloadIncreasing below withId above Absent)

/-! ## The generated code -/

/-- A field of a transform; `actions` is what its `Value` and `Omitted` are made from. -/
structure Field (α : Type) where
  id : UInt16
  actions : α
deriving DecidableEq, Repr

/-- `ITransform`, as far as the parser looks at it: the fields, and whether `Base` applies a transform
    to the base parser. -/
inductive Transform (α : Type) where
  | root (fields : List (Field α))
  | derived (base : Transform α) (fields : List (Field α))

/-- The actions of a transform that the parser runs. -/
inductive Event (α : Type) where
  | value (field : Field α) (v : Value)
  | omitted (field : Field α)
  | unknownField (id : UInt16) (v : Value)
  | unknownEnd

variable {α : Type}

/-- `fieldId` behind `ReadFieldBegin` -/
def fieldId : Fields → UInt16
  | [] => 0
  | (id, _) :: _ => id

def unknownEvents (fs : Fields) : List (Event α) :=
  fs.map fun p => .unknownField p.1 p.2

/-- The loop for one known field, on the fields that are left. -/
def fieldLoop (field : Field α) : Fields → List (Event α) × Fields
  | [] => ([.omitted field], [])
  | (id, v) :: fs =>
      if id = field.id then
        ([.value field v], fs)
      else if field.id < id then
        ([.omitted field], (id, v) :: fs)
      -- `IfThen(GreaterThan(fieldId, f.Id), break)` at the end of a turn
      else if field.id < fieldId fs then
        ([.unknownField id v], fs)
      else
        let (events, rest) := fieldLoop field fs
        (.unknownField id v :: events, rest)

def knownFields : List (Field α) → Fields → List (Event α) × Fields
  | [], fs => ([], fs)
  | field :: fields, fs =>
      let (events, fs) := fieldLoop field fs
      let (events', fs) := knownFields fields fs
      (events ++ events', fs)

/-- The code from the first `ReadFieldBegin` on. A base parser reads one level, any other parser
    reads all levels that are left; there is none if the parser has read past the payload. -/
def applyFields (isBase : Bool) (fields : List (Field α)) :
    List Fields → Option (List (Event α) × List Fields)
  | [] => none
  | fs :: levels =>
      let (events, fs) := knownFields fields fs
      if isBase then
        some (events ++ unknownEvents fs, levels)
      else
        some (events ++ unknownEvents fs ++
          levels.flatMap fun fs => .unknownEnd :: unknownEvents fs, [])

/-- `Apply`. The actions of each transform are listed apart, those of the root first. -/
def apply (isBase : Bool) : Transform α → List Fields → Option (List (List (Event α)) × List Fields)
  | .root fields, levels => do
      let (events, levels) ← applyFields isBase fields levels
      return ([events], levels)
  | .derived base fields, levels => do
      let (traces, levels) ← apply true base levels
      let (events, levels) ← applyFields isBase fields levels
      return (traces ++ [events], levels)

/-- The fields of each transform, those of the root first. -/
def Transform.levels : Transform α → List (List (Field α))
  | .root fields => [fields]
  | .derived base fields => base.levels ++ [fields]

/-! ## One field -/

/-- The order of the fields of a transform. -/
def Increasing (fields : List (Field α)) : Prop :=
  fields.Pairwise fun f g => f.id < g.id

/-- The id of the field that an action belongs to. -/
def Event.fieldId : Event α → Option UInt16
  | .value field _ | .omitted field => some field.id
  | .unknownField _ _ | .unknownEnd => none

/-- The actions for the field with an id. -/
def about (id : UInt16) (events : List (Event α)) : List (Event α) :=
  events.filter fun e => e.fieldId = some id

theorem about_append (id : UInt16) (events events' : List (Event α)) :
    about id (events ++ events') = about id events ++ about id events' :=
  List.filter_append _ _

theorem about_unknownEvents (id : UInt16) (fs : Fields) :
    about id (unknownEvents fs : List (Event α)) = [] := by
  refine List.filter_eq_nil_iff.2 fun e he => ?_
  obtain ⟨p, -, rfl⟩ := List.mem_map.1 he
  simp [Event.fieldId]

/-- What the loop for a field does where the ids increase: the fields below its id are unknown to it,
    and it omits the field only if it passed none of them or nothing is left behind them. -/
theorem fieldLoop_eq (field : Field α) {fs : Fields} (hfs : PayloadIncreasing fs) :
    fieldLoop field fs =
      (unknownEvents (below field.id fs) ++
        (match withId field.id fs with
          | some p => [.value field p.2]
          | none => if below field.id fs = [] ∨ above field.id fs = [] then [.omitted field] else []),
        above field.id fs) := by
  induction fs with
  | nil => rfl
  | cons p fs ih =>
      obtain ⟨id, v⟩ := p
      obtain ⟨hgt, htail⟩ := List.pairwise_cons.1 hfs
      rw [fieldLoop]
      by_cases heq : id = field.id
      · subst heq
        rw [if_pos rfl, Cpp.above_cons_self hfs]
        simp [below, withId, unknownEvents]
      · rw [if_neg heq]
        by_cases hbeyond : field.id < id
        · obtain ⟨hnil, hnone, hself⟩ := Cpp.above_eq_self hfs rfl hbeyond
          rw [if_pos hbeyond, hnil, hnone, hself]
          rfl
        · have hlt : id < field.id := UInt16.lt_of_le_of_ne (UInt16.not_lt.1 hbeyond) heq
          have hbelow : below field.id ((id, v) :: fs) = (id, v) :: below field.id fs := by
            simp [below, hlt]
          have hwith : withId field.id ((id, v) :: fs) = withId field.id fs := by
            simp [withId, heq]
          have habove : above field.id ((id, v) :: fs) = above field.id fs := by
            simp [above, UInt16.le_of_lt hlt]
          rw [if_neg hbeyond, hbelow, hwith, habove]
          by_cases hpast : field.id < fieldId fs
          · -- the next header is beyond the field, which is not omitted
            cases fs with
            | nil => exact absurd hpast (UInt16.not_lt.2 (UInt16.le_iff_toNat_le.2 (Nat.zero_le _)))
            | cons q fs =>
                obtain ⟨hnil, hnone, hself⟩ := Cpp.above_eq_self htail rfl hpast
                rw [if_pos hpast, hnil, hnone, hself]
                simp [unknownEvents]
          · rw [if_neg hpast, ih htail]
            cases hsome : withId field.id fs with
            | some p => simp [unknownEvents]
            | none =>
                have hcase : below field.id fs = [] ∨ above field.id fs = [] ↔
                    above field.id fs = [] := by
                  refine or_iff_right_of_imp fun hnil => ?_
                  cases fs with
                  | nil => rfl
                  | cons q fs =>
                      -- a next field that is not beyond the id, not below it and not at it
                      exfalso
                      have hle : q.1 ≤ field.id := UInt16.not_lt.1 hpast
                      have hne := Cpp.withId_eq_none_iff.1 hsome q List.mem_cons_self
                      simp [below, UInt16.lt_of_le_of_ne hle hne] at hnil
                simp [hcase, unknownEvents]

/-! ## One level -/

/-- The action that a field has to see once: its value if the payload has one, else `Omitted`. -/
def expected (field : Field α) (fs : Fields) : Event α :=
  match withId field.id fs with
  | some p => .value field p.2
  | none => .omitted field

def Reported (field : Field α) (fs : Fields) (events : List (Event α)) : Prop :=
  about field.id events = [expected field fs]

/-- The payload has no field with the id, but fields on both sides of it, the lower one beyond the
    transform field in front. -/
def Overtaken (fields : List (Field α)) (fs : Fields) (id : UInt16) : Prop :=
  Absent id fs ∧ (∃ p ∈ fs, p.1 < id ∧ ∀ g ∈ fields, g.id < id → g.id < p.1) ∧
    ∃ p ∈ fs, id < p.1

instance (fields : List (Field α)) (fs : Fields) (id : UInt16) :
    Decidable (Overtaken fields fs id) :=
  inferInstanceAs (Decidable (_ ∧ _))

/-- The loops for fields report on no others. -/
theorem about_knownFields {fields : List (Field α)} {id : UInt16} (h : ∀ g ∈ fields, g.id ≠ id)
    {fs : Fields} (hfs : PayloadIncreasing fs) : about id (knownFields fields fs).1 = [] := by
  induction fields generalizing fs with
  | nil => rfl
  | cons field fields ih =>
      obtain ⟨hfield, htail⟩ := List.forall_mem_cons.1 h
      rw [knownFields, fieldLoop_eq field hfs]
      simp only [about_append, about_unknownEvents, ih htail (Cpp.above_increasing hfs _),
        List.nil_append, List.append_nil]
      cases withId field.id fs with
      | some p => simp [about, Event.fieldId, hfield]
      | none => dsimp only; split_ifs <;> simp [about, Event.fieldId, hfield]

theorem below_eq_nil_iff {id : UInt16} {fs : Fields} (hfs : PayloadIncreasing fs) :
    below id fs = [] ↔ ∀ p ∈ fs, ¬ p.1 < id := by
  rw [← List.isEmpty_iff]
  exact Cpp.below_isEmpty_iff hfs

theorem above_eq_nil_iff {id : UInt16} {fs : Fields} (hfs : PayloadIncreasing fs) :
    above id fs = [] ↔ ∀ p ∈ fs, ¬ id < p.1 := by
  rw [List.eq_nil_iff_forall_not_mem]
  simp only [Cpp.mem_above_iff hfs]
  exact ⟨fun h p hp hlt => h p ⟨hp, hlt⟩, fun h p hp => h p hp.1 hp.2⟩

section

variable {field : Field α} {fields : List (Field α)} {fs : Fields}
  (hfields : Increasing (field :: fields)) (hfs : PayloadIncreasing fs)

include hfields

theorem overtaken_head_iff :
    Overtaken (field :: fields) fs field.id ↔
      Absent field.id fs ∧ (∃ p ∈ fs, p.1 < field.id) ∧ ∃ p ∈ fs, field.id < p.1 := by
  have hlast (p : UInt16 × Value) : ∀ g ∈ field :: fields, g.id < field.id → g.id < p.1 := by
    intro g hg hlt
    rcases List.mem_cons.1 hg with rfl | hg
    · exact absurd hlt (UInt16.lt_irrefl _)
    · exact absurd hlt (UInt16.lt_asymm ((List.pairwise_cons.1 hfields).1 g hg))
  unfold Overtaken
  refine and_congr_right fun _ => and_congr_left fun _ => exists_congr fun p => ?_
  exact ⟨fun ⟨hp, hlt, _⟩ => ⟨hp, hlt⟩, fun ⟨hp, hlt⟩ => ⟨hp, hlt, hlast p⟩⟩

include hfs

theorem overtaken_tail_iff {g : Field α} (hg : g ∈ fields) :
    Overtaken (field :: fields) fs g.id ↔ Overtaken fields (above field.id fs) g.id := by
  have hlt := (List.pairwise_cons.1 hfields).1 g hg
  have habsent : Absent g.id fs ↔ Absent g.id (above field.id fs) := by
    constructor
    · intro h p hp
      exact h p ((Cpp.mem_above_iff hfs).1 hp).1
    · intro h p hp hid
      exact h p ((Cpp.mem_above_iff hfs).2 ⟨hp, hid ▸ hlt⟩) hid
  unfold Overtaken
  rw [habsent]
  refine and_congr_right fun _ => and_congr ?_ ?_
  · constructor
    · rintro ⟨p, hp, hpg, hall⟩
      have hbeyond := hall field List.mem_cons_self hlt
      exact ⟨p, (Cpp.mem_above_iff hfs).2 ⟨hp, hbeyond⟩, hpg,
        fun f hf => hall f (List.mem_cons_of_mem field hf)⟩
    · rintro ⟨p, hp, hpg, hall⟩
      obtain ⟨hmem, hbeyond⟩ := (Cpp.mem_above_iff hfs).1 hp
      refine ⟨p, hmem, hpg, fun f hf hfg => ?_⟩
      rcases List.mem_cons.1 hf with rfl | hf
      · exact hbeyond
      · exact hall f hf hfg
  · refine exists_congr fun p => ?_
    rw [Cpp.mem_above_iff hfs]
    constructor
    · rintro ⟨hp, hgp⟩
      exact ⟨⟨hp, UInt16.lt_trans hlt hgp⟩, hgp⟩
    · rintro ⟨⟨hp, -⟩, hgp⟩
      exact ⟨hp, hgp⟩

/-- A later field is at the same place of the payload when its turn comes. -/
theorem expected_tail {g : Field α} (hg : g ∈ fields) :
    expected g (above field.id fs) = expected g fs := by
  have hlt := (List.pairwise_cons.1 hfields).1 g hg
  have hwith : withId g.id (above field.id fs) = withId g.id fs := by
    refine Option.ext fun p => ?_
    rw [Cpp.withId_eq_some_iff (Cpp.above_increasing hfs _), Cpp.withId_eq_some_iff hfs,
      Cpp.mem_above_iff hfs]
    constructor
    · rintro ⟨⟨hp, -⟩, hid⟩
      exact ⟨hp, hid⟩
    · rintro ⟨hp, hid⟩
      exact ⟨⟨hp, hid ▸ hlt⟩, hid⟩
  rw [expected, expected, hwith]

end

/-- A field of the transform is reported by its loop unless it is overtaken. -/
theorem about_fieldLoop {field : Field α} {fields : List (Field α)}
    (hfields : Increasing (field :: fields)) {fs : Fields} (hfs : PayloadIncreasing fs) :
    about field.id (fieldLoop field fs).1 =
      if Overtaken (field :: fields) fs field.id then [] else [expected field fs] := by
  rw [fieldLoop_eq field hfs, about_append, about_unknownEvents, List.nil_append]
  simp only [overtaken_head_iff hfields, expected, below_eq_nil_iff hfs, above_eq_nil_iff hfs]
  cases hwith : withId field.id fs with
  | some p =>
      have hpresent : ¬ Absent field.id fs := fun h => by
        rw [Cpp.withId_eq_none_iff.2 h] at hwith
        cases hwith
      simp [about, Event.fieldId, hpresent]
  | none =>
      have habsent := Cpp.withId_eq_none_iff.1 hwith
      by_cases hlow : ∃ p ∈ fs, p.1 < field.id
      · by_cases hhigh : ∃ p ∈ fs, field.id < p.1
        · have hnot : ¬ ((∀ p ∈ fs, ¬ p.1 < field.id) ∨ ∀ p ∈ fs, ¬ field.id < p.1) := by
            rintro (h | h)
            · obtain ⟨p, hp, hlt⟩ := hlow
              exact h p hp hlt
            · obtain ⟨p, hp, hlt⟩ := hhigh
              exact h p hp hlt
          rw [if_neg hnot, if_pos ⟨habsent, hlow, hhigh⟩]
          rfl
        · have hnone : ∀ p ∈ fs, ¬ field.id < p.1 := fun p hp hlt => hhigh ⟨p, hp, hlt⟩
          rw [if_pos (Or.inr hnone), if_neg fun h => hhigh h.2.2]
          simp [about, Event.fieldId]
      · have hnone : ∀ p ∈ fs, ¬ p.1 < field.id := fun p hp hlt => hlow ⟨p, hp, hlt⟩
        rw [if_pos (Or.inl hnone), if_neg fun h => hlow h.2.1]
        simp [about, Event.fieldId]

/-- On one level, a field of the transform is reported as it has to be if and only if it is not
    overtaken; else nothing is reported of it. -/
theorem about_knownFields_of_mem {fields : List (Field α)} (hfields : Increasing fields)
    {fs : Fields} (hfs : PayloadIncreasing fs) {f : Field α} (hf : f ∈ fields) :
    about f.id (knownFields fields fs).1 =
      if Overtaken fields fs f.id then [] else [expected f fs] := by
  induction fields generalizing fs with
  | nil => cases hf
  | cons field fields ih =>
      obtain ⟨hlt, htail⟩ := List.pairwise_cons.1 hfields
      have hrest : (fieldLoop field fs).2 = above field.id fs := by rw [fieldLoop_eq field hfs]
      rw [knownFields, about_append, hrest]
      rcases List.mem_cons.1 hf with rfl | hf
      · have hothers : ∀ g ∈ fields, g.id ≠ f.id := fun g hg => (UInt16.ne_of_lt (hlt g hg)).symm
        rw [about_fieldLoop hfields hfs,
          about_knownFields hothers (Cpp.above_increasing hfs _), List.append_nil]
      · have hhead : about f.id (fieldLoop field fs).1 = [] := by
          have hne : field.id ≠ f.id := UInt16.ne_of_lt (hlt f hf)
          have hsingle : about f.id (knownFields [field] fs).1 = [] :=
            about_knownFields (by simpa using hne) hfs
          simpa [knownFields] using hsingle
        rw [hhead, List.nil_append, ih htail (Cpp.above_increasing hfs _) hf,
          expected_tail hfields hfs hf]
        simp only [overtaken_tail_iff hfields hfs hf]

/-! ## Whole payloads -/

theorem about_unknownLevels (id : UInt16) (levels : List Fields) :
    about id (levels.flatMap fun fs => (.unknownEnd :: unknownEvents fs : List (Event α))) = [] := by
  induction levels with
  | nil => rfl
  | cons fs levels ih =>
      rw [List.flatMap_cons, about_append, ih, List.append_nil]
      exact about_unknownEvents id fs

/-- The levels that come behind the one that a parser has transformed are unknown to it. -/
theorem applyFields_eq_some {isBase : Bool} {fields : List (Field α)} {levels rest : List Fields}
    {events : List (Event α)} (h : applyFields isBase fields levels = some (events, rest)) :
    ∃ fs behind, levels = fs :: behind ∧
      (isBase = true → rest = behind) ∧
      ∀ id, about id events = about id (knownFields fields fs).1 := by
  cases levels with
  | nil => cases h
  | cons fs behind =>
      rw [applyFields] at h
      refine ⟨fs, behind, rfl, ?_, ?_⟩
      · rintro rfl
        simp only [if_true, Option.some.injEq, Prod.mk.injEq] at h
        exact h.2.symm
      · intro id
        have hbehind : about id (behind.flatMap fun fs =>
            (.unknownEnd :: unknownEvents fs : List (Event α))) = [] :=
          about_unknownLevels id behind
        cases isBase with
        | true =>
            simp only [if_true, Option.some.injEq, Prod.mk.injEq] at h
            rw [← h.1, about_append, about_unknownEvents, List.append_nil]
        | false =>
            simp only [Bool.false_eq_true, if_false, Option.some.injEq, Prod.mk.injEq] at h
            rw [← h.1, about_append, about_append, about_unknownEvents, hbehind, List.append_nil,
              List.append_nil]

theorem applyFields_isSome_iff (isBase : Bool) (fields : List (Field α)) (levels : List Fields) :
    (applyFields isBase fields levels).isSome = true ↔ 0 < levels.length := by
  cases levels with
  | nil => simp [applyFields]
  | cons fs behind => cases isBase <;> simp [applyFields]

/-- Every transform of the hierarchy gets one level of the payload, the root the first. -/
theorem apply_eq_some {isBase : Bool} {t : Transform α} {levels rest : List Fields}
    {traces : List (List (Event α))} (h : apply isBase t levels = some (traces, rest)) :
    ∃ read behind, levels = read ++ behind ∧ (isBase = true → rest = behind) ∧
      List.Forall₂ (fun q events => ∀ id, about id events = about id (knownFields q.1 q.2).1)
        (t.levels.zip read) traces ∧
      read.length = t.levels.length := by
  induction t generalizing isBase levels rest traces with
  | root fields =>
      simp only [apply, Option.bind_eq_bind, Option.bind_eq_some_iff, Option.pure_def,
        Option.some.injEq, Prod.mk.injEq, Prod.exists] at h
      obtain ⟨events, levels', happly, rfl, rfl⟩ := h
      obtain ⟨fs, behind, rfl, hrest, habout⟩ := applyFields_eq_some happly
      exact ⟨[fs], behind, rfl, hrest, .cons habout .nil, rfl⟩
  | derived base fields ih =>
      simp only [apply, Option.bind_eq_bind, Option.bind_eq_some_iff, Option.pure_def,
        Option.some.injEq, Prod.mk.injEq, Prod.exists] at h
      obtain ⟨traces', levels', hbase, events, levels'', happly, rfl, rfl⟩ := h
      obtain ⟨read, behind, rfl, hrest, hforall, hlength⟩ := ih hbase
      obtain rfl := hrest rfl
      obtain ⟨fs, behind', rfl, hrest', habout⟩ := applyFields_eq_some happly
      refine ⟨read ++ [fs], behind', by simp, hrest', ?_, by simp [Transform.levels, hlength]⟩
      rw [Transform.levels, List.zip_append hlength.symm]
      exact List.rel_append hforall (.cons habout .nil)

/-- The parser gets through the payload if there is a level for each transform of the hierarchy. -/
theorem apply_isSome_iff (isBase : Bool) (t : Transform α) (levels : List Fields) :
    (apply isBase t levels).isSome = true ↔ t.levels.length ≤ levels.length := by
  induction t generalizing isBase levels with
  | root fields =>
      cases levels with
      | nil => simp [apply, applyFields, Transform.levels]
      | cons fs behind => cases isBase <;> simp [apply, applyFields, Transform.levels]
  | derived base fields ih =>
      have hbase := ih true levels
      rw [Transform.levels, List.length_append, List.length_singleton, apply]
      cases happly : apply true base levels with
      | none =>
          rw [happly] at hbase
          have hshort : ¬ base.levels.length ≤ levels.length := fun h => by simpa using hbase.2 h
          simp
          omega
      | some result =>
          obtain ⟨traces, rest⟩ := result
          obtain ⟨read, behind, hsplit, hrest, -, hlength⟩ := apply_eq_some happly
          obtain rfl := hrest rfl
          rw [hsplit, List.length_append, hlength]
          have hfields := applyFields_isSome_iff isBase fields rest
          cases hres : applyFields isBase fields rest with
          | none =>
              rw [hres] at hfields
              simp at hfields
              simp [hres]
              omega
          | some result =>
              rw [hres] at hfields
              have hpos := hfields.1 rfl
              simp [hres]
              omega

/-- Every field of a transform is reported once, with its value or as omitted, if and only if no
    field is overtaken on its level. -/
theorem apply_reported_iff {isBase : Bool} {t : Transform α} {levels : List Fields}
    (ht : ∀ fields ∈ t.levels, Increasing fields) (hlevels : ∀ fs ∈ levels, PayloadIncreasing fs) :
    ((apply isBase t levels).isSome = true ↔ t.levels.length ≤ levels.length) ∧
    ∀ traces rest, apply isBase t levels = some (traces, rest) →
      ((∀ q ∈ (t.levels.zip levels).zip traces, ∀ f ∈ q.1.1, Reported f q.1.2 q.2) ↔
        ∀ q ∈ t.levels.zip levels, ∀ f ∈ q.1, ¬ Overtaken q.1 q.2 f.id) := by
  refine ⟨apply_isSome_iff isBase t levels, fun traces rest h => ?_⟩
  obtain ⟨read, behind, rfl, -, hforall, hlength⟩ := apply_eq_some h
  have hzip : t.levels.zip (read ++ behind) = t.levels.zip read := by
    conv_lhs => rw [← List.append_nil t.levels]
    rw [List.zip_append hlength.symm, List.zip_nil_left, List.append_nil]
  have hone : ∀ fields fs events, (fields, fs) ∈ t.levels.zip read →
      (∀ id, about id events = about id (knownFields fields fs).1) →
      ((∀ f ∈ fields, Reported f fs events) ↔ ∀ f ∈ fields, ¬ Overtaken fields fs f.id) := by
    intro fields fs events hmem habout
    obtain ⟨hfields, hfs⟩ := List.of_mem_zip hmem
    refine forall₂_congr fun f hf => ?_
    rw [Reported, habout, about_knownFields_of_mem (ht fields hfields)
      (hlevels fs (List.mem_append_left behind hfs)) hf]
    split_ifs with hovertaken <;> simp [hovertaken]
  rw [hzip]
  clear hzip h
  revert hone hforall
  generalize t.levels.zip read = pairs
  intro hforall hone
  induction hforall with
  | nil => simp
  | cons habout _ ih =>
      have hrest := ih fun fields fs events hmem =>
        hone fields fs events (List.mem_cons_of_mem _ hmem)
      rw [List.zip_cons_cons, List.forall_mem_cons, List.forall_mem_cons]
      exact and_congr (hone _ _ _ List.mem_cons_self habout) hrest

/-- A transform with the field 2, and a payload with the fields 1 and 3. -/
theorem not_apply_reported :
    ∃ traces rest, apply false (.root [⟨2, ()⟩])
        [[(1, .basic (.bool true)), (3, .basic (.bool true))]] = some (traces, rest) ∧
      ¬ ∀ q ∈ (([[⟨2, ()⟩]] : List (List (Field Unit))).zip
          [[(1, .basic (.bool true)), (3, .basic (.bool true))]]).zip traces,
        ∀ f ∈ q.1.1, Reported f q.1.2 q.2 := by
  refine ⟨_, _, rfl, fun h => ?_⟩
  have hfield := h _ List.mem_cons_self _ List.mem_cons_self
  exact List.cons_ne_nil _ _ hfield.symm

theorem apply_reported_inOrder :
    ∃ traces rest, apply false (.root [⟨1, ()⟩, ⟨3, ()⟩])
        [[(2, .basic (.bool true)), (3, .basic (.bool true))]] = some (traces, rest) ∧
      ∀ q ∈ (([[⟨1, ()⟩, ⟨3, ()⟩]] : List (List (Field Unit))).zip
          [[(2, .basic (.bool true)), (3, .basic (.bool true))]]).zip traces,
        ∀ f ∈ q.1.1, Reported f q.1.2 q.2 := by
  have ht : ∀ fields ∈ (Transform.root [⟨1, ()⟩, ⟨3, ()⟩] : Transform Unit).levels,
      Increasing fields := by
    simp [Transform.levels, Increasing]
  have hlevels : ∀ fs ∈ [[((2 : UInt16), Value.basic (.bool true)), (3, .basic (.bool true))]],
      PayloadIncreasing fs := by
    simp [PayloadIncreasing]
  have hrun : apply false (.root [⟨1, ()⟩, ⟨3, ()⟩])
      [[((2 : UInt16), Value.basic (.bool true)), (3, .basic (.bool true))]] =
      some ([[.omitted ⟨1, ()⟩, .unknownField 2 (.basic (.bool true)),
        .value ⟨3, ()⟩ (.basic (.bool true))]], []) := rfl
  refine ⟨_, _, hrun, ((apply_reported_iff ht hlevels).2 _ _ hrun).2 ?_⟩
  decide

end Bond.Cs

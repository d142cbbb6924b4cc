import Bond.Cpp.ParserEvents

set_option autoImplicit false

/-! # Schema and payload merged

Both versions of `ReadFields` merge the fields of a schema with the fields of a payload. Where the ids
increase in both, what they report is one merge with two parameters. -/

namespace Bond.Cpp

open Decoder InputBuffer

variable {n : Nat}

/-! ## The payload around an id -/

/-- The order of the fields in the payload of a struct. -/
def PayloadIncreasing (fs : Fields) : Prop :=
  fs.Pairwise fun p q => p.1 < q.1

instance (fs : Fields) : Decidable (PayloadIncreasing fs) :=
  inferInstanceAs (Decidable (fs.Pairwise _))

def below (id : UInt16) (fs : Fields) : Fields :=
  fs.takeWhile fun p => p.1 < id

def withId (id : UInt16) (fs : Fields) : Option (UInt16 × Value) :=
  fs.find? fun p => p.1 = id

def above (id : UInt16) (fs : Fields) : Fields :=
  fs.dropWhile fun p => p.1 ≤ id

theorem withId_id {id : UInt16} {fs : Fields} {p : UInt16 × Value} (h : withId id fs = some p) :
    p.1 = id := by
  have hp := List.find?_some h
  simpa using hp

theorem lt_of_mem_below {id : UInt16} {fs : Fields} {p : UInt16 × Value} (h : p ∈ below id fs) :
    p.1 < id := by
  have hp := List.mem_takeWhile_imp h
  simpa using hp

section

variable {id : UInt16} {fs : Fields} (hfs : PayloadIncreasing fs)

include hfs

theorem above_increasing (id : UInt16) : PayloadIncreasing (above id fs) :=
  hfs.sublist (List.dropWhile_sublist _)

/-- Nothing else is at an id, or below it, in front of a greater one. -/
theorem above_eq_self {p : UInt16 × Value} (hp : fs.head? = some p) (hlt : id < p.1) :
    below id fs = [] ∧ withId id fs = none ∧ above id fs = fs := by
  cases fs with
  | nil => simp at hp
  | cons q fs =>
      obtain rfl : q = p := by simpa using hp
      have hnot : ¬ q.1 < id := fun h => UInt16.lt_asymm hlt h
      have hle : ¬ q.1 ≤ id := fun h => UInt16.not_le.2 hlt h
      refine ⟨by simp [below, hnot], ?_, by simp [above, hle]⟩
      rw [withId, List.find?_eq_none]
      intro r hr
      have hgt : id < r.1 := by
        rcases List.mem_cons.1 hr with rfl | hr
        · exact hlt
        · exact UInt16.lt_trans hlt ((List.pairwise_cons.1 hfs).1 r hr)
      simpa using (UInt16.ne_of_lt hgt).symm

omit hfs in
theorem above_cons_self {v : Value} (h : PayloadIncreasing ((id, v) :: fs)) :
    above id ((id, v) :: fs) = fs := by
  obtain ⟨hgt, htail⟩ := List.pairwise_cons.1 h
  calc above id ((id, v) :: fs) = above id fs := by simp [above]
    _ = fs := by
      cases fs with
      | nil => rfl
      | cons q fs => exact (above_eq_self htail rfl (hgt q List.mem_cons_self)).2.2

/-- Fields with increasing ids are those below an id, the one with the id, and those above. -/
theorem split_at_id (id : UInt16) : fs = below id fs ++ (withId id fs).toList ++ above id fs := by
  induction fs with
  | nil => rfl
  | cons p fs ih =>
      have htail : PayloadIncreasing fs := (List.pairwise_cons.1 hfs).2
      by_cases hlt : p.1 < id
      · have hne : p.1 ≠ id := UInt16.ne_of_lt hlt
        have hle : p.1 ≤ id := UInt16.le_of_lt hlt
        have hsplit := ih htail
        simp only [below, withId, above] at hsplit ⊢
        simp only [List.takeWhile_cons, List.find?_cons, List.dropWhile_cons, hlt, hne, hle,
          decide_true, decide_false, if_true, List.cons_append]
        rw [← hsplit]
      · by_cases heq : p.1 = id
        · subst heq
          rw [above_cons_self hfs]
          simp [below, withId]
        · have hgt : id < p.1 :=
            UInt16.lt_of_le_of_ne (UInt16.not_lt.1 hlt) (Ne.symm heq)
          obtain ⟨hbelow, hnone, hself⟩ := above_eq_self hfs rfl hgt
          rw [hbelow, hnone, hself]
          rfl

theorem lt_of_mem_above {p : UInt16 × Value} (h : p ∈ above id fs) : id < p.1 := by
  induction fs with
  | nil => simp [above] at h
  | cons q fs ih =>
      obtain ⟨hq, htail⟩ := List.pairwise_cons.1 hfs
      by_cases hle : q.1 ≤ id
      · have habove : above id (q :: fs) = above id fs := by simp [above, hle]
        exact ih htail (habove ▸ h)
      · have habove : above id (q :: fs) = q :: fs := by simp [above, hle]
        have hgt := UInt16.not_le.1 hle
        rw [habove] at h
        rcases List.mem_cons.1 h with rfl | h
        · exact hgt
        · exact UInt16.lt_trans hgt (hq p h)

end

/-- No field of the payload has the id. -/
def Absent (id : UInt16) (fs : Fields) : Prop :=
  ∀ p ∈ fs, p.1 ≠ id

instance (id : UInt16) (fs : Fields) : Decidable (Absent id fs) :=
  inferInstanceAs (Decidable (∀ p ∈ fs, _))

theorem withId_eq_none_iff {id : UInt16} {fs : Fields} : withId id fs = none ↔ Absent id fs := by
  rw [withId, List.find?_eq_none, Absent]
  simp

/-! ## Both versions as one merge -/

/-- Schema and payload merged field by field. `always` says whether a schema field is also reported
    as omitted if payload fields were passed on the way to it. -/
def mergeEvents (always : Bool) (event : FieldDef n → Value → Event n) :
    List (FieldDef n) → Fields → List (Event n)
  | [], fs => unknownEvents fs
  | field :: fields, fs =>
      unknownEvents (below field.id fs) ++
        (match withId field.id fs with
          | some p => [event field p.2]
          | none => if always || (below field.id fs).isEmpty then [.omittedField field] else []) ++
        mergeEvents always event fields (above field.id fs)

/-- The event for a payload field with the id of a schema field, at compile time. -/
def compileTimeEvent (field : FieldDef n) (v : Value) : Event n :=
  headEvent field field.id v

theorem isPast_split {head : FieldDef n} {fs : Fields} (hfs : PayloadIncreasing fs)
    (h : isPast head fs = true) :
    below head.id fs = [] ∧ withId head.id fs = none ∧ above head.id fs = fs := by
  cases fs with
  | nil => exact ⟨rfl, rfl, rfl⟩
  | cons p fs => exact above_eq_self hfs rfl (by simpa [isPast] using h)

/-- What is not beyond an id starts with a field below it or with the field itself. -/
theorem below_ne_nil {head : FieldDef n} {fs : Fields} (h : ¬ isPast head fs = true)
    (hnone : withId head.id fs = none) : (below head.id fs).isEmpty = false := by
  cases fs with
  | nil => exact absurd rfl h
  | cons p fs =>
      have hle : p.1 ≤ head.id := UInt16.not_lt.1 (by simpa [isPast] using h)
      have hne := withId_eq_none_iff.1 hnone p List.mem_cons_self
      simp [below, UInt16.lt_of_le_of_ne hle hne]

theorem headEvents_eq (head : FieldDef n) {fs : Fields} (hfs : PayloadIncreasing fs) :
    headEvents head fs =
      (unknownEvents (below head.id fs) ++
        (match withId head.id fs with
          | some p => [compileTimeEvent head p.2]
          | none => if (below head.id fs).isEmpty then [.omittedField head] else []),
        above head.id fs) := by
  induction fs with
  | nil => rfl
  | cons p fs ih =>
      obtain ⟨id, v⟩ := p
      obtain ⟨hgt, htail⟩ := List.pairwise_cons.1 hfs
      rw [headEvents]
      by_cases hlt : id < head.id
      · -- unknown, on the way to the id of `Head`
        have hne : id ≠ head.id := UInt16.ne_of_lt hlt
        have hle : id ≤ head.id := UInt16.le_of_lt hlt
        have hevent : headEvent head id v = .unknownField id v := by
          simp [headEvent, hne, Ne.symm hne]
        have hbelow : below head.id ((id, v) :: fs) = (id, v) :: below head.id fs := by
          simp [below, hlt]
        have hwith : withId head.id ((id, v) :: fs) = withId head.id fs := by
          simp [withId, hne]
        have habove : above head.id ((id, v) :: fs) = above head.id fs := by
          simp [above, hle]
        rw [if_pos hle, hevent, hbelow, hwith, habove, ih htail]
        by_cases hpast : isPast head fs = true
        · obtain ⟨hnil, hnone, hself⟩ := isPast_split htail hpast
          rw [if_pos hpast, hnil, hnone, hself]
          rfl
        · rw [if_neg hpast]
          cases hsome : withId head.id fs with
          | none => simp [below_ne_nil hpast hsome, unknownEvents]
          | some p => rfl
      · by_cases heq : id = head.id
        · subst heq
          have hpast : isPast head fs = true := by
            cases fs with
            | nil => rfl
            | cons q fs => simpa [isPast] using hgt q List.mem_cons_self
          rw [if_pos (UInt16.le_refl _), if_pos hpast, above_cons_self hfs]
          simp [below, withId, unknownEvents, compileTimeEvent]
        · have hbeyond : head.id < id := UInt16.lt_of_le_of_ne (UInt16.not_lt.1 hlt) (Ne.symm heq)
          obtain ⟨hnil, hnone, hself⟩ := above_eq_self hfs rfl hbeyond
          rw [if_neg (UInt16.not_le.2 hbeyond), hnil, hnone, hself]
          rfl

theorem compileTimeEvents_eq (fields : List (FieldDef n)) {fs : Fields}
    (hfs : PayloadIncreasing fs) :
    compileTimeEvents fields fs = mergeEvents false compileTimeEvent fields fs := by
  induction fields generalizing fs with
  | nil => rfl
  | cons field fields ih =>
      rw [compileTimeEvents, headEvents_eq field hfs, mergeEvents, ih (above_increasing hfs _)]
      simp

theorem runtimeEvents_nil (fs : Fields) :
    runtimeEvents ([] : List (FieldDef n)) fs = unknownEvents fs := by
  induction fs with
  | nil => rfl
  | cons p fs ih =>
      rw [runtimeEvents]
      simp only [List.dropWhile_nil, List.takeWhile_nil, runtimeStep, ih]
      rfl

theorem runtimeEvents_cons (field : FieldDef n) (fields : List (FieldDef n)) {fs : Fields}
    (hfs : PayloadIncreasing fs) :
    runtimeEvents (field :: fields) fs =
      unknownEvents (below field.id fs) ++
        (match withId field.id fs with
          | some p => [runtimeEvent field p.2]
          | none => [.omittedField field]) ++
        runtimeEvents fields (above field.id fs) := by
  induction fs with
  | nil => rfl
  | cons p fs ih =>
      obtain ⟨id, v⟩ := p
      obtain ⟨hgt, htail⟩ := List.pairwise_cons.1 hfs
      by_cases hlt : id < field.id
      · have hne : id ≠ field.id := UInt16.ne_of_lt hlt
        have hnot : ¬ field.id < id := UInt16.lt_asymm hlt
        have hbelow : below field.id ((id, v) :: fs) = (id, v) :: below field.id fs := by
          simp [below, hlt]
        have hwith : withId field.id ((id, v) :: fs) = withId field.id fs := by
          simp [withId, hne]
        have habove : above field.id ((id, v) :: fs) = above field.id fs := by
          simp [above, UInt16.le_of_lt hlt]
        rw [hbelow, hwith, habove, runtimeEvents]
        simp only [List.dropWhile_cons, List.takeWhile_cons, hnot, decide_false, runtimeStep,
          Ne.symm hne, if_false, Bool.false_eq_true, List.map_nil, List.nil_append, ih htail]
        rfl
      · by_cases heq : id = field.id
        · subst heq
          rw [above_cons_self hfs, runtimeEvents]
          simp [below, withId, unknownEvents, runtimeStep, UInt16.lt_irrefl]
        · have hbeyond : field.id < id :=
            UInt16.lt_of_le_of_ne (UInt16.not_lt.1 hlt) (Ne.symm heq)
          obtain ⟨hnil, hnone, hself⟩ := above_eq_self hfs rfl hbeyond
          rw [hnil, hnone, hself, runtimeEvents, runtimeEvents]
          simp only [List.dropWhile_cons, List.takeWhile_cons, hbeyond, decide_true, if_true]
          rfl

theorem runtimeEvents_eq (fields : List (FieldDef n)) {fs : Fields} (hfs : PayloadIncreasing fs) :
    runtimeEvents fields fs = mergeEvents true runtimeEvent fields fs := by
  induction fields generalizing fs with
  | nil => exact runtimeEvents_nil fs
  | cons field fields ih =>
      rw [runtimeEvents_cons field fields hfs, mergeEvents, ih (above_increasing hfs _)]
      simp

/-! ## What the merge reports -/

/-- The payload field that an event reports. -/
def Event.payload : Event n → Option (UInt16 × Value)
  | .nonBasicTypeField field v | .basicTypeField field v => some (field.id, v)
  | .unknownField id v => some (id, v)
  | .omittedField _ | .unknownEnd => none

/-- The schema field that an event reports as omitted. -/
def Event.omitted : Event n → Option (FieldDef n)
  | .omittedField field => some field
  | _ => none

/-- The payload has no field with the id, but one between the schema field before and the id. -/
def Hidden (fields : List (FieldDef n)) (fs : Fields) (id : UInt16) : Prop :=
  Absent id fs ∧ ∃ p ∈ fs, p.1 < id ∧ ∀ g ∈ fields, g.id < id → g.id < p.1

instance (fields : List (FieldDef n)) (fs : Fields) (id : UInt16) :
    Decidable (Hidden fields fs id) :=
  inferInstanceAs (Decidable (_ ∧ _))

theorem unknownEvents_payload (fs : Fields) :
    (unknownEvents fs : List (Event n)).filterMap Event.payload = fs := by
  induction fs with
  | nil => rfl
  | cons p fs ih => exact congrArg (p :: ·) ih

theorem unknownEvents_omitted (fs : Fields) :
    (unknownEvents fs : List (Event n)).filterMap Event.omitted = [] := by
  induction fs with
  | nil => rfl
  | cons p fs ih => exact ih

theorem mem_above_iff {id : UInt16} {fs : Fields} (hfs : PayloadIncreasing fs)
    {p : UInt16 × Value} : p ∈ above id fs ↔ p ∈ fs ∧ id < p.1 := by
  constructor
  · intro h
    exact ⟨(List.dropWhile_sublist _).subset h, lt_of_mem_above hfs h⟩
  · rintro ⟨h, hlt⟩
    rw [split_at_id hfs id, List.mem_append, List.mem_append] at h
    rcases h with (h | h) | h
    · exact absurd hlt (UInt16.lt_asymm (lt_of_mem_below h))
    · have hid := withId_id (Option.mem_toList.1 h)
      rw [hid] at hlt
      exact absurd hlt (UInt16.lt_irrefl _)
    · exact h

theorem withId_eq_some_iff {id : UInt16} {fs : Fields} (hfs : PayloadIncreasing fs)
    {p : UInt16 × Value} : withId id fs = some p ↔ p ∈ fs ∧ p.1 = id := by
  constructor
  · intro h
    exact ⟨List.mem_of_find?_eq_some h, withId_id h⟩
  · rintro ⟨h, hid⟩
    rw [split_at_id hfs id, List.mem_append, List.mem_append] at h
    rcases h with (h | h) | h
    · exact absurd hid (UInt16.ne_of_lt (lt_of_mem_below h))
    · exact Option.mem_toList.1 h
    · exact absurd hid (UInt16.ne_of_lt (lt_of_mem_above hfs h)).symm

theorem below_isEmpty_iff {id : UInt16} {fs : Fields} (hfs : PayloadIncreasing fs) :
    (below id fs).isEmpty = true ↔ ∀ p ∈ fs, ¬ p.1 < id := by
  rw [List.isEmpty_iff]
  constructor
  · intro h p hp hlt
    rw [split_at_id hfs id, h, List.nil_append, List.mem_append] at hp
    rcases hp with hp | hp
    · rw [withId_id (Option.mem_toList.1 hp)] at hlt
      exact UInt16.lt_irrefl _ hlt
    · exact UInt16.lt_asymm hlt (lt_of_mem_above hfs hp)
  · intro h
    refine List.eq_nil_iff_forall_not_mem.2 fun p hp => ?_
    exact h p ((List.takeWhile_sublist _).subset hp) (lt_of_mem_below hp)

section

variable {field : FieldDef n} {fields : List (FieldDef n)} {fs : Fields}
  (hfields : Increasing (field :: fields)) (hfs : PayloadIncreasing fs)

include hfields

theorem hidden_head_iff :
    Hidden (field :: fields) fs field.id ↔
      Absent field.id fs ∧ ¬ ∀ p ∈ fs, ¬ p.1 < field.id := by
  have hlast (p : UInt16 × Value) : ∀ g ∈ field :: fields, g.id < field.id → g.id < p.1 := by
    intro g hg hlt
    rcases List.mem_cons.1 hg with rfl | hg
    · exact absurd hlt (UInt16.lt_irrefl _)
    · exact absurd hlt (UInt16.lt_asymm ((List.pairwise_cons.1 hfields).1 g hg))
  unfold Hidden
  refine and_congr_right fun _ => ?_
  constructor
  · rintro ⟨p, hp, hlt, -⟩ h
    exact h p hp hlt
  · intro h
    obtain ⟨p, hp⟩ := not_forall.1 h
    obtain ⟨hmem, hlt⟩ := Classical.not_imp.1 hp
    exact ⟨p, hmem, not_not.1 hlt, hlast p⟩

include hfs

theorem absent_tail_iff {f : FieldDef n} (hf : f ∈ fields) :
    Absent f.id fs ↔ Absent f.id (above field.id fs) := by
  have hlt := (List.pairwise_cons.1 hfields).1 f hf
  constructor
  · intro h p hp
    exact h p ((mem_above_iff hfs).1 hp).1
  · intro h p hp hid
    exact h p ((mem_above_iff hfs).2 ⟨hp, hid ▸ hlt⟩) hid

theorem hidden_tail_iff {f : FieldDef n} (hf : f ∈ fields) :
    Hidden (field :: fields) fs f.id ↔ Hidden fields (above field.id fs) f.id := by
  have hlt := (List.pairwise_cons.1 hfields).1 f hf
  unfold Hidden
  rw [absent_tail_iff hfields hfs hf]
  refine and_congr_right fun _ => ?_
  constructor
  · rintro ⟨p, hp, hpf, hall⟩
    have hbeyond := hall field List.mem_cons_self hlt
    exact ⟨p, (mem_above_iff hfs).2 ⟨hp, hbeyond⟩, hpf,
      fun g hg => hall g (List.mem_cons_of_mem field hg)⟩
  · rintro ⟨p, hp, hpf, hall⟩
    obtain ⟨hmem, hbeyond⟩ := (mem_above_iff hfs).1 hp
    refine ⟨p, hmem, hpf, fun g hg hgf => ?_⟩
    rcases List.mem_cons.1 hg with rfl | hg
    · exact hbeyond
    · exact hall g hg hgf

end

section

variable {event : FieldDef n → Value → Event n}
  (hevent : ∀ field v, (event field v).payload = some (field.id, v)) (always : Bool)

include hevent

/-- Every payload field is reported once, in the order of the payload. -/
theorem mergeEvents_payload (fields : List (FieldDef n)) {fs : Fields}
    (hfs : PayloadIncreasing fs) :
    (mergeEvents always event fields fs).filterMap Event.payload = fs := by
  induction fields generalizing fs with
  | nil => exact unknownEvents_payload fs
  | cons field fields ih =>
      rw [mergeEvents, List.filterMap_append, List.filterMap_append, unknownEvents_payload,
        ih (above_increasing hfs _)]
      conv_rhs => rw [split_at_id hfs field.id]
      congr 2
      cases hwith : withId field.id fs with
      | none => split_ifs <;> rfl
      | some p =>
          obtain ⟨id, v⟩ := p
          obtain rfl : id = field.id := withId_id hwith
          simp [hevent]

theorem event_omitted (field : FieldDef n) (v : Value) : (event field v).omitted = none := by
  have hpayload := hevent field v
  cases h : event field v <;> simp_all [Event.payload, Event.omitted]

/-- What is reported of a schema field when its turn comes. -/
theorem headOmitted_eq {field : FieldDef n} {fields : List (FieldDef n)}
    (hfields : Increasing (field :: fields)) {fs : Fields} (hfs : PayloadIncreasing fs) :
    (match withId field.id fs with
      | some p => [event field p.2]
      | none => if always || (below field.id fs).isEmpty then [.omittedField field] else []).filterMap
        Event.omitted =
      if Absent field.id fs ∧ (always = true ∨ ¬ Hidden (field :: fields) fs field.id) then
        [field]
      else [] := by
  simp only [hidden_head_iff hfields, ← below_isEmpty_iff hfs]
  cases hwith : withId field.id fs with
  | some p =>
      have hpresent : ¬ Absent field.id fs := fun h => by
        rw [withId_eq_none_iff.2 h] at hwith
        cases hwith
      simp [event_omitted hevent, hpresent]
  | none =>
      have habsent := withId_eq_none_iff.1 hwith
      cases always <;> cases hempty : (below field.id fs).isEmpty <;>
        simp [habsent, Event.omitted]

/-- The schema fields reported as omitted: the absent ones, without the hidden ones unless `always`. -/
theorem mergeEvents_omitted {fields : List (FieldDef n)} (hfields : Increasing fields) {fs : Fields}
    (hfs : PayloadIncreasing fs) :
    (mergeEvents always event fields fs).filterMap Event.omitted =
      fields.filter fun f =>
        decide (Absent f.id fs ∧ (always = true ∨ ¬ Hidden fields fs f.id)) := by
  induction fields generalizing fs with
  | nil => exact unknownEvents_omitted fs
  | cons field fields ih =>
      have htail : Increasing fields := (List.pairwise_cons.1 hfields).2
      have hrest : (fields.filter fun f => decide (Absent f.id fs ∧
            (always = true ∨ ¬ Hidden (field :: fields) fs f.id))) =
          fields.filter fun f => decide (Absent f.id (above field.id fs) ∧
            (always = true ∨ ¬ Hidden fields (above field.id fs) f.id)) := by
        refine List.filter_congr fun f hf => decide_eq_decide.2 ?_
        rw [hidden_tail_iff hfields hfs hf, absent_tail_iff hfields hfs hf]
      rw [mergeEvents, List.filterMap_append, List.filterMap_append, unknownEvents_omitted,
        headOmitted_eq hevent always hfields hfs, ih htail (above_increasing hfs _), List.filter_cons,
        hrest, List.nil_append]
      simp only [decide_eq_true_eq]
      split_ifs <;> rfl

end

/-- Schema fields and payload fields are reported where the merge gets to them. -/
theorem forall_mergeEvents {Q : Event n → Prop} {always : Bool}
    {event : FieldDef n → Value → Event n} {fields : List (FieldDef n)} {fs : Fields}
    (hfs : PayloadIncreasing fs) (hunknown : ∀ p ∈ fs, Q (.unknownField p.1 p.2))
    (hfield : ∀ f, ∀ p ∈ fs, Q (event f p.2)) (homitted : ∀ f, Q (.omittedField f)) :
    ∀ e ∈ mergeEvents always event fields fs, Q e := by
  have hmap {fs' : Fields} (hsub : ∀ p ∈ fs', p ∈ fs) : ∀ e ∈ unknownEvents fs', Q e := by
    intro e he
    obtain ⟨p, hp, rfl⟩ := List.mem_map.1 he
    exact hunknown p (hsub p hp)
  induction fields generalizing fs with
  | nil => exact hmap fun p hp => hp
  | cons field fields ih =>
      have habove {p : UInt16 × Value} (hp : p ∈ above field.id fs) : p ∈ fs :=
        (List.dropWhile_sublist _).subset hp
      intro e he
      rw [mergeEvents, List.mem_append, List.mem_append] at he
      rcases he with (he | he) | he
      · exact hmap (fun p hp => (List.takeWhile_sublist _).subset hp) e he
      · cases hwith : withId field.id fs with
        | some p =>
            obtain rfl : e = event field p.2 := by simpa [hwith] using he
            exact hfield field p (List.mem_of_find?_eq_some hwith)
        | none =>
            rw [hwith] at he
            dsimp only at he
            split_ifs at he
            · obtain rfl := List.mem_singleton.1 he
              exact homitted field
            · cases he
      · exact ih (above_increasing hfs _) (fun p hp => hunknown p (habove hp))
          (fun f p hp => hfield f p (habove hp)) (fun hsub => hmap fun p hp => habove (hsub p hp)) e he

end Bond.Cpp

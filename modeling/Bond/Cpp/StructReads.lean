import Bond.Cpp.ContainerReads
import Bond.Cpp.FieldTransforms
import Mathlib.Data.List.Sort

set_option autoImplicit false

/-! # Deserializing structs

What the transform `To` does with the events of a struct, level by level, given what `Deserialize` does
on the fields. -/

namespace Bond.Cpp

open Decoder

variable {n m : Nat}

/-! ## Fields of `To` -/

section

variable {P : TaggedProtocol} {debug : Bool} {S : SchemaDef n} {C : CppSchema m}
  {deserialize : SchemaTime → TypeDef n → CppType m → CppValue m → Reader (CppValue m)}
  {time : SchemaTime} {i : Fin n} {x : Fin m}

variable (P C deserialize time x) in
theorem toFields_takesFields :
    (toFields P.reader C deserialize time x).TakesFields time
      (assignToField P.reader C deserialize x) fun _ type => onInput (P.reader.skip type) where
  nonBasicTypeField _ := rfl
  basicTypeField _ _ _ := rfl
  unknownField _ _ := rfl
  omittedField _ := rfl

variable (P C deserialize time x) in
/-- The call of `To` for a payload field. -/
theorem toFields_on (fields : List (FieldDef n)) (p : UInt16 × Value) :
    (toFields P.reader C deserialize time x).on (payloadEvent time.event fields p) =
      match fieldType time fields p.1 p.2.typeId with
      | some (time', type) => assignToField P.reader C deserialize x time' p.1 type
      | none => onInput (P.reader.skip p.2.typeId) :=
  (toFields_takesFields P C deserialize time x).on_payloadEvent fields p

/-! ## Required fields -/

/-- The C++ fields that a field of the payload is assigned to. -/
def assignedFields (S : SchemaDef n) (C : CppSchema m) (time : SchemaTime) (i : Fin n) (x : Fin m)
    (fs : Fields) : List (CppField m) :=
  fs.filterMap fun f =>
    (fieldOf C time (S.structs i).fields x f.1 f.2.typeId).map fun d => d.2.2

def isRequired (g : CppField m) : Bool :=
  g.metadata.modifier = .required

theorem nextRequired_eq (fields : List (CppField m)) :
    nextRequired fields = (fields.filter isRequired).head?.map CppField.id := by
  rw [nextRequired, List.head?_filter]
  rfl

/-- Behind an id that increases are the greater ones. -/
theorem dropWhile_le_eq_filter {fields : List (CppField m)}
    (h : fields.Pairwise fun f g => f.id < g.id) (id : UInt16) :
    fields.dropWhile (fun g => g.id ≤ id) = fields.filter fun g => id < g.id := by
  induction fields with
  | nil => rfl
  | cons f fields ih =>
      obtain ⟨hf, htail⟩ := List.pairwise_cons.1 h
      by_cases hle : f.id ≤ id
      · have hnot : ¬ id < f.id := UInt16.not_lt.2 hle
        rw [List.dropWhile_cons_of_pos (by simpa using hle),
          List.filter_cons_of_neg (by simpa using hnot), ih htail]
      · have hlt := UInt16.not_le.1 hle
        rw [List.dropWhile_cons_of_neg (by simpa using hle), List.filter_eq_self.2]
        intro g hg
        rcases List.mem_cons.1 hg with rfl | hg
        · simpa using hlt
        · simpa using UInt16.lt_trans hlt (hf g hg)

/-- The required field after a required one. -/
theorem nextRequired_dropWhile {fields : List (CppField m)}
    (h : fields.Pairwise fun f g => f.id < g.id) {done rest : List (CppField m)} {g : CppField m}
    (hrequired : fields.filter isRequired = done ++ g :: rest) :
    nextRequired (fields.dropWhile fun f => f.id ≤ g.id) = rest.head?.map CppField.id := by
  have hsorted := h.sublist (List.filter_sublist (p := isRequired))
  rw [hrequired] at hsorted
  obtain ⟨-, hrest, hdone⟩ := List.pairwise_append.1 hsorted
  have hfront : done.filter (fun f => g.id < f.id) = [] := by
    rw [List.filter_eq_nil_iff]
    intro f hf
    simpa using UInt16.le_of_lt (hdone f hf g List.mem_cons_self)
  have hback : rest.filter (fun f => g.id < f.id) = rest := by
    rw [List.filter_eq_self]
    intro f hf
    simpa using (List.pairwise_cons.1 hrest).1 f hf
  rw [nextRequired_eq, dropWhile_le_eq_filter h, List.filter_comm, hrequired, List.filter_append,
    hfront, List.filter_cons_of_neg (by simp), hback, List.nil_append]

/-- If every required field is assigned then these are the required fields, in their order. -/
theorem required_eq {fs : Fields} (hfs : PayloadIncreasing fs)
    (h : ∀ g ∈ (C.structs x).fields, isRequired g = true → g ∈ assignedFields S C time i x fs) :
    (C.structs x).fields.filter isRequired =
      (assignedFields S C time i x fs).filter isRequired := by
  have hfound {f : UInt16 × Value} {g : CppField m}
      (hg : (fieldOf C time (S.structs i).fields x f.1 f.2.typeId).map (fun d => d.2.2) = some g) :
      g ∈ (C.structs x).fields ∧ g.id = f.1 := by
    obtain ⟨d, hd, rfl⟩ := Option.map_eq_some_iff.1 hg
    obtain ⟨t, -, hd⟩ := Option.bind_eq_some_iff.1 hd
    obtain ⟨head, hhead, hd⟩ := Option.bind_eq_some_iff.1 hd
    cases hd
    have hcond := List.find?_some hhead
    rw [Bool.and_eq_true, decide_eq_true_eq] at hcond
    exact ⟨List.mem_of_find?_eq_some hhead, hcond.1⟩
  have hincreasing := (C.structs x).increasing
  have hassigned : (assignedFields S C time i x fs).Pairwise fun f g => f.id < g.id := by
    rw [assignedFields, List.pairwise_filterMap]
    refine hfs.imp fun {p q} hlt f hf g hg => ?_
    rw [(hfound hf).2, (hfound hg).2]
    exact hlt
  refine List.Perm.eq_of_pairwise
    (fun a b _ _ (hab : a.id < b.id) hba => absurd hab (UInt16.lt_asymm hba))
    (hincreasing.sublist List.filter_sublist) (hassigned.sublist List.filter_sublist) ?_
  have hnodup {fields : List (CppField m)} (hlt : fields.Pairwise fun f g => f.id < g.id) :
      (fields.filter isRequired).Nodup := by
    refine (hlt.sublist List.filter_sublist).imp ?_
    rintro f g hfg rfl
    exact UInt16.lt_irrefl _ hfg
  rw [List.perm_ext_iff_of_nodup (hnodup hincreasing) (hnodup hassigned)]
  intro g
  rw [List.mem_filter, List.mem_filter]
  constructor
  · rintro ⟨hg, hreq⟩
    exact ⟨h g hg hreq, hreq⟩
  · rintro ⟨hg, hreq⟩
    obtain ⟨f, -, hf⟩ := List.mem_filterMap.1 hg
    exact ⟨(hfound hf).1, hreq⟩

/-! ## Runs -/

/-- `To::Field` for a value that has a field. -/
theorem runsTo_assignToField {id : UInt16} {v : Value} {time' : SchemaTime} {type : TypeDef n}
    {head : CppField m} (hfind : findField C x time' id type = some head) (var : CppValue m)
    (hreads : ReadsInto P debug S C deserialize ⟨time', type, head.type, v⟩
      (var.getField (x, id) head.type)) {required required' : Option UInt16}
    (hrequired : if isRequired head = true then
        required = some head.id ∧
          required' = nextRequired ((C.structs x).fields.dropWhile fun g => g.id ≤ head.id)
      else required' = required) :
    RunsTo (assignToField P.reader C deserialize x time' id type) (var, required)
      (v.encode P.writer) ()
      (var.setField (x, id) (v.assign debug S C time' type head.type
        (var.getField (x, id) head.type)), required') := by
  have hvalidate : RunsTo (validateField C x head) (var, required) ([] : List UInt8) ()
      (var, required') := by
    unfold validateField
    by_cases hmod : head.metadata.modifier = .required
    · have hreq : isRequired head = true := decide_eq_true hmod
      rw [if_pos hreq] at hrequired
      obtain ⟨rfl, rfl⟩ := hrequired
      rw [if_pos hmod]
      intro b rest _
      simp only [StateT.run_bind, StateT.run_get, pure_bind, if_true, StateT.run_set]
      simp
    · rw [if_neg (by simpa [isRequired] using hmod)] at hrequired
      subst hrequired
      rw [if_neg hmod]
      exact RunsTo.pure () _
  unfold assignToField
  rw [hfind]
  refine RunsTo.nil_bind hvalidate ?_
  unfold RunsTo
  simp only [StateT.run_bind, StateT.run_get, pure_bind, onInput, StateT.run_lift, bind_assoc,
    StateT.run_set]
  exact Decodes.bind_return hreads _

/-- A value without a field is skipped. -/
theorem runsTo_unassigned {id : UInt16} {v : Value}
    (h : fieldOf C time (S.structs i).fields x id v.typeId = none) (hv : v.wellFormed = true)
    (state : ToState m) :
    RunsTo (match fieldType time (S.structs i).fields id v.typeId with
      | some (time', type) => assignToField P.reader C deserialize x time' id type
      | none => onInput (P.reader.skip v.typeId)) state (v.encode P.writer) () state := by
  have hskip := P.decodes_skip v hv
  cases htype : fieldType time (S.structs i).fields id v.typeId with
  | none => exact RunsTo.lift hskip state
  | some d =>
      obtain ⟨time', type⟩ := d
      have hnone : findField C x time' id type = none := by
        cases hfind : findField C x time' id type with
        | none => rfl
        | some head => simp [fieldOf, htype, hfind] at h
      rw [← fieldType_id htype] at hskip
      simp only [assignToField, hnone]
      exact RunsTo.lift (decodes_nothrow hskip) state

/-- The fields of a level are read into the variables that the object has for them. -/
def FieldsReadInto (P : TaggedProtocol) (debug : Bool) (S : SchemaDef n) (C : CppSchema m)
    (deserialize : SchemaTime → TypeDef n → CppType m → CppValue m → Reader (CppValue m))
    (time : SchemaTime) (p : (Fin n × Fin m) × Fields) (var : CppValue m) : Prop :=
  ∀ f ∈ p.2, ∀ time' type head,
    fieldOf C time (S.structs p.1.1).fields p.1.2 f.1 f.2.typeId = some (time', type, head) →
    ReadsInto P debug S C deserialize ⟨time', type, head.type, f.2⟩
      (var.getField (p.1.2, f.1) head.type)

/-- The fields of one level. No two of them have the same id, so that each is read into what the
    object had for it before. -/
theorem handles_toFields {fs : Fields} (hfs : PayloadIncreasing fs)
    (hwf : wellFormedFields fs = true) (done : List (CppField m))
    (hrequired : (C.structs x).fields.filter isRequired =
      done ++ (assignedFields S C time i x fs).filter isRequired) (var : CppValue m)
    (hreads : FieldsReadInto P debug S C deserialize time ((i, x), fs) var) :
    Handles P.writer (toFields P.reader C deserialize time x)
      (var, ((assignedFields S C time i x fs).filter isRequired).head?.map CppField.id)
      (fs.map (payloadEvent time.event (S.structs i).fields))
      (assignFields debug S C fs time i x var, none) := by
  induction fs generalizing done var with
  | nil => exact .nil _
  | cons p fs ih =>
      obtain ⟨id, v⟩ := p
      rw [wellFormedFields, Bool.and_eq_true] at hwf
      obtain ⟨hv, hwf⟩ := hwf
      obtain ⟨hlt, hfs⟩ := List.pairwise_cons.1 hfs
      have hrest : FieldsReadInto P debug S C deserialize time ((i, x), fs) var :=
        fun f hf => hreads f (List.mem_cons_of_mem _ hf)
      have hon := toFields_on P C deserialize time x (S.structs i).fields (id, v)
      rw [List.map_cons]
      cases hfield : fieldOf C time (S.structs i).fields x id v.typeId with
      | none =>
          have hcons : assignedFields S C time i x ((id, v) :: fs) =
              assignedFields S C time i x fs := by
            rw [assignedFields, List.filterMap_cons_none (by rw [hfield]; rfl), assignedFields]
          rw [hcons] at hrequired ⊢
          rw [assignFields, hfield]
          refine .cons ?_ (ih hfs hwf done hrequired var hrest)
          rw [hon, encoding_payloadEvent time]
          exact runsTo_unassigned hfield hv _
      | some d =>
          obtain ⟨time', type, head⟩ := d
          obtain ⟨⟨_, _⟩, htype, hhead⟩ := Option.bind_eq_some_iff.1 hfield
          obtain ⟨_, hfind, hd⟩ := Option.bind_eq_some_iff.1 hhead
          cases hd
          have hcons : assignedFields S C time i x ((id, v) :: fs) =
              head :: assignedFields S C time i x fs := by
            rw [assignedFields, List.filterMap_cons_some (by rw [hfield]; rfl), assignedFields]
          have hsite := hreads (id, v) List.mem_cons_self _ _ _ hfield
          have hrest (w : CppValue m) :
              FieldsReadInto P debug S C deserialize time ((i, x), fs) (var.setField (x, id) w) := by
            intro f hf time' type head hsome
            have hne : (x, f.1) ≠ (x, id) := by
              rw [Ne, Prod.mk.injEq]
              exact fun heq => UInt16.lt_irrefl id (heq.2 ▸ hlt f hf)
            have hget := var.getField_setField_of_ne hne w head.type
            exact (congrArg _ hget).mpr (hrest f hf _ _ _ hsome)
          rw [hcons] at hrequired ⊢
          rw [assignFields, hfield]
          by_cases hreq : isRequired head = true
          · rw [List.filter_cons_of_pos hreq] at hrequired ⊢
            have hnext := nextRequired_dropWhile (C.structs x).increasing hrequired
            have hbehind := hrequired
            rw [List.append_cons] at hbehind
            refine .cons ?_ (ih hfs hwf _ hbehind _ (hrest _))
            rw [hon, encoding_payloadEvent time, htype]
            refine runsTo_assignToField hfind var hsite ?_
            rw [if_pos hreq, hnext]
            exact ⟨rfl, rfl⟩
          · rw [List.filter_cons_of_neg hreq] at hrequired ⊢
            refine .cons ?_ (ih hfs hwf done hrequired _ (hrest _))
            rw [hon, encoding_payloadEvent time, htype]
            refine runsTo_assignToField hfind var hsite ?_
            rw [if_neg hreq]

/-! ## Levels -/

variable (P C deserialize time x) in
/-- Further levels do not matter. -/
theorem handles_toFields_rest (base : Bool) {levels : List Fields}
    (hwf : ∀ fs ∈ levels, wellFormedFields fs = true) (state : ToState m) :
    Handles P.writer (toFields P.reader C deserialize time x) state
      (restEvents base levels : List (Event n)) state := by
  have hall {es : List (Event n)} (h : ∀ e ∈ es, RunsTo
      ((toFields P.reader C deserialize time x).on e) state (e.encoding P.writer) () state) :
      Handles P.writer (toFields P.reader C deserialize time x) state es state := by
    induction es with
    | nil => exact .nil state
    | cons e es ih =>
        exact .cons (h e List.mem_cons_self) (ih fun e he => h e (List.mem_cons_of_mem _ he))
  refine hall fun e he => ?_
  cases base with
  | true => cases he
  | false =>
      obtain ⟨fs, hfs, he⟩ := List.mem_flatMap.1 he
      rcases List.mem_cons.1 he with rfl | he
      · exact RunsTo.pure () state
      · obtain ⟨p, hp, rfl⟩ := List.mem_map.1 he
        have hskip := P.decodes_skip p.2 (wellFormedFields_iff.1 (hwf fs hfs) p hp)
        rw [Transform.on, unknownField, if_pos p.2.typeId_isValue]
        exact RunsTo.lift hskip state

/-- What `Deserialize` does on the fields of a level, and that none is missing. -/
def LevelReads (P : TaggedProtocol) (debug : Bool) (S : SchemaDef n) (C : CppSchema m)
    (deserialize : SchemaTime → TypeDef n → CppType m → CppValue m → Reader (CppValue m))
    (time : SchemaTime) (p : (Fin n × Fin m) × Fields) : Prop :=
  (∀ c ∈ fieldSites S C time p, Reads P debug S C deserialize c) ∧
    ∀ g ∈ (C.structs p.1.2).fields, isRequired g = true →
      g ∈ assignedFields S C time p.1.1 p.1.2 p.2

/-- What `Deserialize` does on the fields of a level of an object, and that none is missing. -/
def LevelReadsInto (P : TaggedProtocol) (debug : Bool) (S : SchemaDef n) (C : CppSchema m)
    (deserialize : SchemaTime → TypeDef n → CppType m → CppValue m → Reader (CppValue m))
    (time : SchemaTime) (p : (Fin n × Fin m) × Fields) (var : CppValue m) : Prop :=
  FieldsReadInto P debug S C deserialize time p var ∧
    ∀ g ∈ (C.structs p.1.2).fields, isRequired g = true →
      g ∈ assignedFields S C time p.1.1 p.1.2 p.2

theorem LevelReads.into {p : (Fin n × Fin m) × Fields}
    (h : LevelReads P debug S C deserialize time p) (var : CppValue m) :
    LevelReadsInto P debug S C deserialize time p var := by
  refine ⟨fun f hf time' type head hfield => ?_, h.2⟩
  refine h.1 ⟨time', type, head.type, f.2⟩ (List.mem_filterMap.2 ⟨f, hf, ?_⟩) _
  rw [hfield]
  rfl

/-- One level of a struct. -/
theorem runsTo_toLevel (k : Nat) (base : Bool) {fs : Fields} {rest : List Fields}
    (hfs : PayloadIncreasing fs) (hwf : ∀ fs' ∈ fs :: rest, wellFormedFields fs' = true)
    (var : CppValue m) (hlevel : LevelReadsInto P debug S C deserialize time ((i, x), fs) var) :
    RunsTo (readFields P.reader (toTransform P.reader C deserialize S time k x) time base
        (S.structs i).fields)
      (var, nextRequired (C.structs x).fields) (levelPayload P.writer base fs rest)
      (base && rest.isEmpty) (assignFields debug S C fs time i x var, none) := by
  obtain ⟨hreads, hcomplete⟩ := hlevel
  have hrequired := required_eq hfs hcomplete
  have hfields := handles_toFields hfs (hwf fs List.mem_cons_self) [] hrequired var hreads
  rw [← hrequired, ← nextRequired_eq] at hfields
  have hmerge := mergeEvents_filter (SchemaTime.event_omitted time) time.omitsAlways
    (S.structs i).increasing hfs
  rw [← hmerge, ← fieldEvents_eq time _ hfs] at hfields
  have hevents := Handles.of_filter (fun field state => RunsTo.pure () state) hfields
  have hrest := handles_toFields_rest P C deserialize time x base (fun fs' h => hwf fs' (List.mem_cons_of_mem fs h))
    (assignFields debug S C fs time i x var, none)
  refine runsTo_readFields P time base (S.structs i).fields fs rest ?_
  cases k <;> exact (hevents.append hrest).withBase _

/-! ## Hierarchies -/

/-- The levels of a struct are assigned, the root of the hierarchy first. -/
def assignLevels (debug : Bool) (S : SchemaDef n) (C : CppSchema m) (time : SchemaTime)
    (pairs : List (Fin n × Fin m)) (levels : List Fields) (var : CppValue m) : CppValue m :=
  (pairs.zip levels).foldl (fun var p => assignFields debug S C p.2 time p.1.1 p.1.2 var) var

theorem StructValue.assign_eq (s : StructValue) (time : SchemaTime) (pairs : List (Fin n × Fin m))
    (var : CppValue m) :
    s.assign debug S C time pairs var = assignLevels debug S C time pairs s.levels var := by
  have hsplit (pairs : List (Fin n × Fin m)) (front : List Fields) (fs : Fields)
      (var : CppValue m) :
      (∀ p, pairs[front.length]? = some p →
        assignLevels debug S C time pairs (front ++ [fs]) var =
          assignFields debug S C fs time p.1 p.2 (assignLevels debug S C time pairs front var)) ∧
      (pairs[front.length]? = none →
        assignLevels debug S C time pairs (front ++ [fs]) var =
          assignLevels debug S C time pairs front var) := by
    induction pairs generalizing front var with
    | nil => simp [assignLevels]
    | cons p pairs ih =>
        cases front with
        | nil => simp [assignLevels]
        | cons f front =>
            have htail := ih front (assignFields debug S C f time p.1 p.2 var)
            simpa [assignLevels] using htail
  induction s with
  | root fields =>
      obtain ⟨hsome, hnone⟩ := hsplit pairs [] fields var
      have hempty : assignLevels debug S C time pairs [] var = var := by simp [assignLevels]
      rw [List.nil_append, List.length_nil, hempty] at hsome hnone
      rw [StructValue.levels, StructValue.assign]
      cases hpair : pairs[0]? with
      | some p => exact (hsome p hpair).symm
      | none => exact (hnone hpair).symm
  | derived base fields ih =>
      obtain ⟨hsome, hnone⟩ := hsplit pairs base.levels fields var
      rw [StructValue.levels_length, ← ih] at hsome hnone
      rw [StructValue.levels, StructValue.assign]
      cases hpair : pairs[base.depth]? with
      | some p => exact (hsome p hpair).symm
      | none => exact (hnone hpair).symm

theorem pairLevels_root {α β : Type} (i : α) (xs : List β) (x : β) :
    pairLevels [i] (xs ++ [x]) = [(i, x)] := by
  simp [pairLevels]

theorem pairLevels_append {α β : Type} (is : List α) (i : α) (xs : List β) (x : β)
    (h : is.length ≤ xs.length) :
    pairLevels (is ++ [i]) (xs ++ [x]) = pairLevels is xs ++ [(i, x)] := by
  simp only [pairLevels, List.length_append, List.length_singleton, Nat.add_sub_add_right]
  rw [List.take_of_length_le (by simp; omega), List.take_of_length_le h,
    List.drop_append_of_le_length (by omega), List.zip_append (by rw [List.length_drop]; omega)]
  rfl

theorem pairLevels_length {α β : Type} (is : List α) (xs : List β) :
    (pairLevels is xs).length = min is.length xs.length := by
  rw [pairLevels, List.length_zip, List.length_take, List.length_drop]
  omega

/-- More levels of the schema than the C++ struct has do not matter. -/
theorem pairLevels_of_lt {α β : Type} (is : List α) (i : α) (xs : List β)
    (h : xs.length ≤ is.length) : pairLevels (is ++ [i]) xs = pairLevels is xs := by
  rw [pairLevels, pairLevels, List.take_append_of_le_length h, List.length_append,
    List.length_singleton, Nat.sub_eq_zero_of_le h, Nat.sub_eq_zero_of_le (by omega)]

theorem depth_not_gt {a b : Nat} (h : a ≤ b) (hb : b < 2 ^ 16) :
    ¬ UInt16.ofNat a > UInt16.ofNat b := by
  have ha := UInt16.toNat_ofNat_of_lt' (Nat.lt_of_le_of_lt h hb)
  have hb := UInt16.toNat_ofNat_of_lt' hb
  rw [gt_iff_lt, UInt16.lt_iff_toNat_lt, ha, hb]
  omega

variable (P S deserialize time) in
theorem toTransform_expectedDepth (k : Nat) {xs : List (Fin m)}
    (hx : C.schemaDef.Hierarchy x xs) :
    (toTransform P.reader C deserialize S time k x).expectedDepth = UInt16.ofNat xs.length := by
  have hdepth := hx.schemaDepth
  cases k <;>
  · show (C.schemaDef.schemaDepth x).getD 0 = _
    rw [hdepth]
    rfl

theorem runsTo_begin (k : Nat) (metadata : Metadata) (state : ToState m) :
    RunsTo ((toTransform P.reader C deserialize S time k x).begin_ metadata) state ([] : List UInt8)
      () (state.1, nextRequired (C.structs x).fields) := by
  cases k <;> exact RunsTo.modify _ state

theorem runsTo_end (k : Nat) (var : CppValue m) :
    RunsTo (toTransform P.reader C deserialize S time k x).end_ (var, none) ([] : List UInt8) ()
      (var, none) := by
  cases k <;> exact RunsTo.pure () (var, none)

/-- `To::AssignToBase`, if the struct does not end with the base. -/
theorem runsTo_assignToBase {apply : ParserM (ToState m) Bool} {var var' : CppValue m}
    {required : Option UInt16} {enc : List UInt8}
    (h : RunsTo apply (var, none) enc false (var', none)) :
    RunsTo (assignToBase C x apply) (var, required) enc false (var', required) := by
  unfold RunsTo assignToBase
  simp only [StateT.run_bind, StateT.run_get, pure_bind, onInput, StateT.run_lift, bind_assoc,
    StateT.run_set]
  rw [← List.append_nil enc]
  exact Decodes.bind_pure h (Decodes.pure _)

/-- Assigning to the fields of a class leaves the fields of the others as they are. -/
theorem assignFields_getField {y : Fin m} (hne : x ≠ y) (fs : Fields) (var : CppValue m)
    (id : UInt16) (X : CppType m) :
    (assignFields debug S C fs time i y var).getField (x, id) X = var.getField (x, id) X := by
  induction fs generalizing var with
  | nil => rw [assignFields]
  | cons f fs ih =>
      obtain ⟨id', v⟩ := f
      rw [assignFields, ih]
      split
      · exact var.getField_setField_of_ne (fun heq => hne (congrArg Prod.fst heq)) _ _
      · rfl

theorem assignLevels_getField {pairs : List (Fin n × Fin m)} (hne : ∀ p ∈ pairs, x ≠ p.2)
    (levels : List Fields) (var : CppValue m) (id : UInt16) (X : CppType m) :
    (assignLevels debug S C time pairs levels var).getField (x, id) X = var.getField (x, id) X := by
  induction pairs generalizing levels var with
  | nil => rfl
  | cons p pairs ih =>
      cases levels with
      | nil => rfl
      | cons fs levels =>
          have htail := ih (fun q hq => hne q (List.mem_cons_of_mem p hq)) levels
            (assignFields debug S C fs time p.1 p.2 var)
          exact htail.trans (assignFields_getField (hne p List.mem_cons_self) fs var id X)

/-- A struct of which the schema has no more levels than the C++ struct. -/
theorem runsTo_toTransform {is : List (Fin n)} (hi : S.Hierarchy i is) {xs : List (Fin m)}
    (hx : C.schemaDef.Hierarchy x xs) (hle : is.length ≤ xs.length) (hlt : xs.length < 2 ^ 16)
    {k : Nat} (hk : xs.length ≤ k + 1) {bound : Nat} (hbound : 0 < bound) (base : Bool)
    {levels : List Fields} (hlevels : is.length ≤ levels.length)
    (hfs : ∀ fs ∈ levels, PayloadIncreasing fs)
    (hwf : ∀ fs ∈ levels, wellFormedFields fs = true)
    (state : ToState m) (hreads : ∀ p ∈ (pairLevels is xs).zip levels,
      LevelReadsInto P debug S C deserialize time p state.1) :
    RunsTo (readSchema P.reader (toTransform P.reader C deserialize S time k x) S time base bound i)
      state (levelsRead P.writer base is.length levels) (levelsDone base is.length levels)
      (assignLevels debug S C time (pairLevels is xs) levels state.1, none) := by
  obtain ⟨var, required⟩ := state
  have hdepth := hi.schemaDepth
  have hnot := depth_not_gt hle hlt
  rw [← toTransform_expectedDepth P S deserialize time k hx]
    at hnot
  induction hi generalizing x xs k base bound var required with
  | @root i hnone =>
      obtain ⟨fs, rest, rfl⟩ := List.exists_cons_of_length_pos
        (Nat.lt_of_lt_of_le Nat.zero_lt_one hlevels)
      obtain ⟨ys, rfl⟩ : ∃ ys, xs = ys ++ [x] := by
        cases hx with
        | root _ => exact ⟨[], rfl⟩
        | derived _ _ => exact ⟨_, rfl⟩
      rw [pairLevels_root] at hreads ⊢
      have hlevel := runsTo_toLevel k base (hfs fs List.mem_cons_self) hwf var
        (hreads _ List.mem_cons_self)
      have hbase := runsTo_base_none hnone (toTransform P.reader C deserialize S time k x).base
        (var, nextRequired (C.structs x).fields)
      have hread := Cpp.runsTo_readSchema hbound hdepth hnot (runsTo_begin k _ (var, required)) hbase
        hlevel (runsTo_end k _)
      have henc := levelsRead_succ P.writer base [] fs rest
      have hdone := levelsDone_succ base [] fs rest
      rw [List.length_nil, Nat.zero_add, List.nil_append] at henc hdone
      rw [List.length_singleton, henc, hdone, encodeFirst]
      exact hread
  | @derived i j js hsome hj ih =>
      rw [List.length_append, List.length_singleton] at hle hlevels hdepth hnot ⊢
      have hpos := hj.length_pos
      cases hx with
      | root _ =>
          rw [List.length_singleton] at hle
          omega
      | @derived _ y ys hxy hy =>
          rw [List.length_append, List.length_singleton] at hle hlt hk
          obtain ⟨k, rfl⟩ : ∃ k', k = k' + 1 := ⟨k - 1, by have hlt := hy.length_pos; omega⟩
          obtain ⟨front, fs, rest, rfl, hfront⟩ := exists_split (Nat.lt_of_succ_le hlevels)
          have hshort : js.length ≤ ys.length := Nat.le_of_succ_le_succ hle
          have hmem {fs' : Fields} (h : fs' ∈ fs :: rest) : fs' ∈ front ++ fs :: rest :=
            List.mem_append_right front h
          have hpairs : (pairLevels js ys).length = front.length := by
            rw [pairLevels_length, Nat.min_eq_left hshort, hfront]
          rw [pairLevels_append js i ys x hshort, zip_append_cons (i, x) fs rest hpairs] at hreads
          have hnotBase := depth_not_gt hshort (by omega)
          rw [← toTransform_expectedDepth P S deserialize time k hy] at hnotBase
          have hbelow := ih hy hshort (by omega) (by omega) i.pos true (by simp; omega)
            var none (fun p hp => hreads p (List.mem_append_left _ hp)) hj.schemaDepth hnotBase
          have hstart := RunsTo.lift P.decodes_structBegin_base ((var, none) : ToState m)
          have hdone : levelsDone true js.length (front ++ fs :: rest) = false := by
            simp [levelsDone, hfront]
          rw [hdone] at hbelow
          have hassign : RunsTo ((toTransform P.reader C deserialize S time (k + 1) x).base j)
              (var, nextRequired (C.structs x).fields)
              (encodeFirst P.writer js.length (front ++ fs :: rest)) false
              (assignLevels debug S C time (pairLevels js ys) (front ++ fs :: rest) var,
                nextRequired (C.structs x).fields) := by
            have hy' : (C.structs x).base = some y := hxy
            rw [toTransform]
            simp only [Transform.withBase, hy']
            exact runsTo_assignToBase (hstart.nil_bind hbelow)
          have hbase := runsTo_base_some hsome
            (toTransform P.reader C deserialize S time (k + 1) x).base hassign
          -- the bases are other classes
          have hother : ∀ p ∈ pairLevels js ys, x ≠ p.2 := by
            rintro p hp rfl
            have hnodup := (SchemaDef.Hierarchy.derived hxy hy).nodup
            exact (List.nodup_append.1 hnodup).2.2 _
              (List.mem_of_mem_drop (List.of_mem_zip hp).2) _ List.mem_cons_self rfl
          have hmine : LevelReadsInto P debug S C deserialize time ((i, x), fs)
              (assignLevels debug S C time (pairLevels js ys) (front ++ fs :: rest) var) := by
            obtain ⟨hread, hcomplete⟩ := hreads ((i, x), fs) (by simp)
            refine ⟨fun f hf time' type head hfield => ?_, hcomplete⟩
            rw [assignLevels_getField hother]
            exact hread f hf time' type head hfield
          have hlevel := runsTo_toLevel (k + 1) base (hfs fs (hmem List.mem_cons_self))
            (fun fs' h => hwf fs' (hmem h)) _ hmine
          have hread := Cpp.runsTo_readSchema hbound hdepth hnot
            (runsTo_begin (k + 1) _ (var, required)) hbase hlevel (runsTo_end (k + 1) _)
          have hassign : assignLevels debug S C time (pairLevels js ys ++ [(i, x)])
              (front ++ fs :: rest) var = assignFields debug S C fs time i x
                (assignLevels debug S C time (pairLevels js ys) (front ++ fs :: rest) var) := by
            rw [assignLevels, zip_append_cons (i, x) fs rest hpairs, List.foldl_append, assignLevels]
            rfl
          rw [← hfront] at hread ⊢
          rw [pairLevels_append js i ys x hshort, hassign, levelsRead_succ, levelsDone_succ]
          exact hread

/-- `Apply` of `To` on a struct. -/
theorem decodes_applyToVar {is : List (Fin n)} (hi : S.Hierarchy i is) {xs : List (Fin m)}
    (hx : C.schemaDef.Hierarchy x xs) (hilt : is.length < 2 ^ 16) (hxlt : xs.length < 2 ^ 16)
    {s : StructValue} (hlevels : (pairLevels is xs).length ≤ s.levels.length)
    (hs : ∀ fs ∈ s.levels, PayloadIncreasing fs) (hwf : s.wellFormed = true)
    (var : CppValue m) (hreads : ∀ p ∈ (pairLevels is xs).zip s.levels,
      LevelReadsInto P debug S C deserialize time p var) :
    Decodes (applyToVar P.reader C deserialize S time i x var) ((Value.struct s).encode P.writer)
      (pure (s.assign debug S C time (pairLevels is xs) var)) := by
  have hfields : ∀ fs ∈ s.levels, wellFormedFields fs = true := fun fs hfs =>
    wellFormedFields_iff.2 (StructValue.wellFormed_iff.1 hwf fs hfs)
  have hshallow {i : Fin n} {is : List (Fin n)} (hi : S.Hierarchy i is)
      (hle : is.length ≤ xs.length) {bound : Nat} (hbound : is.length ≤ bound)
      (hlevels : (pairLevels is xs).length ≤ s.levels.length)
      (hreads : ∀ p ∈ (pairLevels is xs).zip s.levels,
        LevelReadsInto P debug S C deserialize time p var) :
      ∃ done, RunsTo (readSchema P.reader (toTransform P.reader C deserialize S time m x) S time
          false bound i) (var, none) (encodeLevels P.writer s.levels) done
        (assignLevels debug S C time (pairLevels is xs) s.levels var, none) := by
    rw [pairLevels_length, Nat.min_eq_left hle] at hlevels
    exact ⟨_, runsTo_toTransform hi hx hle hxlt (Nat.le_succ_of_le hx.length_le)
      (Nat.lt_of_lt_of_le hi.length_pos hbound) false hlevels hs hfields (var, none) hreads⟩
  have hschema {bound : Nat} (hbound : is.length ≤ bound) :
      ∃ done, RunsTo (readSchema P.reader (toTransform P.reader C deserialize S time m x) S time
          false bound i) (var, none) (encodeLevels P.writer s.levels) done
        (assignLevels debug S C time (pairLevels is xs) s.levels var, none) := by
    induction hi generalizing bound with
    | root hnone => exact hshallow (.root hnone) hx.length_pos hbound hlevels hreads
    | @derived i j js hsome hj ih =>
        have hdepth := (SchemaDef.Hierarchy.derived hsome hj).schemaDepth
        rw [List.length_append, List.length_singleton] at hbound hilt hdepth
        by_cases hle : js.length + 1 ≤ xs.length
        · exact hshallow (.derived hsome hj) (by simpa using hle) (by simpa using hbound) hlevels
            hreads
        · -- the most derived level is not expected
          rw [pairLevels_of_lt js i xs (by omega)] at hlevels hreads ⊢
          obtain ⟨bound, rfl⟩ : ∃ k, bound = k + 1 := ⟨bound - 1, by omega⟩
          obtain ⟨done, hread⟩ := ih (Nat.lt_of_succ_lt hilt) hlevels hreads
            (Nat.le_of_succ_le_succ hbound)
          have hgt : UInt16.ofNat (js.length + 1) >
              (toTransform P.reader C deserialize S time m x).expectedDepth := by
            rw [toTransform_expectedDepth P S deserialize time m hx, gt_iff_lt, UInt16.lt_iff_toNat_lt,
              UInt16.toNat_ofNat_of_lt' hilt, UInt16.toNat_ofNat_of_lt' hxlt]
            omega
          have hstart := RunsTo.lift P.decodes_structBegin_base ((var, none) : ToState m)
          refine ⟨done, ?_⟩
          rw [readSchema, hdepth, hsome]
          simp only [if_pos hgt]
          exact hstart.nil_bind hread
  obtain ⟨done, hread⟩ := hschema hi.length_le
  have hstart := RunsTo.lift (P.decodes_structBegin
    (UInt32.ofNat (s.encodeBody P.writer ++ stopBytes false).length)) ((var, none) : ToState m)
  have happly : RunsTo (applyParser P.reader (toTransform P.reader C deserialize S time m x) S time
      false i) (var, none) _ done _ := hstart.bind hread
  rw [encodeLevels_levels] at happly
  rw [encode_struct, StructValue.assign_eq]
  exact Decodes.bind_return happly fun result => result.2.1

end

end Bond.Cpp

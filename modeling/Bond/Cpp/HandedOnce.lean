import Bond.Cpp.Handed

set_option autoImplicit false

/-! # Handles of a tagged payload

What a transform is handed for a struct of a tagged payload, and that each handle moves the parser's reader
over its value, no matter whether the transform or the handle itself does it. -/

namespace Bond.Cpp

open Decoder Handle Hereditary

variable {n m : Nat}

/-! ## What is handed -/

/-- What a handle stands for: a field, with the type that the parser has for it, or a base, of the struct
    with these levels. -/
inductive Handed where
  | field {n : Nat} (S : SchemaDef n) (time : SchemaTime) (type : TypeDef n) (v : Value)
  | base {n : Nat} (S : SchemaDef n) (time : SchemaTime) (j : Fin n) (levels : List Fields)

/-- The bytes that the value takes. -/
def Handed.encoding (W : ProtocolWriter) : Handed → List UInt8
  | field _ _ _ v => v.encode W
  | base S _ j levels => encodeFirst W (S.levels j).length levels

/-- The handle of a field that the schema does not know. -/
def handedUnknown (p : UInt16 × Value) : Handed :=
  .field unknownSchema .runtime (unknownType p.2.typeId) p.2

/-- The handle of a field of the struct `i`. -/
def handedField (S : SchemaDef n) (time : SchemaTime) (i : Fin n) (p : UInt16 × Value) : Handed :=
  match fieldType time (S.structs i).fields p.1 p.2.typeId with
  | some (time', type) => .field S time' type p.2
  | none => handedUnknown p

/-- The handle of the base of the struct `i`. -/
def handedBase (S : SchemaDef n) (time : SchemaTime) (i : Fin n) (levels : List Fields) : List Handed :=
  match (S.structs i).baseDef with
  | none => []
  | some j => [.base S time j levels]

/-- All that a transform is handed for a struct, or for the base of one: the base, the fields of its own
    level, and if it is no base the fields of the levels that the schema does not have. -/
def handedBy (S : SchemaDef n) (time : SchemaTime) (base : Bool) (i : Fin n) (levels : List Fields) :
    List Handed :=
  let behind := levels.drop ((S.levels i).length - 1)
  handedBase S time i levels ++ (behind.head?.getD []).map (handedField S time i)
    ++ if base then [] else behind.tail.flatten.map handedUnknown

/-- A handle has moved the reader over what it stands for. If a transform was applied to it, then so has
    each handle that this transform was handed. -/
inductive Accounts (W : ProtocolWriter) : Entry → Handed → Prop
  | whole (handed : Handed) : Accounts W (.mk (handed.encoding W) []) handed
  | applied {n : Nat} {S : SchemaDef n} {time : SchemaTime} {i : Fin n} {bondedType : Bool}
      {s : StructValue} {entries : List Entry}
      (h : List.Forall₂ (Accounts W) entries (handedBy S time false i s.levels)) :
      Accounts W (.mk ((Value.struct s).encode W) entries)
        (.field S time (.struct i bondedType) (.struct s))
  | appliedBase {n : Nat} {S : SchemaDef n} {time : SchemaTime} {j : Fin n} {levels : List Fields}
      {entries : List Entry}
      (h : List.Forall₂ (Accounts W) entries (handedBy S time true j levels)) :
      Accounts W (.mk (encodeFirst W (S.levels j).length levels) entries) (.base S time j levels)

/-! ## Which uses are safe -/

/-- The values in a value are deserialized without loss, and none throws. -/
def Lossless (C : CppSchema m) (S : SchemaDef n) (site : Site n m) : Prop :=
  Everywhere (Site.children S C) (fun s => s.conforms S C = true ∧ ¬ s.isLossy = true) site

def ValueUse.Safe (C : CppSchema m) (S : SchemaDef n) (time : SchemaTime) (type : TypeDef n)
    (v : Value) : ValueUse m → Prop
  | deserialize X _ => Lossless C S ⟨time, type, X, v⟩
  | _ => True

/-- A struct may be left to its handle, but not be parsed twice. -/
def BondedUse.Safe (C : CppSchema m) (S : SchemaDef n) (time : SchemaTime) (type : TypeDef n)
    (v : Value) : BondedUse m → Prop
  | deserialize x _ => Lossless C S ⟨time, type, .struct x, v⟩
  | serialize _ firstPass => firstPass = false
  | _ => True

/-- A base has to be parsed, and down to its last level. -/
def BondedUse.SafeBase (C : CppSchema m) (S : SchemaDef n) (time : SchemaTime) (j : Fin n)
    (levels : List Fields) : BondedUse m → Prop
  | deserialize x _ =>
      (S.levels j).length ≤ (C.schemaDef.levels x).length ∧
        Lossless C S ⟨time, .struct j false, .struct x,
          .struct (.ofLevels (levels.take (S.levels j).length))⟩
  | serialize pass firstPass => pass = false ∧ firstPass = false
  | apply => True
  | ignore | skip | keep => False

/-- What the transform does with a handle is safe, and so it is with all the handles that it is handed if
    it is applied to this one. -/
inductive Uses.Safe (uses : Uses m) (C : CppSchema m) : List Nat → Handed → Prop
  | value {n : Nat} {place : List Nat} {S : SchemaDef n} {time : SchemaTime} {type : TypeDef n}
      {v : Value} (htype : ∀ i bondedType, type ≠ .struct i bondedType)
      (h : (uses.value place).Safe C S time type v) : Safe uses C place (.field S time type v)
  | struct {n : Nat} {place : List Nat} {S : SchemaDef n} {time : SchemaTime} {i : Fin n}
      {bondedType : Bool} {s : StructValue}
      (h : (uses.bonded place).Safe C S time (.struct i bondedType) (.struct s))
      (happly : uses.bonded place = .apply → ∀ k handed,
        (handedBy S time false i s.levels)[k]? = some handed → Safe uses C (k :: place) handed) :
      Safe uses C place (.field S time (.struct i bondedType) (.struct s))
  | base {n : Nat} {place : List Nat} {S : SchemaDef n} {time : SchemaTime} {j : Fin n}
      {levels : List Fields} (h : (uses.bonded place).SafeBase C S time j levels)
      (happly : uses.bonded place = .apply → ∀ k handed,
        (handedBy S time true j levels)[k]? = some handed → Safe uses C (k :: place) handed) :
      Safe uses C place (.base S time j levels)

/-- A run in which all that the transform does is safe, from the handle number `start` on. -/
def Uses.SafeRun (uses : Uses m) (C : CppSchema m) (path : List Nat) (start : Nat)
    (handed : List Handed) : Prop :=
  ∀ k x, handed[k]? = some x → uses.Safe C ((start + k) :: path) x

theorem safeRun_of_apply {uses : Uses m} {C : CppSchema m} {path : List Nat} {handed : List Handed}
    (h : ∀ k x, handed[k]? = some x → uses.Safe C (k :: path) x) : uses.SafeRun C path 0 handed := by
  intro k x hk
  rw [Nat.zero_add]
  exact h k x hk

theorem Uses.safeRun_append {uses : Uses m} {C : CppSchema m} {path : List Nat} {start : Nat}
    {xs ys : List Handed} (h : uses.SafeRun C path start (xs ++ ys)) :
    uses.SafeRun C path start xs ∧ uses.SafeRun C path (start + xs.length) ys :=
  numbered_append (P := fun k => uses.Safe C (k :: path)) h

/-! ## Payloads of a schema -/

/-- The levels of a payload for a schema: one for each struct of the hierarchy, and perhaps more. -/
structure LevelsOf (S : SchemaDef n) (i : Fin n) (levels : List Fields) : Prop where
  grounded : S.Grounded
  length_le : (S.levels i).length ≤ levels.length
  increasing : ∀ fs ∈ levels, PayloadIncreasing fs
  wellFormed : ∀ fs ∈ levels, ∀ f ∈ fs, f.2.wellFormed = true ∧ f.2.Ordered
  covers : ∀ p ∈ (S.levels i).zip levels, ∀ field ∈ (S.structs p.1).fields, ∀ f ∈ p.2,
    field.id = f.1 → field.type.id = f.2.typeId → S.Covers field.type f.2

/-- A value of a type. -/
structure FieldOf (S : SchemaDef n) (type : TypeDef n) (v : Value) : Prop where
  grounded : S.Grounded
  id_eq : type.id = v.typeId
  wellFormed : v.wellFormed = true
  ordered : v.Ordered
  covers : S.Covers type v

theorem unknownSchema_grounded : unknownSchema.Grounded := by
  intro i
  exact ⟨[i], .root rfl, by rw [List.length_singleton]; omega⟩

theorem FieldOf.unknown {v : Value} (hwf : v.wellFormed = true) (hordered : v.Ordered) :
    FieldOf unknownSchema (unknownType v.typeId) v where
  grounded := unknownSchema_grounded
  id_eq := unknownType_id v.typeId_isValue
  wellFormed := hwf
  ordered := hordered
  covers := unknownSchema_covers v hwf _ (.inl rfl) (unknownType_id v.typeId_isValue)

section

variable {S : SchemaDef n} {i j : Fin n} {levels : List Fields}

theorem FieldOf.levelsOf {bondedType : Bool} {s : StructValue}
    (h : FieldOf S (.struct i bondedType) (.struct s)) : LevelsOf S i s.levels := by
  obtain ⟨hS, -, hwf, hordered, hcovers⟩ := h
  rw [Value.wellFormed] at hwf
  cases hordered with
  | struct hs hordered =>
  cases hcovers with
  | struct hi hlevels hcovers =>
  rw [← hi.levels_eq] at hlevels hcovers
  exact ⟨hS, hlevels, hs, fun fs hfs f hf =>
    ⟨StructValue.wellFormed_iff.1 hwf fs hfs f hf, hordered fs hfs f hf⟩, hcovers⟩

theorem SchemaDef.levels_base (hS : S.Grounded) (h : (S.structs i).baseDef = some j) :
    S.levels i = S.levels j ++ [i] := by
  obtain ⟨is, hi, -⟩ := hS i
  rw [hi.levels_eq]
  cases hi with
  | root hnone => rw [hnone] at h; cases h
  | derived hsome hj =>
      obtain rfl := Option.some.inj (hsome.symm.trans h)
      rw [hj.levels_eq]

theorem SchemaDef.levels_root (hS : S.Grounded) (h : (S.structs i).baseDef = none) :
    S.levels i = [i] := by
  obtain ⟨is, hi, -⟩ := hS i
  rw [hi.levels_eq]
  cases hi with
  | root => rfl
  | derived hsome => rw [h] at hsome; cases hsome

theorem LevelsOf.base (h : LevelsOf S i levels) (hbase : (S.structs i).baseDef = some j) :
    LevelsOf S j levels := by
  have heq := SchemaDef.levels_base h.grounded hbase
  have hle := h.length_le
  rw [heq, List.length_append, List.length_singleton] at hle
  refine ⟨h.grounded, by omega, h.increasing, h.wellFormed, fun p hp => h.covers p ?_⟩
  obtain ⟨front, fs, rest, rfl, hfront⟩ := exists_split (Nat.lt_of_succ_le hle)
  rw [heq, zip_append_cons i fs rest hfront.symm]
  exact List.mem_append_left _ hp

/-- The own level of the struct, with what is in front and what is behind. -/
theorem LevelsOf.split (h : LevelsOf S i levels) :
    ∃ front fs rest, levels = front ++ fs :: rest ∧ (S.levels i).length = front.length + 1 ∧
      ((i, fs) ∈ (S.levels i).zip levels) := by
  cases hbase : (S.structs i).baseDef with
  | none =>
      have heq := SchemaDef.levels_root h.grounded hbase
      have hle := h.length_le
      rw [heq, List.length_singleton] at hle
      obtain ⟨fs, rest, rfl⟩ := List.exists_cons_of_length_pos hle
      exact ⟨[], fs, rest, rfl, by rw [heq]; rfl, by rw [heq]; exact List.mem_cons_self⟩
  | some j =>
      have heq := SchemaDef.levels_base h.grounded hbase
      have hle := h.length_le
      rw [heq, List.length_append, List.length_singleton] at hle
      obtain ⟨front, fs, rest, rfl, hfront⟩ := exists_split (Nat.lt_of_succ_le hle)
      refine ⟨front, fs, rest, rfl, by rw [heq]; simp [hfront], ?_⟩
      rw [heq, zip_append_cons i fs rest hfront.symm]
      exact List.mem_append_right _ List.mem_cons_self

end

theorem handedBy_eq {S : SchemaDef n} {i : Fin n} (time : SchemaTime) (base : Bool)
    {front : List Fields} {fs : Fields} {rest : List Fields}
    (h : (S.levels i).length = front.length + 1) :
    handedBy S time base i (front ++ fs :: rest) =
      handedBase S time i (front ++ fs :: rest) ++ fs.map (handedField S time i)
        ++ if base then [] else rest.flatten.map handedUnknown := by
  have hbehind : (front ++ fs :: rest).drop ((S.levels i).length - 1) = fs :: rest := by
    rw [h, Nat.add_sub_cancel, List.drop_left]
  rw [handedBy, hbehind]
  rfl

/-! ## One handle -/

section

variable {P : TaggedProtocol} {debug : Bool} {C : CppSchema m} {S : SchemaDef n} {time : SchemaTime}

/-- The entry of a handle is what the reader has moved over. -/
theorem runsTo_hand {skip : Reader Unit} {path : List Nat}
    {use : List Nat → StateT Bool Reader (List Entry)} {entries nested : List Entry}
    {enc : List UInt8}
    (h : Decodes (settle (nothrow skip) (use (entries.length :: path))) enc (pure nested)) :
    RunsTo (hand skip path use) entries enc () (entries ++ [.mk enc nested]) := by
  intro b rest hb
  have hsettle := h b rest hb
  have htake := InputBuffer.take_advance hb
  simp only [pure_bind] at hsettle
  simp only [hand, onInput, StateT.run_bind, StateT.run_get, StateT.run_lift, StateT.run_set,
    pure_bind, bind_assoc, hsettle, htake, StateT.run_pure]

/-- A `value`, whatever is done with it. -/
theorem decodes_useValue (hP : P.Plain) (hC : C.schemaDef.Grounded) {type : TypeDef n} {v : Value}
    (hv : FieldOf S type v) {use : ValueUse m} (h : use.Safe C S time type v) :
    Decodes (settle (nothrow (P.reader.skip type.id)) (useValue P.reader debug C S time type use))
      (v.encode P.writer) (pure []) := by
  have hskip := P.decodes_skip v hv.wellFormed
  rw [← hv.id_eq] at hskip
  cases use with
  | ignore => exact Decodes.settle_leave (decodes_nothrow hskip) []
  | skip => exact Decodes.settle_pay (hskip.bind_return fun _ => [])
  | deserialize X var =>
      have hread : Decodes (deserializeVar P.reader debug S C time type X var) _ _ :=
        reads_of_lossless hP hv.grounded hC hv.wellFormed hv.id_eq.symm h var
      exact Decodes.settle_pay (hread.bind_return fun _ => [])
  | serialize pass =>
      have hwrite : Decodes (serializeValue P.reader pass S time type) _ _ :=
        decodes_serializeValue P pass hv.wellFormed hv.ordered hv.id_eq hv.covers
      exact Decodes.settle_pay (hwrite.bind_return fun _ => [])

theorem deserializeBonded_eq (i : Fin n) (bondedType : Bool) (x : Fin m) (var : CppValue m) :
    deserializeBonded P.reader debug C S time false i x var =
      deserializeVar P.reader debug S C time (.struct i bondedType) (.struct x) var := by
  have hmatch : isValueMatching time (.struct i bondedType) (.struct x : CppType m) = true := by
    cases time <;> rfl
  unfold deserializeBonded deserializeVar
  refine congrArg _ (funext fun left => ?_)
  rw [deserializeWithin, deserializeValue, if_pos hmatch]
  rfl

theorem serializeBonded_eq (pass : Bool) (i : Fin n) (bondedType : Bool) :
    serializeBonded P.reader S time pass false i =
      serializeValue P.reader pass S time (.struct i bondedType) :=
  rfl

/-- A `bonded` of a field, whatever is done with it. -/
theorem decodes_useBonded (hP : P.Plain) (hC : C.schemaDef.Grounded) {i : Fin n} {bondedType : Bool}
    {s : StructValue} (hs : FieldOf S (.struct i bondedType) (.struct s)) {use : BondedUse m}
    (h : use.Safe C S time (.struct i bondedType) (.struct s)) {nested : Reader (List Entry)}
    (hnested : use = .apply → ∃ entries,
      Decodes nested ((Value.struct s).encode P.writer) (pure entries) ∧
        List.Forall₂ (Accounts P.writer) entries (handedBy S time false i s.levels)) :
    ∃ entries, Decodes (settle (nothrow (P.reader.skip .struct))
        (useBonded P.reader debug C S time false i nested use))
        ((Value.struct s).encode P.writer) (pure entries) ∧
      Accounts P.writer (.mk ((Value.struct s).encode P.writer) entries)
        (.field S time (.struct i bondedType) (.struct s)) := by
  have hskip := P.decodes_skip _ hs.wellFormed
  have hwhole := Accounts.whole (W := P.writer) (.field S time (.struct i bondedType) (.struct s))
  cases use with
  | ignore => exact ⟨[], Decodes.settle_leave (decodes_nothrow hskip) [], hwhole⟩
  | keep => exact ⟨[], Decodes.settle_leave (decodes_nothrow hskip) [], hwhole⟩
  | skip => exact ⟨[], Decodes.settle_pay (hskip.bind_return fun _ => []), hwhole⟩
  | deserialize x var =>
      have hread : Decodes (deserializeVar P.reader debug S C time (.struct i bondedType) (.struct x)
          var) _ _ :=
        reads_of_lossless hP hs.grounded hC hs.wellFormed hs.id_eq.symm h var
      rw [← deserializeBonded_eq] at hread
      exact ⟨[], Decodes.settle_pay (hread.bind_return fun _ => []), hwhole⟩
  | serialize pass firstPass =>
      obtain rfl : firstPass = false := h
      have hwrite : Decodes (serializeValue P.reader pass S time (.struct i bondedType)) _ _ :=
        decodes_serializeValue P pass hs.wellFormed hs.ordered hs.id_eq hs.covers
      rw [← serializeBonded_eq] at hwrite
      exact ⟨[], Decodes.settle_pay (hwrite.bind_return fun _ => []), hwhole⟩
  | apply =>
      obtain ⟨entries, hread, hentries⟩ := hnested rfl
      exact ⟨entries, Decodes.settle_pay hread, .applied hentries⟩

theorem levels_ofLevels {levels : List Fields} (h : levels ≠ []) :
    (StructValue.ofLevels levels).levels = levels := by
  obtain ⟨fs, levels, rfl⟩ := List.exists_cons_of_ne_nil h
  clear h
  induction levels using List.reverseRecOn with
  | nil => rfl
  | append_singleton levels last ih =>
      rw [← List.cons_append, StructValue.ofLevels_append, StructValue.levels, ih]

/-- The levels of a base are not longer than what they are read from. -/
theorem encodeFirst_mem_length {d : Nat} {levels : List Fields} {fs : Fields}
    (h : fs ∈ levels.take d) :
    (encodeFields P.writer fs).length < (encodeFirst P.writer d levels).length := by
  induction levels generalizing d with
  | nil => simp at h
  | cons gs levels ih =>
      cases d with
      | zero => simp at h
      | succ d =>
          rw [encodeFirst, List.length_append, List.length_append, stopBytes_length]
          rcases List.mem_cons.1 h with rfl | h
          · omega
          · have hlt := ih h
            omega

/-- What is in the fields of a base is shorter than the base. -/
theorem Site.child_encodeFirst_length {site c : Site n m} {d : Nat} {levels : List Fields}
    {s : StructValue} (hs : s.levels = levels.take d) (hsite : site.value = .struct s)
    (h : c ∈ site.children S C) :
    (c.value.encode P.writer).length < (encodeFirst P.writer d levels).length := by
  rcases Site.mem_children h with ⟨kind, items, hv, -⟩ | ⟨key, items, hv, -⟩ |
    ⟨s', hv, fs, hfs, id, hc, -⟩
  · rw [hsite] at hv
    cases hv
  · rw [hsite] at hv
    cases hv
  · rw [hsite] at hv
    cases hv
    rw [hs] at hfs
    have hfield := encodeField_length_le P.writer hc
    have hlevel := encodeFirst_mem_length (P := P) hfs
    rw [encodeField, List.length_append] at hfield
    dsimp only at hfield
    omega

/-- The base is deserialized down to its last level. -/
theorem decodes_deserializeBase (hP : P.Plain) (hC : C.schemaDef.Grounded) {j : Fin n}
    {levels : List Fields} (hj : LevelsOf S j levels) {x : Fin m} {var : CppValue m}
    (h : (BondedUse.deserialize x var).SafeBase C S time j levels) :
    ∃ var', Decodes (deserializeBonded P.reader debug C S time true j x var)
      (encodeFirst P.writer (S.levels j).length levels) (pure var') := by
  obtain ⟨hle, hlossless⟩ := h
  obtain ⟨js, hi, hilt⟩ := hj.grounded j
  obtain ⟨xs, hx, hxlt⟩ := hC x
  have hlength := hj.length_le
  rw [hi.levels_eq, hx.levels_eq] at hle
  rw [hi.levels_eq] at hlossless hlength ⊢
  have hne : levels.take js.length ≠ [] := by
    have hpos := hi.length_pos
    rw [← List.length_pos_iff, List.length_take]
    omega
  have hlevels := levels_ofLevels hne
  generalize StructValue.ofLevels (levels.take js.length) = s at hlossless hlevels
  have hwf : (Value.struct s).wellFormed = true := by
    rw [Value.wellFormed, StructValue.wellFormed_iff, hlevels]
    exact fun fs hfs f hf => (hj.wellFormed fs (List.mem_of_mem_take hfs) f hf).1
  have hzip : (pairLevels js xs).zip levels = (pairLevels js xs).zip s.levels := by
    have hpairs : (pairLevels js xs).length = js.length := by
      rw [pairLevels_length, Nat.min_eq_left hle]
    rw [hlevels, List.zip_eq_zip_take_min, hpairs, Nat.min_eq_left hlength,
      List.take_of_length_le (Nat.le_of_eq hpairs)]
  obtain ⟨-, -, hrequired⟩ := of_decide_eq_true hlossless.self.1
  simp only [hi.levels_eq, hx.levels_eq] at hrequired
  have hmatch : isValueMatching time (.struct j false) (.struct x : CppType m) = true := by
    cases time <;> rfl
  have hchild {p : (Fin n × Fin m) × Fields} (hp : p ∈ (pairLevels js xs).zip s.levels)
      {c : Site n m} (hc : c ∈ fieldSites S C time p) :
      c ∈ Site.children S C ⟨time, .struct j false, .struct x, .struct s⟩ := by
    simp only [Site.children, if_pos hmatch, hi.levels_eq, hx.levels_eq]
    exact List.mem_flatMap.2 ⟨p, hp, hc⟩
  refine ⟨(assignLevels debug S C time (pairLevels js xs) levels var), fun b rest hb => ?_⟩
  have hlt := InputBuffer.remaining_length_lt b
  rw [hb, List.length_append] at hlt
  refine InputBuffer.decodes_remainingLength (fun left hleft => ?_) b rest hb
  have hreads : ∀ p ∈ (pairLevels js xs).zip levels,
      LevelReads P debug S C (deserializeWithin P.reader debug S C left) time p := by
    intro p hp
    rw [hzip] at hp
    refine ⟨fun c hc => ?_, hrequired p hp⟩
    have hmem := hchild hp hc
    have hbelow := hlossless.children_of c hmem
    obtain ⟨hcwf, hctype⟩ := Site.child_wellFormed hmem hwf
    have hshort := Site.child_encodeFirst_length (P := P) hlevels rfl hmem
    refine reads_deserializeWithin hP hj.grounded hC ?_ (by omega)
    exact (regular_of_conforms hcwf hctype (by omega) (hbelow.mono fun _ h => h.1)).and
      (hbelow.mono fun _ h => h.2)
  have hread := runsTo_toTransform hi hx hle hxlt (Nat.le_succ_of_le hx.length_le) (Fin.pos j) true
    hlength hj.increasing
    (fun fs hfs => wellFormedFields_iff.2 fun f hf => (hj.wellFormed fs hfs f hf).1) (var, none)
    fun p hp => (hreads p hp).into var
  have hstart := RunsTo.lift P.decodes_structBegin_base ((var, none) : ToState m)
  have happly : RunsTo (applyParser P.reader (toTransform P.reader C
      (deserializeWithin P.reader debug S C left) S time m x) S time true j) (var, none) _ _ _ :=
    hstart.nil_bind hread
  exact Decodes.bind_return happly fun result => result.2.1

/-- The base is serialized to a writer of another protocol. -/
theorem decodes_serializeBase {j : Fin n} {levels : List Fields} (hj : LevelsOf S j levels) :
    ∃ calls, Decodes (serializeBonded P.reader S time false true j)
      (encodeFirst P.writer (S.levels j).length levels) (pure calls) := by
  obtain ⟨js, hi, -⟩ := hj.grounded j
  obtain ⟨front, fs, rest, hsplit, hlength, -⟩ := hj.split
  have hcovers := hj.covers
  have hincreasing := hj.increasing
  rw [hi.levels_eq] at hlength hcovers ⊢
  have htake : levels.take js.length = front ++ [fs] := by
    rw [hlength, hsplit, List.take_append, List.take_of_length_le (Nat.le_succ _),
      Nat.add_sub_cancel_left]
    rfl
  refine ⟨levelsTranscoded P.writer false true front fs rest,
    InputBuffer.decodes_remainingLength fun left hleft => ?_⟩
  have hwrites {gs : Fields} (hgs : gs ∈ levels.take js.length) {f : UInt16 × Value} (hf : f ∈ gs) :
      Transcodes P false (serializeWithin P.reader false left) f.2 := by
    have hwf := hj.wellFormed gs (List.mem_of_mem_take hgs) f hf
    have hfield := encodeField_length_le P.writer hf
    have hlevel := encodeFirst_mem_length (P := P) hgs
    rw [encodeField, List.length_append] at hfield
    exact decodes_serializeWithin P false f.2 hwf.1 hwf.2 left (by omega)
  have hknown : ∀ p ∈ js.zip levels,
      KnownFields P false (serializeWithin P.reader false left) S time p.1 p.2 := by
    intro p hp f hf time' type htype
    have hmem : p.2 ∈ levels.take js.length := by
      rw [List.zip_eq_zip_take_min, Nat.min_eq_left (by rw [hlength, hsplit]; simp)] at hp
      exact (List.of_mem_zip hp).2
    exact hwrites hmem hf n S time' type (fieldType_id htype)
      (covers_fieldType htype (hcovers p hp · · f hf))
  have hunknown : ∀ gs ∈ front ++ [fs],
      UnknownFields P false (serializeWithin P.reader false left) gs := by
    intro gs hgs f hf
    rw [← htake] at hgs
    exact (hwrites hgs hf).unknown (hj.wellFormed gs (List.mem_of_mem_take hgs) f hf).1
  rw [hsplit] at hincreasing hknown ⊢
  obtain ⟨done, hread⟩ := runsTo_serializer hi (Nat.le_succ_of_le hi.length_le) (Fin.pos j) true
    hlength.symm hincreasing hknown hunknown []
  have hstart := RunsTo.lift P.decodes_structBegin_base ([] : List WriterCall)
  have happly : RunsTo (applyParser P.reader (serializer P.reader (serializeWithin P.reader false left)
      S time n true) S time true j) [] _ _ _ :=
    hstart.nil_bind hread
  rw [List.nil_append] at happly
  exact Decodes.bind_return happly fun result => result.2

/-- The `bonded` of a base. -/
theorem decodes_useBase (hP : P.Plain) (hC : C.schemaDef.Grounded) {skip : Reader Unit} {j : Fin n}
    {levels : List Fields} (hj : LevelsOf S j levels) {use : BondedUse m}
    (h : use.SafeBase C S time j levels) {nested : Reader (List Entry)}
    (hnested : use = .apply → ∃ entries,
      Decodes nested (encodeFirst P.writer (S.levels j).length levels) (pure entries) ∧
        List.Forall₂ (Accounts P.writer) entries (handedBy S time true j levels)) :
    ∃ entries, Decodes (settle skip (useBonded P.reader debug C S time true j nested use))
        (encodeFirst P.writer (S.levels j).length levels) (pure entries) ∧
      Accounts P.writer (.mk (encodeFirst P.writer (S.levels j).length levels) entries)
        (.base S time j levels) := by
  have hwhole := Accounts.whole (W := P.writer) (.base S time j levels)
  cases use with
  | ignore | keep | skip => exact h.elim
  | deserialize x var =>
      obtain ⟨var', hread⟩ : ∃ var', Decodes (deserializeBonded P.reader debug C S time true j x var)
          _ (pure var') :=
        decodes_deserializeBase hP hC hj h
      exact ⟨[], Decodes.settle_pay (hread.bind_return fun _ => []), hwhole⟩
  | serialize pass firstPass =>
      obtain ⟨rfl, rfl⟩ := h
      obtain ⟨calls, hwrite⟩ : ∃ calls, Decodes (serializeBonded P.reader S time false true j) _
          (pure calls) :=
        decodes_serializeBase hj
      exact ⟨[], Decodes.settle_pay (hwrite.bind_return fun _ => []), hwhole⟩
  | apply =>
      obtain ⟨entries, hread, hentries⟩ := hnested rfl
      exact ⟨entries, Decodes.settle_pay hread, .appliedBase hentries⟩

end

/-! ## All handles of an application -/

/-- What a struct takes in front of its levels. -/
def startBytes (W : ProtocolWriter) (base : Bool) (length : UInt32) : List UInt8 :=
  if base then [] else outputBytes (W.lengthBegin length)

/-- Applied to a struct of less than `bound` bytes, the transform is handed what it should be, and each
    handle moves the reader over what it stands for. -/
def AppliesOnce (P : TaggedProtocol) (C : CppSchema m) (uses : Uses m)
    (apply : ∀ n, SchemaDef n → SchemaTime → Bool → Fin n → List Nat → Reader (List Entry))
    (bound : Nat) : Prop :=
  ∀ (n : Nat) (S : SchemaDef n) (time : SchemaTime) (base : Bool) (i : Fin n) (path : List Nat)
    (levels : List Fields) (length : UInt32), LevelsOf S i levels →
    uses.SafeRun C path 0 (handedBy S time base i levels) →
    (levelsRead P.writer base (S.levels i).length levels).length < bound →
    ∃ entries, Decodes (apply n S time base i path)
        (startBytes P.writer base length ++ levelsRead P.writer base (S.levels i).length levels)
        (pure entries) ∧
      List.Forall₂ (Accounts P.writer) entries (handedBy S time base i levels)

section

variable {P : TaggedProtocol} {debug : Bool} {C : CppSchema m} {uses : Uses m}
  {nested : ∀ n, SchemaDef n → SchemaTime → Bool → Fin n → List Nat → Reader (List Entry)}
  {bound : Nat} {S : SchemaDef n} {time : SchemaTime} {i : Fin n} {path : List Nat}

/-- The handle of a field. -/
theorem AppliesOnce.runsTo_handField (h : AppliesOnce P C uses nested bound) (hP : P.Plain)
    (hC : C.schemaDef.Grounded) {type : TypeDef n} {v : Value} (hv : FieldOf S type v)
    (hlt : (v.encode P.writer).length < bound) {entries : List Entry}
    (hsafe : uses.Safe C (entries.length :: path) (.field S time type v)) :
    ∃ entry, RunsTo (handField P.reader debug C uses nested path S time type) entries
        (v.encode P.writer) () (entries ++ [entry]) ∧
      Accounts P.writer entry (.field S time type v) := by
  cases hsafe with
  | value htype hsafe =>
      refine ⟨.mk (v.encode P.writer) [], runsTo_hand ?_, .whole (.field S time type v)⟩
      have huse : Decodes (settle (nothrow (P.reader.skip type.id))
          (useValue P.reader debug C S time type (uses.value (entries.length :: path)))) _ _ :=
        decodes_useValue hP hC hv hsafe
      cases type with
      | struct i bondedType => exact absurd rfl (htype i bondedType)
      | _ => exact huse
  | @struct _ _ _ _ i bondedType s hsafe happly =>
      have hlength : (levelsRead P.writer false (S.levels i).length s.levels).length < bound := by
        rw [encode_struct, List.length_append] at hlt
        rw [levelsRead_false]
        omega
      have hnested (huse : uses.bonded (entries.length :: path) = .apply) : ∃ entries',
          Decodes (nested n S time false i (entries.length :: path)) ((Value.struct s).encode P.writer)
            (pure entries') ∧
          List.Forall₂ (Accounts P.writer) entries' (handedBy S time false i s.levels) := by
        obtain ⟨entries', hread, hentries⟩ := h n S time false i _ s.levels
          (UInt32.ofNat (s.encodeBody P.writer ++ stopBytes false).length) hv.levelsOf
          (safeRun_of_apply (happly huse)) hlength
        rw [levelsRead_false] at hread
        refine ⟨entries', ?_, hentries⟩
        rw [encode_struct]
        exact hread
      obtain ⟨entries', hread, haccounts⟩ := decodes_useBonded hP hC hv hsafe hnested
      exact ⟨.mk _ entries', runsTo_hand hread, haccounts⟩

/-- The handle of a field that the schema does not know. -/
theorem AppliesOnce.runsTo_unknown (h : AppliesOnce P C uses nested bound) (hP : P.Plain)
    (hC : C.schemaDef.Grounded) {p : UInt16 × Value} (hwf : p.2.wellFormed = true ∧ p.2.Ordered)
    (hlt : (p.2.encode P.writer).length < bound) {entries : List Entry}
    (hsafe : uses.Safe C (entries.length :: path) (handedUnknown p)) :
    ∃ entry, RunsTo (handField P.reader debug C uses nested path unknownSchema .runtime
        (unknownType p.2.typeId)) entries (p.2.encode P.writer) () (entries ++ [entry]) ∧
      Accounts P.writer entry (handedUnknown p) :=
  h.runsTo_handField hP hC (.unknown hwf.1 hwf.2) hlt hsafe

/-- The handle of a field on the own level of the struct. -/
theorem AppliesOnce.runsTo_field (h : AppliesOnce P C uses nested bound) (hP : P.Plain)
    (hC : C.schemaDef.Grounded) {levels : List Fields} (hi : LevelsOf S i levels) {fs : Fields}
    (hfs : (i, fs) ∈ (S.levels i).zip levels) {p : UInt16 × Value} (hp : p ∈ fs)
    (hlt : (p.2.encode P.writer).length < bound) {entries : List Entry}
    (hsafe : uses.Safe C (entries.length :: path) (handedField S time i p)) :
    ∃ entry, RunsTo (fieldCall
        (fun time' _ type => handField P.reader debug C uses nested path S time' type)
        (fun _ type => handField P.reader debug C uses nested path unknownSchema .runtime
          (unknownType type)) time (S.structs i).fields p)
        entries (p.2.encode P.writer) () (entries ++ [entry]) ∧
      Accounts P.writer entry (handedField S time i p) := by
  have hwf := hi.wellFormed fs (List.of_mem_zip hfs).2 p hp
  unfold fieldCall
  unfold handedField at hsafe ⊢
  cases hfield : fieldType time (S.structs i).fields p.1 p.2.typeId with
  | none =>
      rw [hfield] at hsafe
      exact h.runsTo_unknown hP hC hwf hlt hsafe
  | some d =>
      obtain ⟨time', type⟩ := d
      rw [hfield] at hsafe
      have hcovers := covers_fieldType hfield fun field hfield hid htype =>
        hi.covers _ hfs field hfield p hp hid htype
      exact h.runsTo_handField hP hC
        ⟨hi.grounded, fieldType_id hfield, hwf.1, hwf.2, hcovers⟩ hlt hsafe

theorem handing_takesFields (R : ProtocolReader) (path : List Nat) (S : SchemaDef n)
    (time : SchemaTime) :
    (handing R debug C uses nested path S time).TakesFields time
      (fun time' _ type => handField R debug C uses nested path S time' type)
      fun _ type => handField R debug C uses nested path unknownSchema .runtime (unknownType type) where
  nonBasicTypeField _ := rfl
  basicTypeField _ _ _ := rfl
  unknownField _ _ := rfl
  omittedField _ := rfl

/-- What has been handed up to now, behind what has been handed before. -/
def HandedSince (W : ProtocolWriter) (before : List Entry) (handed : List Handed)
    (entries : List Entry) : Prop :=
  ∃ new, entries = before ++ new ∧ List.Forall₂ (Accounts W) new handed

theorem HandedSince.nil (W : ProtocolWriter) (before : List Entry) :
    HandedSince W before [] before :=
  ⟨[], (List.append_nil before).symm, .nil⟩

theorem HandedSince.append {W : ProtocolWriter} {before entries : List Entry} {handed : List Handed}
    (h : HandedSince W before handed entries) {entry : Entry} {x : Handed} (hx : Accounts W entry x) :
    HandedSince W before (handed ++ [x]) (entries ++ [entry]) := by
  obtain ⟨new, rfl, hnew⟩ := h
  exact ⟨new ++ [entry], List.append_assoc _ _ _, List.rel_append hnew (.cons hx .nil)⟩

theorem HandedSince.length {W : ProtocolWriter} {before entries : List Entry} {handed : List Handed}
    (h : HandedSince W before handed entries) : entries.length = before.length + handed.length := by
  obtain ⟨new, rfl, hnew⟩ := h
  rw [List.length_append, hnew.length_eq]

/-- The fields of the own level, one after the other. -/
theorem AppliesOnce.handles_fields (h : AppliesOnce P C uses nested bound) (hP : P.Plain)
    (hC : C.schemaDef.Grounded) {levels : List Fields} (hi : LevelsOf S i levels) {fs : Fields}
    (hfs : (i, fs) ∈ (S.levels i).zip levels) (hlt : (encodeFields P.writer fs).length ≤ bound)
    {before : List Entry}
    (hsafe : uses.SafeRun C path before.length (fs.map (handedField S time i))) :
    ∃ entries, Handles P.writer (handing P.reader debug C uses nested path S time) before
        (fieldEvents time (S.structs i).fields fs) entries ∧
      HandedSince P.writer before (fs.map (handedField S time i)) entries := by
  refine (handing_takesFields P.reader path S time).exists_handles_fields (S.structs i).increasing
    (hi.increasing fs (List.of_mem_zip hfs).2)
    (fun done entries => HandedSince P.writer before (done.map (handedField S time i)) entries) ?_
    (.nil P.writer before)
  intro p done todo hsplit entries hentries
  have hp : p ∈ fs := by
    rw [hsplit]
    simp
  have hplace := hentries.length
  rw [List.length_map] at hplace
  have hfield := encodeField_length_le P.writer hp
  have hpos := P.writer.fieldBegin_pos p.2.typeId p.1
  rw [encodeField, List.length_append] at hfield
  have huse := hsafe done.length (handedField S time i p) (by rw [hsplit]; simp)
  rw [← hplace] at huse
  obtain ⟨entry, hrun, haccounts⟩ := h.runsTo_field hP hC hi hfs hp (by omega) huse
  refine ⟨entries ++ [entry], hrun, ?_⟩
  rw [List.map_append]
  exact hentries.append haccounts

/-- The handle that comes with an event behind the own level. -/
def handedEvent : Event n → List Handed
  | .unknownField id v => [handedUnknown (id, v)]
  | _ => []

theorem flatMap_handedEvent (rest : List Fields) :
    (levelEvents rest : List (Event n)).flatMap handedEvent = rest.flatten.map handedUnknown := by
  have hlevel (fs : Fields) :
      (unknownEvents fs : List (Event n)).flatMap handedEvent = fs.map handedUnknown := by
    induction fs with
    | nil => rfl
    | cons p fs ih =>
        rw [unknownEvents] at ih
        rw [unknownEvents, List.map_cons, List.flatMap_cons, ih]
        rfl
  induction rest with
  | nil => rfl
  | cons fs rest ih =>
      rw [levelEvents] at ih
      rw [levelEvents, List.flatMap_cons, List.cons_append, List.flatMap_cons, List.flatMap_append,
        ih, hlevel, List.flatten_cons, List.map_append]
      rfl

theorem mem_levelEvents {rest : List Fields} {e : Event n} (h : e ∈ levelEvents rest) :
    e = .unknownEnd ∨ ∃ fs ∈ rest, ∃ p ∈ fs, e = .unknownField p.1 p.2 := by
  obtain ⟨fs, hfs, he⟩ := List.mem_flatMap.1 h
  rcases List.mem_cons.1 he with rfl | he
  · exact .inl rfl
  · obtain ⟨p, hp, rfl⟩ := List.mem_map.1 he
    exact .inr ⟨fs, hfs, p, hp, rfl⟩

/-- The fields of the levels that the schema does not have, one after the other. -/
theorem AppliesOnce.handles_rest (h : AppliesOnce P C uses nested bound) (hP : P.Plain)
    (hC : C.schemaDef.Grounded) {rest : List Fields}
    (hwf : ∀ fs ∈ rest, ∀ f ∈ fs, f.2.wellFormed = true ∧ f.2.Ordered)
    (hlt : (encodeLevels P.writer rest).length ≤ bound) {before : List Entry}
    (hsafe : uses.SafeRun C path before.length (rest.flatten.map handedUnknown)) :
    ∃ entries, Handles P.writer (handing P.reader debug C uses nested path S time) before
        (levelEvents rest) entries ∧
      HandedSince P.writer before (rest.flatten.map handedUnknown) entries := by
  rw [← flatMap_handedEvent (n := n)] at hsafe ⊢
  refine Handles.exists_of_step
    (fun done entries => HandedSince P.writer before (done.flatMap handedEvent) entries) ?_
    (.nil P.writer before)
  intro e done todo hsplit entries hentries
  have he : e ∈ levelEvents rest := by
    rw [hsplit]
    simp
  have hplace := hentries.length
  rcases mem_levelEvents he with rfl | ⟨fs, hfs, p, hp, rfl⟩
  · have hnone : handedEvent (.unknownEnd : Event n) = [] := rfl
    refine ⟨entries, RunsTo.pure () entries, ?_⟩
    rwa [List.flatMap_append, List.flatMap_singleton, hnone, List.append_nil]
  · have hfield := encodeField_length_le P.writer hp
    have hpos := P.writer.fieldBegin_pos p.2.typeId p.1
    have hlevel : (encodeFields P.writer fs).length ≤ (encodeLevels P.writer rest).length := by
      clear hsafe hsplit he hlt hwf
      induction rest with
      | nil => cases hfs
      | cons gs rest ih =>
          rw [encodeLevels, List.length_append, List.length_append]
          rcases List.mem_cons.1 hfs with rfl | hfs
          · omega
          · have hle := ih hfs
            omega
    rw [encodeField, List.length_append] at hfield
    have huse := hsafe (done.flatMap handedEvent).length (handedUnknown p) (by
      rw [hsplit, List.flatMap_append, List.flatMap_cons]
      simp [handedEvent])
    rw [← hplace] at huse
    obtain ⟨entry, hrun, haccounts⟩ := h.runsTo_unknown hP hC (hwf fs hfs p hp) (by omega) huse
    refine ⟨entries ++ [entry], ?_, ?_⟩
    · rw [Transform.on, unknownField, if_pos p.2.typeId_isValue]
      exact hrun
    · rw [List.flatMap_append, List.flatMap_singleton]
      exact hentries.append haccounts

/-- The handle of the base, if there is one. -/
theorem AppliesOnce.runsTo_base (h : AppliesOnce P C uses nested bound) (hP : P.Plain)
    (hC : C.schemaDef.Grounded) {front : List Fields} {fs : Fields} {rest : List Fields}
    (hi : LevelsOf S i (front ++ fs :: rest)) (hlength : (S.levels i).length = front.length + 1)
    (hlt : (encodeFirst P.writer front.length (front ++ fs :: rest)).length < bound)
    (hsafe : uses.SafeRun C path 0 (handedBase S time i (front ++ fs :: rest))) :
    ∃ entries, RunsTo (match (S.structs i).baseDef with
        | none => pure false
        | some j => (handing P.reader debug C uses nested path S time).base j) []
        (encodeFirst P.writer front.length (front ++ fs :: rest)) false entries ∧
      List.Forall₂ (Accounts P.writer) entries (handedBase S time i (front ++ fs :: rest)) := by
  unfold handedBase at hsafe ⊢
  cases hbase : (S.structs i).baseDef with
  | none =>
      rw [SchemaDef.levels_root hi.grounded hbase] at hlength
      obtain rfl := List.length_eq_zero_iff.1 (Nat.succ.inj hlength).symm
      exact ⟨[], RunsTo.pure false [], .nil⟩
  | some j =>
      rw [hbase] at hsafe
      have heq := SchemaDef.levels_base hi.grounded hbase
      have hj := hi.base hbase
      have hfront : (S.levels j).length = front.length := by
        rw [heq, List.length_append, List.length_singleton] at hlength
        omega
      have huse := hsafe 0 _ rfl
      cases huse with
      | base hsafe happly =>
      obtain ⟨entries, hread, haccounts⟩ : ∃ entries,
          Decodes (settle (nothrow (P.reader.skip .struct)) (useBonded P.reader debug C S time true j
            (nested n S time true j (0 :: path)) (uses.bonded (0 :: path)))) _ (pure entries) ∧ _ :=
        decodes_useBase hP hC hj hsafe fun huse => h n S time true j _ (front ++ fs :: rest) 0 hj
          (safeRun_of_apply (happly huse)) (by rwa [levelsRead, if_pos rfl, hfront])
      rw [hfront] at hread haccounts
      refine ⟨[] ++ [.mk _ entries], ?_, .cons haccounts .nil⟩
      have hhand : RunsTo (hand (P.reader.skip .struct) path fun place =>
          useBonded P.reader debug C S time true j (nested n S time true j place) (uses.bonded place)) []
            _ () _ :=
        runsTo_hand hread
      exact hhand.bind_nil (RunsTo.pure false _)

/-- One more application around those that do what they should. -/
theorem AppliesOnce.step (h : AppliesOnce P C uses nested bound) (hP : P.Plain)
    (hC : C.schemaDef.Grounded) :
    AppliesOnce P C uses (fun _ S time base i path => do
        let (_, entries) ←
          (applyParser P.reader (handing P.reader debug C uses nested path S time) S time base i).run []
        return entries) (bound + 1) := by
  intro n S time base i path levels length hi hsafe hlt
  obtain ⟨is, hhierarchy, -⟩ := hi.grounded i
  obtain ⟨front, fs, rest, rfl, hlength, hfs⟩ := hi.split
  have hdepth := hhierarchy.schemaDepth
  rw [hlength, levelsRead_succ, List.length_append, levelPayload, List.length_append,
    List.length_append, stopBytes_length] at hlt
  rw [handedBy_eq time base hlength] at hsafe ⊢
  obtain ⟨hsafe, hsafe₃⟩ := Uses.safeRun_append hsafe
  obtain ⟨hsafe₁, hsafe₂⟩ := Uses.safeRun_append hsafe
  rw [Nat.zero_add] at hsafe₂ hsafe₃
  -- the base, the own level, and what is behind it are handed one after the other
  obtain ⟨entries₁, hbase, haccounts₁⟩ :
      ∃ entries, RunsTo (match (S.structs i).baseDef with
        | none => pure false
        | some j => (handing P.reader debug C uses nested path S time).base j) [] _ false entries ∧ _ :=
    h.runsTo_base hP hC hi hlength (by omega) hsafe₁
  rw [← haccounts₁.length_eq] at hsafe₂
  obtain ⟨entries₂, hfields, new₂, rfl, haccounts₂⟩ :
      ∃ entries, Handles P.writer (handing P.reader debug C uses nested path S time) entries₁
        (fieldEvents time (S.structs i).fields fs) entries ∧ _ :=
    h.handles_fields hP hC hi hfs (by omega) hsafe₂
  have hlength₂ : (handedBase S time i (front ++ fs :: rest) ++
      fs.map (handedField S time i)).length = (entries₁ ++ new₂).length := by
    rw [List.length_append, List.length_append, haccounts₁.length_eq, haccounts₂.length_eq]
  rw [hlength₂] at hsafe₃
  obtain ⟨entries₃, hrest, new₃, rfl, haccounts₃⟩ :
      ∃ entries, Handles P.writer (handing P.reader debug C uses nested path S time) (entries₁ ++ new₂)
        (restEvents base rest) entries ∧
        HandedSince P.writer (entries₁ ++ new₂)
          (if base then [] else rest.flatten.map handedUnknown) entries := by
    cases base with
    | true => exact ⟨entries₁ ++ new₂, .nil _, .nil _ _⟩
    | false =>
        rw [if_neg Bool.false_ne_true] at hlt
        exact h.handles_rest hP hC (fun fs' hfs' => hi.wellFormed fs' (by simp [hfs'])) (by omega) hsafe₃
  have hnot (depth : UInt16) :
      ¬ depth > (handing P.reader debug C uses nested path S time).expectedDepth :=
    not_depth_gt_max depth
  have hread := Cpp.runsTo_readSchema (Fin.pos i) hdepth (hnot _)
    (RunsTo.pure () ([] : List Entry)) hbase
    (runsTo_readFields P time base (S.structs i).fields fs rest (hfields.append hrest))
    (RunsTo.pure () _)
  rw [← levelsRead_succ, ← hlength] at hread
  refine ⟨_, ?_, List.rel_append (List.rel_append haccounts₁ haccounts₂) haccounts₃⟩
  have hstart : Decodes (P.reader.readStructBegin base) (startBytes P.writer base length)
      (pure ()) := by
    cases base with
    | true => exact P.decodes_structBegin_base
    | false => exact P.decodes_structBegin length
  have happly : RunsTo (applyParser P.reader (handing P.reader debug C uses nested path S time) S time
      base i) [] _ _ _ :=
    (RunsTo.lift hstart ([] : List Entry)).bind hread
  exact Decodes.bind_return happly fun result => result.2

theorem appliesOnce_applyHanding (hP : P.Plain) (hC : C.schemaDef.Grounded) (fuel : Nat) :
    AppliesOnce P C uses (applyHanding P.reader debug C uses fuel) fuel := by
  induction fuel with
  | zero =>
      intro n S time base i path levels length _ _ hlt
      exact absurd hlt (Nat.not_lt_zero _)
  | succ fuel ih => exact ih.step hP hC

/-- In a run in which the transform does nothing unsafe, the transform is handed what there is in the
    payload, each handle moves the reader over its value, and the parser ends right behind the payload. -/
theorem parseHanding_advances (hP : P.Plain) (hC : C.schemaDef.Grounded) {s : StructValue}
    (hs : FieldOf S (.struct i false) (.struct s))
    (hsafe : uses.SafeRun C [] 0 (handedBy S time false i s.levels)) {b : InputBuffer}
    {rest : List UInt8} (hb : remaining b = (Value.struct s).encode P.writer ++ rest) :
    ∃ entries,
      (parseHanding P.reader debug C uses S time i).run b =
          .ok (entries, advance b ((Value.struct s).encode P.writer).length) ∧
        List.Forall₂ (Accounts P.writer) entries (handedBy S time false i s.levels) := by
  have hle : ((Value.struct s).encode P.writer).length ≤ b.remaining.length := by
    rw [show b.remaining = _ from hb, List.length_append]
    omega
  have hlevels : (levelsRead P.writer false (S.levels i).length s.levels).length <
      b.remaining.length + 1 := by
    rw [encode_struct, List.length_append] at hle
    rw [levelsRead_false]
    omega
  obtain ⟨entries, hread, haccounts⟩ := appliesOnce_applyHanding hP hC (b.remaining.length + 1) n S
    time false i [] s.levels (UInt32.ofNat (s.encodeBody P.writer ++ stopBytes false).length)
    hs.levelsOf hsafe hlevels
  rw [levelsRead_false] at hread
  refine ⟨entries, ?_, haccounts⟩
  have hlength : (startBytes P.writer false
      (UInt32.ofNat (s.encodeBody P.writer ++ stopBytes false).length) ++
        (s.encodeBody P.writer ++ stopBytes false)) = (Value.struct s).encode P.writer := by
    rw [encode_struct]
    rfl
  rw [hlength] at hread
  have hleft {α : Type} (f : Nat → Reader α) :
      (InputBuffer.remainingLength >>= f).run b = (f b.remaining.length).run b :=
    rfl
  rw [parseHanding, hleft, hread b rest hb, pure_bind]
  rfl

end

end Bond.Cpp

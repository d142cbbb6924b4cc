import Bond.Cpp.ParserEvents
import Mathlib.Data.Fintype.Card

set_option autoImplicit false

/-! # Hierarchies of a schema and of a payload

`ParserInheritance` parses a struct level by level: the base first, through the transform, and then the
fields of the struct itself. -/

namespace Bond.Cpp

open Decoder

variable {n : Nat}

/-! ## The structs of a hierarchy -/

/-- The structs from the root of a hierarchy down to a given one. -/
inductive SchemaDef.Hierarchy (S : SchemaDef n) : Fin n → List (Fin n) → Prop
  | root {i} (h : (S.structs i).baseDef = none) : Hierarchy S i [i]
  | derived {i j js} (h : (S.structs i).baseDef = some j) (hj : Hierarchy S j js) :
      Hierarchy S i (js ++ [i])

namespace SchemaDef.Hierarchy

variable {S : SchemaDef n} {i : Fin n} {is : List (Fin n)}

theorem unique {js : List (Fin n)} (h : S.Hierarchy i is) (h' : S.Hierarchy i js) : is = js := by
  induction h generalizing js with
  | root h =>
      cases h' with
      | root h' => rfl
      | derived h' _ =>
          rw [h] at h'
          cases h'
  | derived h _ ih =>
      cases h' with
      | root h' =>
          rw [h] at h'
          cases h'
      | derived h' hj =>
          obtain rfl := Option.some.inj (h.symm.trans h')
          rw [ih hj]

/-- Each struct of a hierarchy has a hierarchy of its own that is no longer. -/
theorem of_mem {j : Fin n} (h : S.Hierarchy i is) (hj : j ∈ is) :
    ∃ js, S.Hierarchy j js ∧ js.length ≤ is.length := by
  induction h with
  | root h =>
      obtain rfl := List.mem_singleton.1 hj
      exact ⟨_, .root h, Nat.le_refl _⟩
  | derived h hbase ih =>
      rcases List.mem_append.1 hj with hj | hj
      · obtain ⟨js, hjs, hle⟩ := ih hj
        exact ⟨js, hjs, by rw [List.length_append]; omega⟩
      · obtain rfl := List.mem_singleton.1 hj
        exact ⟨_, .derived h hbase, Nat.le_refl _⟩

theorem nodup (h : S.Hierarchy i is) : is.Nodup := by
  induction h with
  | root _ => exact List.nodup_singleton _
  | derived h hbase ih =>
      -- a struct among its own bases would have two hierarchies of different length
      refine List.Nodup.append ih (List.nodup_singleton _) fun j hj hi => ?_
      obtain rfl := List.mem_singleton.1 hi
      obtain ⟨js, hjs, hle⟩ := hbase.of_mem hj
      have heq := congrArg List.length (hjs.unique (.derived h hbase))
      rw [List.length_append, List.length_singleton] at heq
      omega

theorem length_le (h : S.Hierarchy i is) : is.length ≤ n := by
  have hle := h.nodup.length_le_card
  rwa [Fintype.card_fin] at hle

theorem length_pos (h : S.Hierarchy i is) : 0 < is.length := by
  cases h <;> simp

theorem depthWithin {k : Nat} (h : S.Hierarchy i is) (hk : is.length ≤ k) :
    S.depthWithin k i = some is.length := by
  induction h generalizing k with
  | root h =>
      obtain ⟨k, rfl⟩ : ∃ k', k = k' + 1 := ⟨k - 1, by simp at hk; omega⟩
      rw [SchemaDef.depthWithin, h]
      rfl
  | derived h _ ih =>
      rw [List.length_append, List.length_singleton] at hk
      obtain ⟨k, rfl⟩ : ∃ k', k = k' + 1 := ⟨k - 1, by omega⟩
      rw [SchemaDef.depthWithin, h]
      simp [ih (by omega : _ ≤ k), Nat.add_comm]

theorem schemaDepth (h : S.Hierarchy i is) : S.schemaDepth i = some (UInt16.ofNat is.length) := by
  rw [SchemaDef.schemaDepth, hierarchyDepth, h.depthWithin h.length_le, Option.map_some]

end SchemaDef.Hierarchy

/-- A struct whose hierarchy has a depth has a hierarchy. -/
theorem SchemaDef.exists_hierarchy {S : SchemaDef n} {k : Nat} {i : Fin n} {d : Nat}
    (h : S.depthWithin k i = some d) : ∃ is, S.Hierarchy i is ∧ is.length = d := by
  induction k generalizing i d with
  | zero => cases h
  | succ k ih =>
      rw [depthWithin] at h
      cases hbase : (S.structs i).baseDef with
      | none =>
          rw [hbase] at h
          exact ⟨[i], .root hbase, Option.some.inj h⟩
      | some j =>
          rw [hbase] at h
          obtain ⟨e, he, rfl⟩ := Option.map_eq_some_iff.1 h
          obtain ⟨js, hjs, rfl⟩ := ih he
          exact ⟨js ++ [i], .derived hbase hjs, by simp [Nat.add_comm]⟩

/-! ## One level of a schema -/

/-- A transform that expects `0xffff` levels expects them all. -/
theorem not_depth_gt_max (depth : UInt16) : ¬ depth > 0xffff :=
  UInt16.not_lt.2 (UInt16.le_iff_toNat_le.2 (Nat.le_of_lt_succ (UInt16.toNat_lt _)))

section

variable {τ : Type} {P : TaggedProtocol} {transform : Transform n τ} {S : SchemaDef n}
  {t t₁ t₂ t₃ t₄ : τ} {enc enc' : List UInt8}

/-- A struct without a base. -/
theorem runsTo_base_none {baseDef : Option (Fin n)} (h : baseDef = none)
    (read : Fin n → StateT τ Reader Bool) (t : τ) :
    RunsTo (match baseDef with
      | none => pure false
      | some j => read j) t ([] : List UInt8) false t := by
  rw [h]
  exact RunsTo.pure false t

theorem runsTo_base_some {baseDef : Option (Fin n)} {j : Fin n} {done : Bool}
    (h : baseDef = some j) (read : Fin n → StateT τ Reader Bool)
    (hread : RunsTo (read j) t₁ enc done t₂) :
    RunsTo (match baseDef with
      | none => pure false
      | some j => read j) t₁ enc done t₂ := by
  rw [h]
  exact hread

/-- `ParserInheritance::Read` at an expected level: the base, and then the fields if the struct did
    not end with it. -/
theorem runsTo_readSchema {time : SchemaTime} {base : Bool} {k : Nat} {i : Fin n} {depth : UInt16}
    {done done' : Bool} (hk : 0 < k) (hdepth : S.schemaDepth i = some depth)
    (hle : ¬ depth > transform.expectedDepth)
    (hbegin : RunsTo (transform.begin_ (S.structs i).metadata) t [] () t₁)
    (hbase : RunsTo (match (S.structs i).baseDef with
      | none => pure false
      | some j => transform.base j) t₁ enc done t₂)
    (hfields : RunsTo (if done then pure true
      else readFields P.reader transform time base (S.structs i).fields) t₂ enc' done' t₃)
    (hend : RunsTo transform.end_ t₃ [] () t₄) :
    RunsTo (readSchema P.reader transform S time base k i) t (enc ++ enc') done' t₄ := by
  obtain ⟨k, rfl⟩ : ∃ k', k = k' + 1 := ⟨k - 1, by omega⟩
  have htail : RunsTo (transform.end_ >>= fun _ => pure done') t₃ [] done' t₄ :=
    hend.bind_nil (RunsTo.pure done' t₄)
  rw [readSchema, hdepth]
  cases hdef : (S.structs i).baseDef with
  | none =>
      rw [hdef] at hbase
      simp only [if_neg hle]
      refine RunsTo.nil_bind hbegin (hbase.bind ?_)
      cases done <;> exact hfields.bind_nil htail
  | some j =>
      rw [hdef] at hbase
      simp only [if_neg hle]
      refine RunsTo.nil_bind hbegin (hbase.bind ?_)
      cases done <;> exact hfields.bind_nil htail

end

/-! ## Levels of a payload -/

/-- The first `d` levels of a struct, or all if there are fewer. -/
def encodeFirst (W : ProtocolWriter) : Nat → List Fields → List UInt8
  | 0, _ => []
  | _, [] => []
  | d + 1, fs :: levels =>
      encodeFields W fs ++ stopBytes (!levels.isEmpty) ++ encodeFirst W d levels

-- the equations are derived here, once for the lemmas below
attribute [local grind =] encodeFirst encodeLevels StructValue.encodeBody StructValue.levels

theorem encodeFirst_all (W : ProtocolWriter) {d : Nat} {levels : List Fields}
    (h : levels.length ≤ d) : encodeFirst W d levels = encodeLevels W levels := by
  induction levels generalizing d with
  | nil => cases d <;> rfl
  | cons fs levels ih =>
      obtain ⟨d, rfl⟩ : ∃ d', d = d' + 1 := ⟨d - 1, by simp at h; omega⟩
      rw [encodeFirst, encodeLevels, ih (by simpa using h)]

/-- The levels in front of a level, and what is from there on. -/
theorem encodeLevels_append (W : ProtocolWriter) (front : List Fields) (fs : Fields)
    (levels : List Fields) :
    encodeLevels W (front ++ fs :: levels) =
      encodeFirst W front.length (front ++ fs :: levels) ++ encodeLevels W (fs :: levels) := by
  induction front with
  | nil => rfl
  | cons g front ih =>
      rw [List.cons_append, encodeLevels, ih, List.length_cons, encodeFirst]
      simp only [List.append_assoc]

theorem encodeFirst_succ (W : ProtocolWriter) (front : List Fields) (fs : Fields)
    (levels : List Fields) :
    encodeFirst W (front.length + 1) (front ++ fs :: levels) =
      encodeFirst W front.length (front ++ fs :: levels) ++
        (encodeFields W fs ++ stopBytes (!levels.isEmpty)) := by
  induction front with
  | nil => simp [encodeFirst]
  | cons g front ih =>
      rw [List.cons_append, List.length_cons, encodeFirst, ih, encodeFirst]
      simp only [List.append_assoc]

theorem encodeLevels_bases (W : ProtocolWriter) (s : StructValue) (fs : Fields)
    (levels : List Fields) :
    encodeLevels W (s.levels ++ fs :: levels) =
      s.encodeBody W ++ stopBytes true ++ encodeLevels W (fs :: levels) := by
  induction s generalizing fs levels with
  | root fields => rfl
  | derived base fields ih =>
      rw [StructValue.levels, List.append_assoc, List.singleton_append, ih, encodeLevels,
        StructValue.encodeBody]
      simp only [List.isEmpty_cons, Bool.not_false, List.append_assoc]

theorem encodeLevels_levels (W : ProtocolWriter) (s : StructValue) :
    encodeLevels W s.levels = s.encodeBody W ++ stopBytes false := by
  cases s with
  | root fields => simp [StructValue.levels, encodeLevels, StructValue.encodeBody]
  | derived base fields =>
      rw [StructValue.levels, encodeLevels_bases, StructValue.encodeBody]
      simp [encodeLevels]

/-- A list of levels, split behind the first `d`. -/
theorem exists_split {levels : List Fields} {d : Nat} (h : d < levels.length) :
    ∃ front fs rest, levels = front ++ fs :: rest ∧ front.length = d := by
  refine ⟨levels.take d, levels[d], levels.drop (d + 1), ?_, List.length_take_of_le (by omega)⟩
  rw [List.cons_getElem_drop_succ, List.take_append_drop]

/-- What a parser for `d` levels of a schema reads of a struct. -/
def levelsRead (W : ProtocolWriter) (base : Bool) (d : Nat) (levels : List Fields) : List UInt8 :=
  if base then encodeFirst W d levels else encodeLevels W levels

/-- What it returns: whether the struct ended at a level that was parsed as a base. -/
def levelsDone (base : Bool) (d : Nat) (levels : List Fields) : Bool :=
  if base then levels.length ≤ d else levels.length < d

/-- The last of `d + 1` levels of a schema, if the payload has this level. -/
theorem levelsRead_succ (W : ProtocolWriter) (base : Bool) (front : List Fields) (fs : Fields)
    (rest : List Fields) :
    levelsRead W base (front.length + 1) (front ++ fs :: rest) =
      encodeFirst W front.length (front ++ fs :: rest) ++ levelPayload W base fs rest := by
  cases base with
  | true => simp [levelsRead, levelPayload, encodeFirst_succ]
  | false => simp [levelsRead, levelPayload, encodeLevels_append, encodeLevels]

theorem levelsDone_succ (base : Bool) (front : List Fields) (fs : Fields) (rest : List Fields) :
    levelsDone base (front.length + 1) (front ++ fs :: rest) = (base && rest.isEmpty) := by
  cases base <;> cases rest <;> simp [levelsDone]

/-- The last of `d + 1` levels of a schema, if the payload ends before. -/
theorem levelsRead_of_le (W : ProtocolWriter) (base : Bool) {d : Nat} {levels : List Fields}
    (h : levels.length ≤ d) : levelsRead W base (d + 1) levels = encodeFirst W d levels := by
  cases base with
  | true =>
      rw [levelsRead, if_pos rfl, encodeFirst_all W h, encodeFirst_all W (Nat.le_succ_of_le h)]
  | false => rw [levelsRead, encodeFirst_all W h]; rfl

theorem levelsDone_of_le (base : Bool) {d : Nat} {levels : List Fields}
    (h : levels.length ≤ d) : levelsDone base (d + 1) levels = true := by
  cases base <;> simp [levelsDone] <;> omega

end Bond.Cpp

import Bond.Cpp.ParserHierarchy
import Bond.Cpp.ParserReports

set_option autoImplicit false

/-! # Parsing down a hierarchy

A transform whose `Base` applies the same transform to the base of a struct is handed the levels of
the struct one after the other. `Descends` is what such a family of transforms has to do for each
call; from it follows what a parser with this transform does on a whole struct. -/

namespace Bond.Cpp

open Decoder

variable {n : Nat}

/-! ## The events of a struct -/

/-- The events on the levels that both the schema and the payload have. -/
def hierarchyEvents (S : SchemaDef n) (time : SchemaTime) (is : List (Fin n))
    (levels : List Fields) : List (Event n) :=
  (is.zip levels).flatMap fun p => fieldEvents time (S.structs p.1).fields p.2

/-- The level of the payload that belongs to the last level of the schema. -/
theorem zip_append_cons {α β : Type} {xs : List α} {ys : List β} (x : α) (y : β) (rest : List β)
    (h : xs.length = ys.length) :
    (xs ++ [x]).zip (ys ++ y :: rest) = xs.zip (ys ++ y :: rest) ++ [(x, y)] := by
  induction xs generalizing ys with
  | nil =>
      obtain rfl := List.length_eq_zero_iff.1 h.symm
      rfl
  | cons a xs ih =>
      cases ys with
      | nil => cases h
      | cons b ys =>
          have htail := ih (Nat.succ.inj h)
          simp only [List.cons_append, List.zip_cons_cons, htail]

theorem zip_append_of_le {α β : Type} {xs : List α} {ys : List β} (x : α)
    (h : ys.length ≤ xs.length) : (xs ++ [x]).zip ys = xs.zip ys := by
  induction xs generalizing ys with
  | nil =>
      obtain rfl := List.length_eq_zero_iff.1 (Nat.le_zero.1 h)
      rfl
  | cons a xs ih =>
      cases ys with
      | nil => rfl
      | cons b ys =>
          have htail := ih (Nat.le_of_succ_le_succ h)
          simp only [List.cons_append, List.zip_cons_cons, htail]

theorem hierarchyEvents_root (S : SchemaDef n) (time : SchemaTime) (i : Fin n) (fs : Fields)
    (rest : List Fields) :
    hierarchyEvents S time [i] (fs :: rest) = fieldEvents time (S.structs i).fields fs := by
  simp [hierarchyEvents]

theorem hierarchyEvents_append (S : SchemaDef n) (time : SchemaTime) {js : List (Fin n)}
    (i : Fin n) {front : List Fields} (fs : Fields) (rest : List Fields)
    (h : js.length = front.length) :
    hierarchyEvents S time (js ++ [i]) (front ++ fs :: rest) =
      hierarchyEvents S time js (front ++ fs :: rest) ++
        fieldEvents time (S.structs i).fields fs := by
  rw [hierarchyEvents, zip_append_cons i fs rest h, List.flatMap_append]
  simp [hierarchyEvents]

theorem hierarchyEvents_of_le (S : SchemaDef n) (time : SchemaTime) {js : List (Fin n)}
    (i : Fin n) {levels : List Fields} (h : levels.length ≤ js.length) :
    hierarchyEvents S time (js ++ [i]) levels = hierarchyEvents S time js levels := by
  rw [hierarchyEvents, zip_append_of_le i h, hierarchyEvents]

/-! ## Families of transforms -/

section

variable {τ : Type} (P : TaggedProtocol) (S : SchemaDef n) (time : SchemaTime)

/-- A family of transforms, indexed by the number of bases it can descend to. `after t es` is the
    state that the events `es` lead to from `t`. -/
structure Descends (transform : Nat → Transform n τ) (after : τ → List (Event n) → τ) : Prop where
  expectedDepth (k : Nat) : (transform k).expectedDepth = 0xffff
  begin_ (k : Nat) (metadata : Metadata) (t : τ) :
    RunsTo ((transform k).begin_ metadata) t [] () t
  end_ (k : Nat) (t : τ) : RunsTo (transform k).end_ t [] () t
  base (k : Nat) (j : Fin n) :
    (transform (k + 1)).base j = applyParser P.reader (transform k) S time true j
  handles (k : Nat) (es : List (Event n)) (t : τ) (h : ∀ e ∈ es, e.Fits) :
    Handles P.writer (transform k) t es (after t es)
  after_append (t : τ) (es es' : List (Event n)) : after (after t es) es' = after t (es ++ es')

namespace Descends

variable {P S time} {transform : Nat → Transform n τ} {after : τ → List (Event n) → τ}

theorem not_depth_gt (D : Descends P S time transform after) (k : Nat) (depth : UInt16) :
    ¬ depth > (transform k).expectedDepth := by
  rw [D.expectedDepth]
  exact not_depth_gt_max depth

/-- The fields of one level. -/
theorem runsTo_fields (D : Descends P S time transform after) (k : Nat) (base : Bool)
    (fields : List (FieldDef n)) {fs : Fields} {rest : List Fields} (hfs : PayloadIncreasing fs)
    (hwf : ∀ fs' ∈ fs :: rest, wellFormedFields fs' = true) (t : τ) :
    RunsTo (readFields P.reader (transform k) time base fields) t
      (levelPayload P.writer base fs rest) (base && rest.isEmpty)
      (after t (fieldEvents time fields fs ++ restEvents base rest)) :=
  runsTo_readFields P time base fields fs rest
    (D.handles k _ t (level_fits time base fields hfs hwf))

/-- A struct, level by level. -/
theorem runsTo_readSchema (D : Descends P S time transform after) {i : Fin n} {is : List (Fin n)}
    (h : S.Hierarchy i is) {k : Nat} (hk : is.length ≤ k + 1) (base : Bool) {levels : List Fields}
    (hne : levels ≠ []) (hfs : ∀ fs ∈ levels, PayloadIncreasing fs)
    (hwf : ∀ fs ∈ levels, wellFormedFields fs = true) (t : τ) :
    RunsTo (readSchema P.reader (transform k) S time base n i) t
      (levelsRead P.writer base is.length levels) (levelsDone base is.length levels)
      (after t (hierarchyEvents S time is levels ++ restEvents base (levels.drop is.length))) := by
  have hpos : 0 < n := i.pos
  have hschema := h.schemaDepth
  induction h generalizing k base t with
  | @root i hnone =>
      obtain ⟨fs, rest, rfl⟩ := List.exists_cons_of_ne_nil hne
      have hbase := runsTo_base_none hnone (transform k).base t
      have hfields := D.runsTo_fields k base (S.structs i).fields (hfs fs List.mem_cons_self) hwf t
      have hread := Cpp.runsTo_readSchema hpos hschema (D.not_depth_gt k _) (D.begin_ k _ t) hbase
        hfields (D.end_ k _)
      have henc := levelsRead_succ P.writer base [] fs rest
      have hdone := levelsDone_succ base [] fs rest
      rw [List.length_nil, Nat.zero_add, List.nil_append] at henc hdone
      rw [hierarchyEvents_root, List.length_singleton, henc, hdone, encodeFirst]
      exact hread
  | @derived i j js hsome hj ih =>
      rw [List.length_append, List.length_singleton] at hk hschema ⊢
      obtain ⟨k, rfl⟩ : ∃ k', k = k' + 1 := ⟨k - 1, by have hlt := hj.length_pos; omega⟩
      have hstart := RunsTo.lift P.decodes_structBegin_base t
      have hread : RunsTo ((transform (k + 1)).base j) t
          (encodeFirst P.writer js.length levels) (decide (levels.length ≤ js.length))
          (after t (hierarchyEvents S time js levels ++ [])) := by
        rw [D.base]
        exact hstart.nil_bind (ih (by omega) true t hj.schemaDepth)
      have hbase := runsTo_base_some hsome (transform (k + 1)).base hread
      rw [List.append_nil] at hbase
      by_cases hle : levels.length ≤ js.length
      · -- the struct ends within its base
        rw [decide_eq_true hle] at hbase
        have hnone : RunsTo (if true then pure true
            else readFields P.reader (transform (k + 1)) time base (S.structs i).fields)
            (after t (hierarchyEvents S time js levels)) [] true
            (after t (hierarchyEvents S time js levels)) :=
          RunsTo.pure true _
        have hread := Cpp.runsTo_readSchema hpos hschema (D.not_depth_gt (k + 1) _)
          (D.begin_ (k + 1) _ t) hbase hnone (D.end_ (k + 1) _)
        rw [levelsRead_of_le P.writer base hle, levelsDone_of_le base hle,
          hierarchyEvents_of_le S time i hle, List.drop_of_length_le (Nat.le_succ_of_le hle),
          restEvents_nil]
        rwa [List.append_nil] at hread ⊢
      · obtain ⟨front, fs, rest, rfl, hfront⟩ := exists_split (Nat.lt_of_not_le hle)
        have hmem {fs' : Fields} (h : fs' ∈ fs :: rest) : fs' ∈ front ++ fs :: rest :=
          List.mem_append_right front h
        rw [decide_eq_false hle] at hbase
        have hfields := D.runsTo_fields (k + 1) base (S.structs i).fields
          (hfs fs (hmem List.mem_cons_self)) (fun fs' h => hwf fs' (hmem h))
          (after t (hierarchyEvents S time js (front ++ fs :: rest)))
        have hread := Cpp.runsTo_readSchema hpos hschema (D.not_depth_gt (k + 1) _)
          (D.begin_ (k + 1) _ t) hbase hfields (D.end_ (k + 1) _)
        have hdrop : (front ++ fs :: rest).drop (front.length + 1) = rest := by simp
        rw [D.after_append] at hread
        rw [← hfront] at hread ⊢
        rw [levelsRead_succ, levelsDone_succ, hdrop,
          hierarchyEvents_append S time i fs rest hfront.symm, List.append_assoc]
        exact hread

/-- A struct that is not a base. -/
theorem runsTo_applyParser (D : Descends P S time transform after) {i : Fin n} {is : List (Fin n)}
    (h : S.Hierarchy i is) {s : StructValue} (hs : ∀ fs ∈ s.levels, PayloadIncreasing fs)
    (hwf : s.wellFormed = true) (t : τ) :
    RunsTo (applyParser P.reader (transform n) S time false i) t
      ((Value.struct s).encode P.writer) (levelsDone false is.length s.levels)
      (after t (hierarchyEvents S time is s.levels ++
        restEvents false (s.levels.drop is.length))) := by
  have hne : s.levels ≠ [] := by
    intro hnil
    have hlength := s.levels_length
    rw [hnil] at hlength
    exact Nat.ne_of_lt s.depth_pos hlength
  have hlevels := D.runsTo_readSchema h (k := n) (Nat.le_succ_of_le h.length_le) false hne hs
    (fun fs hfs => wellFormedFields_iff.2 (StructValue.wellFormed_iff.1 hwf fs hfs)) t
  have hstart := RunsTo.lift (P.decodes_structBegin
    (UInt32.ofNat (s.encodeBody P.writer ++ stopBytes false).length)) t
  have henc : (Value.struct s).encode P.writer =
      outputBytes (P.writer.lengthBegin
        (UInt32.ofNat (s.encodeBody P.writer ++ stopBytes false).length)) ++
      levelsRead P.writer false is.length s.levels := by
    rw [encode_struct, levelsRead, if_neg Bool.false_ne_true, encodeLevels_levels]
  rw [henc]
  exact hstart.bind hlevels

end Descends

end

end Bond.Cpp

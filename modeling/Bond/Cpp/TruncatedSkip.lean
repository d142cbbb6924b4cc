import Bond.Cpp.Truncation
import Bond.Cpp.SimpleBinary

set_option autoImplicit false

/-! # Skipping in inputs that are cut off

Which bytes of a value `Skip` of a binary protocol steps over without looking at them: the values of
fixed size, the code units of strings, and in version 2 of Compact Binary the structs. If the input
ends in front of any other byte then skipping the value throws, as reading it does. If only bytes of
this kind are missing it does not. -/

namespace Bond.Cpp

open Decoder Varint InputBuffer

/-! ## The bytes that are stepped over -/

/-- Which bytes of a basic value are stepped over, and whether structs are. -/
structure SkipMarks where
  basic : BasicValue → List Bool
  byLength : Bool

mutual

/-- For each byte of a value whether it is stepped over. -/
def Value.passed (P : ProtocolWriter) (M : SkipMarks) : Value → List Bool
  | .basic v => M.basic v
  | .list _ element items =>
      unmarked (outputBytes (P.writeContainerBegin (UInt32.ofNat items.length) element))
        ++ itemsPassed P M items
  | .map key element items =>
      unmarked (outputBytes (P.writeContainerBeginPair (UInt32.ofNat items.length) key element))
        ++ pairsPassed P M items
  | .struct s =>
      let body := s.encodeBody P ++ stopBytes false
      unmarked (outputBytes (P.lengthBegin (UInt32.ofNat body.length)))
        ++ if M.byLength then marked body else s.bodyPassed P M ++ [false]
  | .bonded payload => unmarked payload

def itemsPassed (P : ProtocolWriter) (M : SkipMarks) : List Value → List Bool
  | [] => []
  | v :: vs => v.passed P M ++ itemsPassed P M vs

def pairsPassed (P : ProtocolWriter) (M : SkipMarks) : List (Value × Value) → List Bool
  | [] => []
  | (k, v) :: kvs => (k.passed P M ++ v.passed P M) ++ pairsPassed P M kvs

def fieldsPassed (P : ProtocolWriter) (M : SkipMarks) : List (UInt16 × Value) → List Bool
  | [] => []
  | (id, v) :: fs =>
      (unmarked (outputBytes (P.writeFieldBegin v.typeId id)) ++ v.passed P M)
        ++ fieldsPassed P M fs

def StructValue.bodyPassed (P : ProtocolWriter) (M : SkipMarks) : StructValue → List Bool
  | .root fields => fieldsPassed P M fields
  | .derived base fields => base.bodyPassed P M ++ [false] ++ fieldsPassed P M fields

end

theorem itemsPassed_eq (P : ProtocolWriter) (M : SkipMarks) (vs : List Value) :
    itemsPassed P M vs = vs.flatMap (Value.passed P M) := by
  induction vs with
  | nil => rfl
  | cons v vs ih => rw [itemsPassed, ih, List.flatMap_cons]

theorem pairsPassed_eq (P : ProtocolWriter) (M : SkipMarks) (kvs : List (Value × Value)) :
    pairsPassed P M kvs = kvs.flatMap fun kv => kv.1.passed P M ++ kv.2.passed P M := by
  induction kvs with
  | nil => rfl
  | cons kv kvs ih => rw [pairsPassed, ih, List.flatMap_cons]

/-! ## Loops over fields -/

/-- What a reader of field headers has to do on headers that are cut off. -/
structure ReadsFields (P : ProtocolWriter) (readFieldBegin : Reader (BondDataType × UInt16)) :
    Prop where
  begin_ (n : Nat) (type : BondDataType) (id : UInt16) (h : type.isValue = true) :
    Reads n readFieldBegin (outputBytes (P.writeFieldBegin type id)) (type, id)
  end_ (n : Nat) (base : Bool) :
    Reads n readFieldBegin (stopBytes base) (if base then .stopBase else .stop, 0)

section

variable {β : Type} {P : ProtocolWriter} {readFieldBegin : Reader (BondDataType × UInt16)}
  {onField : UInt16 → BondDataType → Reader β} {g : UInt16 × Value → β}
  {mark : Value → List Bool}

variable (P mark) in
/-- The marks of the fields of a level, given those of the values. -/
def levelMarks (fs : Fields) : List Bool :=
  fs.flatMap fun f => unmarked (outputBytes (P.writeFieldBegin f.2.typeId f.1)) ++ mark f.2

variable (P mark) in
/-- The marks of all levels up to the marker that ends the last one. -/
def bodyMarks : StructValue → List Bool
  | .root fs => levelMarks P mark fs
  | .derived base fs => bodyMarks base ++ [false] ++ levelMarks P mark fs

theorem levelMarks_length {fs : Fields}
    (h : ∀ f ∈ fs, (mark f.2).length = (f.2.encode P).length) :
    (levelMarks P mark fs).length = (encodeFields P fs).length := by
  rw [levelMarks, encodeFields_eq, List.length_flatMap, List.length_flatMap]
  congr 1
  refine List.map_congr_left fun f hf => ?_
  rw [encodeField, List.length_append, List.length_append, unmarked_length, h f hf]

theorem bodyMarks_unmarked (s : StructValue) :
    bodyMarks P (fun v => unmarked (v.encode P)) s = unmarked (s.encodeBody P) := by
  have hlevel (fs : Fields) :
      levelMarks P (fun v => unmarked (v.encode P)) fs = unmarked (encodeFields P fs) := by
    rw [levelMarks, encodeFields_eq, unmarked_flatMap]
    simp only [encodeField, unmarked_append]
  induction s with
  | root fs => exact hlevel fs
  | derived base fs ih =>
      rw [bodyMarks, ih, hlevel, StructValue.encodeBody, unmarked_append, unmarked_append]
      rfl

/-- Every turn of the loop takes a byte at least, so it is not bounded in front of a cut. -/
theorem cut_readFieldsLoop (hP : ReadsFields P readFieldBegin) (fs : Fields) {n : Nat}
    (h : ∀ f ∈ fs, Cut (n - 1) (onField f.1 f.2.typeId) (f.2.encode P) (mark f.2) (g f))
    (base : Bool) {k : Nat} (hk : n ≤ k) :
    Cut n (readFieldsLoop readFieldBegin onField k) (encodeFields P fs ++ stopBytes base)
      (levelMarks P mark fs ++ [false]) (fs.map g, if base then .stopBase else .stop) := by
  induction fs generalizing n k with
  | nil =>
      cases k with
      | zero =>
          obtain rfl : n = 0 := Nat.le_zero.1 hk
          exact .zero (by simp [levelMarks, encodeFields])
      | succ k =>
          have hend := hP.end_ n base
          rw [readFieldsLoop]
          cases base with
          | false =>
              show Cut n _ (stopBytes false ++ []) (unmarked (stopBytes false) ++ []) _
              exact Cut.bind hend (.pure _)
          | true =>
              show Cut n _ (stopBytes true ++ []) (unmarked (stopBytes true) ++ []) _
              exact Cut.bind hend (.pure _)
  | cons f fs ih =>
      have hlength (f' : UInt16 × Value) (hf' : f' ∈ f :: fs) := (h f' hf').length_eq
      cases k with
      | zero =>
          obtain rfl : n = 0 := Nat.le_zero.1 hk
          refine .zero ?_
          rw [List.length_append, List.length_append, levelMarks_length hlength]
          simp
      | succ k =>
          have htype : ¬ (f.2.typeId = .stop ∨ f.2.typeId = .stopBase) := by
            have hvalue := f.2.typeId_isValue
            rintro (hstop | hstop) <;> rw [hstop] at hvalue <;> exact absurd hvalue (by decide)
          have hpos := P.fieldBegin_pos f.2.typeId f.1
          have hhead := (h f List.mem_cons_self).mono
            (show n - (outputBytes (P.writeFieldBegin f.2.typeId f.1)).length ≤ n - 1 by omega)
          rw [readFieldsLoop, encodeFields, levelMarks, List.flatMap_cons, List.append_assoc,
            List.append_assoc, List.append_assoc, List.append_assoc]
          refine Cut.bind (hP.begin_ n f.2.typeId f.1 f.2.typeId_isValue) ?_
          simp only [if_neg htype]
          refine Cut.bind hhead (.bind_return (ih (fun f' hf' => ?_) ?_) fun r => (g f :: r.1, r.2))
          · exact (h f' (List.mem_cons_of_mem f hf')).mono (by omega)
          · omega

/-- A level of a hierarchy in front of further ones. -/
theorem cut_readLevelsLoop_base (hP : ReadsFields P readFieldBegin) (fs : Fields)
    {enc : List UInt8} {passed : List Bool} {levels : List (List β)} {n bound k : Nat}
    (hrest : ∀ n' k, n' ≤ n → n' ≤ k →
      Cut n' (readLevelsLoop readFieldBegin onField bound k) enc passed levels)
    (h : ∀ f ∈ fs, Cut (n - 1) (onField f.1 f.2.typeId) (f.2.encode P) (mark f.2) (g f))
    (hk : n ≤ k) (hbound : n ≤ bound) :
    Cut n (readLevelsLoop readFieldBegin onField bound k)
      (encodeFields P fs ++ stopBytes true ++ enc) (levelMarks P mark fs ++ [false] ++ passed)
      (fs.map g :: levels) := by
  have hlevel := cut_readFieldsLoop hP fs h true hbound
  cases k with
  | zero =>
      obtain rfl : n = 0 := Nat.le_zero.1 hk
      refine .zero ?_
      have hlength := (hrest 0 0 (Nat.le_refl _) (Nat.zero_le _)).length_eq
      rw [List.length_append, hlevel.length_eq, hlength, ← List.length_append]
  | succ k =>
      have hstop : 0 < (encodeFields P fs ++ stopBytes true).length := by simp
      rw [readLevelsLoop]
      refine Cut.bind hlevel ?_
      simp only [if_true, reduceCtorEq, if_false]
      exact .bind_return (hrest _ k (Nat.sub_le _ _) (by omega)) fun levels => fs.map g :: levels

/-- The levels of a hierarchy in front of further ones. -/
theorem cut_readLevelsLoop_bases (hP : ReadsFields P readFieldBegin) (s : StructValue)
    {enc : List UInt8} {passed : List Bool} {levels : List (List β)} {n bound k : Nat}
    (hrest : ∀ n' k, n' ≤ n → n' ≤ k →
      Cut n' (readLevelsLoop readFieldBegin onField bound k) enc passed levels)
    (h : ∀ fs ∈ s.levels, ∀ f ∈ fs,
      Cut (n - 1) (onField f.1 f.2.typeId) (f.2.encode P) (mark f.2) (g f))
    (hk : n ≤ k) (hbound : n ≤ bound) :
    Cut n (readLevelsLoop readFieldBegin onField bound k) (s.encodeBody P ++ stopBytes true ++ enc)
      (bodyMarks P mark s ++ [false] ++ passed) (s.levels.map (List.map g) ++ levels) := by
  induction s generalizing enc passed levels n k with
  | root fs =>
      exact cut_readLevelsLoop_base hP fs hrest (h fs (by simp [StructValue.levels])) hk hbound
  | derived base fs ih =>
      have hbase := ih (n := n) (k := k) (fun n' k' hn hk' =>
          cut_readLevelsLoop_base hP fs (fun n'' k'' hn' => hrest n'' k'' (by omega))
            (fun f hf => (h fs (by simp [StructValue.levels]) f hf).mono (by omega)) hk' (by omega))
        (fun fs' hfs' => h fs' (by simp [StructValue.levels, hfs'])) hk hbound
      rw [StructValue.encodeBody, StructValue.levels, bodyMarks]
      simpa using hbase

theorem cut_readLevelsLoop (hP : ReadsFields P readFieldBegin) (s : StructValue) {n bound k : Nat}
    (h : ∀ fs ∈ s.levels, ∀ f ∈ fs,
      Cut (n - 1) (onField f.1 f.2.typeId) (f.2.encode P) (mark f.2) (g f))
    (hk : n ≤ k) (hbound : n ≤ bound) :
    Cut n (readLevelsLoop readFieldBegin onField bound k) (s.encodeBody P ++ stopBytes false)
      (bodyMarks P mark s ++ [false]) (s.levels.map (List.map g)) := by
  have hlast (fs : Fields) (hfs : fs ∈ s.levels) (n' k : Nat) (hn : n' ≤ n) (hk : n' ≤ k) :
      Cut n' (readLevelsLoop readFieldBegin onField bound k)
        (encodeFields P fs ++ stopBytes false) (levelMarks P mark fs ++ [false]) [fs.map g] := by
    have hlevel := cut_readFieldsLoop hP fs (fun f hf => (h fs hfs f hf).mono (by omega)) false
      (Nat.le_trans hn hbound)
    cases k with
    | zero =>
        obtain rfl : n' = 0 := Nat.le_zero.1 hk
        exact .zero hlevel.length_eq
    | succ k =>
        rw [readLevelsLoop, ← List.append_nil (encodeFields P fs ++ stopBytes false),
          ← List.append_nil (levelMarks P mark fs ++ [false])]
        exact Cut.bind hlevel (.pure [fs.map g])
  cases s with
  | root fs => exact hlast fs (by simp [StructValue.levels]) n k (Nat.le_refl n) hk
  | derived base fs =>
      have hbase := cut_readLevelsLoop_bases hP base (hlast fs (by simp [StructValue.levels]))
        (fun fs' hfs' => h fs' (by simp [StructValue.levels, hfs'])) hk hbound
      rw [StructValue.encodeBody, StructValue.levels, bodyMarks]
      simpa using hbase

end

theorem bodyPassed_eq (P : ProtocolWriter) (M : SkipMarks) (s : StructValue) :
    s.bodyPassed P M = bodyMarks P (Value.passed P M) s := by
  have hlevel (fs : Fields) : fieldsPassed P M fs = levelMarks P (Value.passed P M) fs := by
    induction fs with
    | nil => rfl
    | cons f fs ih => rw [fieldsPassed, ih, levelMarks, levelMarks, List.flatMap_cons]
  induction s with
  | root fs => exact hlevel fs
  | derived base fs ih => rw [StructValue.bodyPassed, ih, hlevel, bodyMarks]

/-! ## Skipping -/

/-- What the parts of a protocol's `Skip` have to do on their encodings where these are cut off. -/
structure TruncationRules {P : ProtocolWriter} (R : SkipRules P) (M : SkipMarks) : Prop where
  containerBegin (n : Nat) (size : UInt32) (type : BondDataType) (h : type.isValue = true) :
    Reads n R.readContainerBegin (outputBytes (P.writeContainerBegin size type))
      (size.toNat, type)
  containerBeginPair (n : Nat) (size : UInt32) (key element : BondDataType)
    (hkey : key.isValue = true) (helement : element.isValue = true) :
    Reads n R.readContainerBeginPair (outputBytes (P.writeContainerBeginPair size key element))
      (size.toNat, key, element)
  cut_skipBasic (n : Nat) (type : BasicType) (vs : List BasicValue)
    (h : ∀ v ∈ vs, v.type = type ∧ v.wellFormed = true) :
    Cut n (R.skipBasic type vs.length) (vs.flatMap fun v => outputBytes (P.write v))
      (vs.flatMap M.basic) ()
  slides_skipBasic (n : Nat) (type : BasicType) (vs : List BasicValue)
    (h : ∀ v ∈ vs, v.type = type ∧ v.wellFormed = true)
    (hlt : (vs.flatMap fun v => outputBytes (P.write v)).length < 2 ^ 32) :
    Slides n (R.skipBasic type vs.length) (vs.flatMap fun v => outputBytes (P.write v))
      (vs.flatMap M.basic)
  cut_skipStruct (n : Nat) (s : StructValue) (skipType : BondDataType → Reader Unit) (bound : Nat)
    (hbound : n ≤ bound)
    (hfields : ∀ fs ∈ s.levels, ∀ f ∈ fs,
      Cut (n - 1) (skipType f.2.typeId) (f.2.encode P) (f.2.passed P M) ()) :
    Cut n (R.skipStruct skipType bound) ((Value.struct s).encode P)
      ((Value.struct s).passed P M) ()
  slides_skipStruct (n : Nat) (s : StructValue) (skipType : BondDataType → Reader Unit)
    (bound : Nat)
    (hlength : ((Value.struct s).passed P M).length = ((Value.struct s).encode P).length) :
    Slides n (R.skipStruct skipType bound) ((Value.struct s).encode P)
      ((Value.struct s).passed P M)

namespace TruncationRules

variable {P : ProtocolWriter} {R : SkipRules P} {M : SkipMarks} (T : TruncationRules R M)

include T

theorem cut_skipElements {n : Nat} (skipType : BondDataType → Reader Unit) (type : BondDataType)
    (vs : List Value) (hvalue : type.isValue = true)
    (h : ∀ v ∈ vs, v.typeId = type ∧ v.wellFormed = true ∧
      Cut n (skipType type) (v.encode P) (v.passed P M) ()) :
    Cut n (R.skipElements skipType type vs.length) (encodeItems P vs) (itemsPassed P M vs) () := by
  rw [encodeItems_eq, itemsPassed_eq]
  have hloop : Cut n (repeatN vs.length (skipType type) >>= fun _ => pure ())
      (vs.flatMap (Value.encode P)) (vs.flatMap (Value.passed P M)) () :=
    .repeatN_discard vs fun v hv => (h v hv).2.2
  cases type with
  | basic b =>
      obtain ⟨xs, rfl, hxs⟩ := eq_map_basic fun v hv => (h v hv).1
      have hwf : ∀ x ∈ xs, x.type = b ∧ x.wellFormed = true := fun x hx =>
        ⟨hxs x hx, by simpa [Value.wellFormed] using (h _ (List.mem_map_of_mem hx)).2.1⟩
      have hskip := T.cut_skipBasic n b xs hwf
      rw [List.flatMap_map, List.flatMap_map, List.length_map]
      simp only [Value.encode, Value.passed]
      exact hskip
  | struct | list | set | map => exact hloop
  | stop | stopBase | unavailable | undefined => simp [BondDataType.isValue] at hvalue

theorem cut_skipType : ∀ v : Value, v.wellFormed = true → ∀ fuel,
    Cut fuel (R.skipType fuel v.typeId) (v.encode P) (v.passed P M) () := by
  -- without fuel no cut is looked at, so it is enough to have some
  have hfuel {v : Value}
      (h : ∀ fuel, Cut (fuel + 1) (R.skipType (fuel + 1) v.typeId) (v.encode P) (v.passed P M) ())
      (fuel : Nat) : Cut fuel (R.skipType fuel v.typeId) (v.encode P) (v.passed P M) () := by
    cases fuel with
    | zero => exact .zero (h 0).length_eq
    | succ fuel => exact h fuel
  refine wellFormed_induct ?_ ?_ ?_ ?_
  · intro v hv
    refine hfuel fun fuel => ?_
    have hskip := T.cut_skipBasic (fuel + 1) v.type [v] (by simpa using hv)
    rw [List.flatMap_singleton, List.flatMap_singleton] at hskip
    rw [Value.encode, Value.passed, Value.typeId, SkipRules.skipType]
    exact hskip
  · intro kind element items hlen helement ih
    refine hfuel fun fuel => ?_
    have hpos := P.containerBegin_pos (UInt32.ofNat items.length) element
    have hheader := T.containerBegin (fuel + 1) (UInt32.ofNat items.length) element helement
    rw [UInt32.toNat_ofNat_of_lt' hlen] at hheader
    have hitems : Cut (fuel + 1
          - (outputBytes (P.writeContainerBegin (UInt32.ofNat items.length) element)).length)
        (R.skipElements (R.skipType fuel) element items.length) (encodeItems P items)
        (itemsPassed P M items) () := by
      refine T.cut_skipElements (R.skipType fuel) element items helement fun v hv => ?_
      obtain ⟨rfl, hwf, hskip⟩ := ih v hv
      exact ⟨rfl, hwf, (hskip fuel).mono (by omega)⟩
    rw [Value.encode, Value.passed, Value.typeId]
    cases kind <;> exact Cut.bind hheader hitems
  · intro key element items hlen hkey helement ih
    refine hfuel fun fuel => ?_
    have hpos := P.containerBeginPair_pos (UInt32.ofNat items.length) key element
    have hheader := T.containerBeginPair (fuel + 1) (UInt32.ofNat items.length) key element
      (BondDataType.isValue_of_isBasic hkey) helement
    rw [UInt32.toNat_ofNat_of_lt' hlen] at hheader
    rw [Value.encode, Value.passed, Value.typeId, SkipRules.skipType, encodePairs_eq,
      pairsPassed_eq]
    refine Cut.bind hheader (.repeatN_discard items fun kv hkv => ?_)
    obtain ⟨⟨rfl, -, hkskip⟩, rfl, -, hvskip⟩ := ih kv hkv
    exact Cut.bind ((hkskip fuel).mono (by omega)) ((hvskip fuel).mono (by omega))
  · intro s _ ih
    refine hfuel fun fuel => ?_
    exact T.cut_skipStruct (fuel + 1) s (R.skipType fuel) (fuel + 1) (Nat.le_refl _)
      fun fs hfs f hf => (ih fs hfs f hf).2 fuel

theorem slides_skipElements {n : Nat} (skipType : BondDataType → Reader Unit) (type : BondDataType)
    (vs : List Value) (hvalue : type.isValue = true) (hlt : (encodeItems P vs).length < 2 ^ 32)
    (h : ∀ v ∈ vs, v.typeId = type ∧ v.wellFormed = true ∧
      Cut n (skipType type) (v.encode P) (v.passed P M) () ∧
      Slides n (skipType type) (v.encode P) (v.passed P M)) :
    Slides n (R.skipElements skipType type vs.length) (encodeItems P vs) (itemsPassed P M vs) := by
  rw [encodeItems_eq] at hlt
  rw [encodeItems_eq, itemsPassed_eq]
  have hloop : Slides n (repeatN vs.length (skipType type) >>= fun _ => pure ())
      (vs.flatMap (Value.encode P)) (vs.flatMap (Value.passed P M)) :=
    .repeatN_discard vs (fun v hv => (h v hv).2.2.1) fun v hv => (h v hv).2.2.2
  cases type with
  | basic b =>
      obtain ⟨xs, rfl, hxs⟩ := eq_map_basic fun v hv => (h v hv).1
      have hwf : ∀ x ∈ xs, x.type = b ∧ x.wellFormed = true := fun x hx =>
        ⟨hxs x hx, by simpa [Value.wellFormed] using (h _ (List.mem_map_of_mem hx)).2.1⟩
      rw [List.flatMap_map] at hlt
      simp only [Value.encode] at hlt
      have hskip := T.slides_skipBasic n b xs hwf hlt
      rw [List.flatMap_map, List.flatMap_map, List.length_map]
      simp only [Value.encode, Value.passed]
      exact hskip
  | struct | list | set | map => exact hloop
  | stop | stopBase | unavailable | undefined => simp [BondDataType.isValue] at hvalue

theorem slides_skipType : ∀ v : Value, v.wellFormed = true → (v.encode P).length < 2 ^ 32 →
    ∀ fuel, Slides (fuel + 1) (R.skipType (fuel + 1) v.typeId) (v.encode P) (v.passed P M) := by
  refine wellFormed_induct ?_ ?_ ?_ ?_
  · intro v hv hlt fuel
    have hskip := T.slides_skipBasic (fuel + 1) v.type [v] (by simpa using hv)
    rw [List.flatMap_singleton, List.flatMap_singleton] at hskip
    rw [Value.encode] at hlt
    rw [Value.encode, Value.passed, Value.typeId, SkipRules.skipType]
    exact hskip hlt
  · intro kind element items hlen helement ih hlt fuel
    have hpos := P.containerBegin_pos (UInt32.ofNat items.length) element
    have hheader := T.containerBegin (fuel + 1) (UInt32.ofNat items.length) element helement
    rw [UInt32.toNat_ofNat_of_lt' hlen] at hheader
    rw [Value.encode, List.length_append] at hlt
    have hitems (hleft : 0 < fuel + 1
          - (outputBytes (P.writeContainerBegin (UInt32.ofNat items.length) element)).length) :
        Slides (fuel + 1
            - (outputBytes (P.writeContainerBegin (UInt32.ofNat items.length) element)).length)
          (R.skipElements (R.skipType fuel) element items.length) (encodeItems P items)
          (itemsPassed P M items) := by
      refine T.slides_skipElements (R.skipType fuel) element items helement (by omega) fun v hv => ?_
      obtain ⟨rfl, hwf, hskip⟩ := ih v hv
      obtain ⟨fuel, rfl⟩ : ∃ fuel', fuel = fuel' + 1 := ⟨fuel - 1, by omega⟩
      have hle := encode_item_length_le P hv
      exact ⟨rfl, hwf, (T.cut_skipType v hwf (fuel + 1)).mono (by omega),
        (hskip (by omega) fuel).mono (by omega)⟩
    rw [Value.encode, Value.passed, Value.typeId]
    cases kind <;> exact .bind_unmarked hheader hpos hitems
  · intro key element items hlen hkey helement ih hlt fuel
    have hpos := P.containerBeginPair_pos (UInt32.ofNat items.length) key element
    have hheader := T.containerBeginPair (fuel + 1) (UInt32.ofNat items.length) key element
      (BondDataType.isValue_of_isBasic hkey) helement
    rw [UInt32.toNat_ofNat_of_lt' hlen] at hheader
    rw [Value.encode, List.length_append] at hlt
    rw [Value.encode, Value.passed, Value.typeId, SkipRules.skipType, encodePairs_eq,
      pairsPassed_eq]
    refine .bind_unmarked hheader hpos fun hleft => ?_
    obtain ⟨fuel, rfl⟩ : ∃ fuel', fuel = fuel' + 1 := ⟨fuel - 1, by omega⟩
    have hcut {v : Value} (hwf : v.wellFormed = true) {n : Nat} (hn : n ≤ fuel + 1) :
        Cut n (R.skipType (fuel + 1) v.typeId) (v.encode P) (v.passed P M) () :=
      (T.cut_skipType v hwf (fuel + 1)).mono hn
    refine .repeatN_discard items (fun kv hkv => ?_) fun kv hkv => ?_
    · obtain ⟨⟨rfl, hkwf, -⟩, rfl, hvwf, -⟩ := ih kv hkv
      exact Cut.bind (hcut hkwf (by omega)) (hcut hvwf (by omega))
    · obtain ⟨⟨rfl, hkwf, hkskip⟩, rfl, hvwf, hvskip⟩ := ih kv hkv
      have hle := encode_pair_length_le P hkv
      exact .bind (hcut hkwf (by omega)) ((hkskip (by omega) fuel).mono (by omega))
        fun _ => (hvskip (by omega) fuel).mono (by omega)
  · intro s hs _ _ fuel
    have hlength := (T.cut_skipType (.struct s) (by simpa [Value.wellFormed] using hs) 0).length_eq
    exact T.slides_skipStruct (fuel + 1) s (R.skipType fuel) (fuel + 1) hlength

/-- Skipping a value throws where the first byte that is missing is not one that is stepped over. -/
theorem throws_skip {v : Value} (h : v.wellFormed = true) {k : Nat}
    (hk : k < (v.encode P).length) (hpassed : (v.passed P M)[k]? = some false) :
    Throws (R.skip v.typeId) ((v.encode P).take k) := by
  refine throws_remainingLength ?_
  rw [List.length_take, Nat.min_eq_left (Nat.le_of_lt hk)]
  exact (T.cut_skipType v h (k + 1)).throws k (Nat.lt_succ_self k) hpassed

/-- Skipping a value does not throw where all bytes that are missing are stepped over. -/
theorem succeeds_skip {v : Value} (h : v.wellFormed = true) (hlt : (v.encode P).length < 2 ^ 32)
    {k : Nat} (hk : k < (v.encode P).length)
    (hpassed : ∀ p ∈ (v.passed P M).drop k, p = true) :
    Succeeds (R.skip v.typeId) ((v.encode P).take k) := by
  refine succeeds_remainingLength ?_
  rw [List.length_take, Nat.min_eq_left (Nat.le_of_lt hk)]
  exact (T.slides_skipType v h hlt k).succeeds k (Nat.lt_succ_self k) hk hpassed

end TruncationRules

end Bond.Cpp

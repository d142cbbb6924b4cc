import Bond.Java.Tasks

set_option autoImplicit false

/-! # Reading a derived struct as one of its bases in Java

When a payload of which the structs have more levels than the types that they are read as is read
right. What is left of a struct when the levels of its type are read is taken for what follows the
struct. -/

namespace Bond.Java

open Bond.Cpp (BondDataType ListKind)
open Bond.Lib Bond.Managed
open Decoder Hereditary
open StringHelper

/-! ## Valid tasks -/

section

variable {p : Protocol} {types : Nat → StructBondType}

theorem Task.valid_levelTasks {structFields : List StructField} {fields : Fields}
    {seen : List UInt16} {os : List (UInt16 × Object)}
    (h : fieldsAs types p.format structFields seen fields = some os)
    (hwf : ∀ f ∈ fields, f.2.wellFormed encodeString = true) :
    ∀ c ∈ levelTasks structFields fields, c.Valid p types := by
  induction fields generalizing seen os with
  | nil => simp [levelTasks]
  | cons f fields ih =>
      obtain ⟨id, v⟩ := f
      have hv := hwf _ List.mem_cons_self
      have hrest (f : UInt16 × Value) (hf : f ∈ fields) := hwf f (List.mem_cons_of_mem _ hf)
      intro c hc
      rw [levelTasks, List.map_cons, List.mem_cons] at hc
      rw [fieldsAs] at h
      cases hfield : findField structFields id with
      | some field =>
          simp only [hfield] at h hc
          split at h
          · cases h
          · obtain ⟨o, ho, h⟩ := Option.bind_eq_some_iff.1 h
            obtain ⟨os', hos', -⟩ := Option.bind_eq_some_iff.1 h
            rcases hc with rfl | hc
            · exact ⟨hv, o, ho⟩
            · exact ih hos' hrest c hc
      | none =>
          simp only [hfield] at h hc
          rcases hc with rfl | hc
          · exact hv
          · exact ih h hrest c hc

theorem Task.valid_structTasks {Ls : List (List StructField)} {levels : List Fields}
    {os : List (List (UInt16 × Object))}
    (h : matchLevels Ls (levels.map (levelAs types p.format)) = some os)
    (hwf : ∀ fs ∈ levels, ∀ f ∈ fs, f.2.wellFormed encodeString = true) :
    ∀ c ∈ structTasks Ls levels, c.Valid p types := by
  induction Ls generalizing levels os with
  | nil => simp [structTasks]
  | cons L Ls ih =>
      cases levels with
      | nil => simp [structTasks]
      | cons fields levels =>
          rw [List.map_cons, matchLevels] at h
          obtain ⟨o, ho, h⟩ := Option.bind_eq_some_iff.1 h
          obtain ⟨os', hos', -⟩ := Option.bind_eq_some_iff.1 h
          rw [levelAs] at ho
          obtain ⟨fos, hfos, -⟩ := Option.bind_eq_some_iff.1 ho
          intro c hc
          rw [structTasks, List.mem_append] at hc
          rcases hc with hc | hc
          · exact valid_levelTasks hfos (hwf fields List.mem_cons_self) c hc
          · exact ih hos' (fun fs hfs => hwf fs (List.mem_cons_of_mem fields hfs)) c hc

/-- What is in a value that is skipped is skipped. -/
theorem Task.everywhere_skip_iff {P : Task → Prop} {v : Value} :
    Everywhere (children p types) P (.skip v) ↔ Everywhere p.skipped (fun v => P (.skip v)) v :=
  Everywhere.image_iff Task.skip fun _ => rfl

/-- All that is skipped with a well-formed value is a valid task. -/
theorem Task.everywhere_valid_skip {v : Value} (h : v.wellFormed encodeString = true) :
    Everywhere (Task.children p types) (Task.Valid p types) (.skip v) :=
  everywhere_skip_iff.2 (everywhere_wellFormed p.skipParts p.byField v h)

theorem Task.everywhere_valid_list {kind : ListKind} {element : BondDataType} {items : List Value}
    {T : BondType} (hvalid : Task.Valid p types (.read T (.list kind element items)))
    (ih : ∀ v ∈ items, ∀ T, Task.Valid p types (.read T v) →
      Everywhere (Task.children p types) (Task.Valid p types) (.read T v)) :
    Everywhere (Task.children p types) (Task.Valid p types) (.read T (.list kind element items)) := by
  have ⟨hwf, o, ho⟩ := hvalid
  simp only [Value.wellFormed, Bool.and_eq_true, wellFormedItems_iff] at hwf
  obtain ⟨e, -, has⟩ := listAs_of_asType ho
  have hitem {os : List Object} (hos : itemsAs types p.format e items = some os) (c : Task)
      (hc : c ∈ items.map (Task.read e)) :
      Everywhere (Task.children p types) (Task.Valid p types) c := by
    obtain ⟨v, hv, rfl⟩ := List.mem_map.1 hc
    exact ih v hv e ⟨(hwf.2 v hv).2, exists_item_asType hos hv⟩
  cases has with
  | vector _ hos _ => exact .intro hvalid (hitem hos)
  | list _ hos _ => exact .intro hvalid (hitem hos)
  | set _ hos _ => exact .intro hvalid (hitem hos)
  | nullable _ hos _ => exact .intro hvalid (hitem hos)

theorem Task.everywhere_valid_struct {s : StructValue} {T : BondType}
    (hvalid : Task.Valid p types (.read T (.struct s)))
    (ih : ∀ fs ∈ s.levels, ∀ f ∈ fs, ∀ T, Task.Valid p types (.read T f.2) →
      Everywhere (Task.children p types) (Task.Valid p types) (.read T f.2)) :
    Everywhere (Task.children p types) (Task.Valid p types) (.read T (.struct s)) := by
  have ⟨hwf, o, ho⟩ := hvalid
  have hfields := StructValue.wellFormed_iff.1 hwf
  obtain ⟨index, os, rfl, hos, -⟩ | ⟨index, rfl, -⟩ := structAs_of_asType ho
  · refine .intro hvalid fun c hc => ?_
    have hc' := valid_structTasks hos hfields c hc
    obtain ⟨fs, hfs, f, hf, rfl | ⟨type, rfl⟩⟩ := mem_structTasks hc
    · exact everywhere_valid_skip hc'
    · exact ih fs hfs f hf type hc'
  · refine .intro hvalid fun c hc => ?_
    obtain rfl := List.mem_singleton.1 hc
    exact everywhere_valid_skip hwf

/-- All that is in a valid task is valid. -/
theorem Task.everywhere_valid : ∀ v : Value, v.wellFormed encodeString = true → ∀ T,
    Task.Valid p types (.read T v) →
      Everywhere (Task.children p types) (Task.Valid p types) (.read T v) := by
  refine wellFormed_induct ?_ ?_ ?_ ?_ ?_ ?_
  · intro v _ T hvalid
    refine .intro hvalid fun c hc => ?_
    obtain ⟨-, o, ho⟩ := hvalid
    cases T <;> first | cases ho | cases hc
  · intro kind element items _ _ ih T hvalid
    exact everywhere_valid_list hvalid fun v hv => (ih v hv).2.2
  · intro element data _ _ T hvalid
    refine .intro hvalid fun c hc => ?_
    obtain ⟨-, o, ho⟩ := hvalid
    cases T <;> first | cases ho | cases hc
  · intro key element items _ _ _ ih T hvalid
    have ⟨hwf, o, ho⟩ := hvalid
    obtain ⟨k, e, os, rfl, -, -, hos, -⟩ := mapAs_of_asType ho
    refine .intro hvalid fun c hc => ?_
    obtain ⟨kv, hkv, hc⟩ := List.mem_flatMap.1 hc
    obtain ⟨⟨-, hkey, ihkey⟩, -, hvalue, ihvalue⟩ := ih kv hkv
    have hpair := exists_pair_asType hos hkv
    rcases List.mem_cons.1 hc with rfl | hc
    · exact ihkey k ⟨hkey, hpair.1⟩
    · obtain rfl := List.mem_singleton.1 hc
      exact ihvalue e ⟨hvalue, hpair.2⟩
  · intro s _ ih T hvalid
    exact everywhere_valid_struct hvalid fun fs hfs f hf => (ih fs hfs f hf).2
  · intro s _ ih T hvalid
    have hvalid' : Task.Valid p types (.read T (.struct s)) := by
      obtain ⟨hwf, o, ho⟩ := hvalid
      exact ⟨hwf, o, (asType_bonded s T).symm.trans ho⟩
    have hstruct := everywhere_valid_struct hvalid' fun fs hfs f hf => (ih fs hfs f hf).2
    refine .intro hvalid fun c hc => ?_
    obtain ⟨-, o, ho⟩ := hvalid'
    obtain ⟨index, -, rfl, -⟩ | ⟨index, rfl, -⟩ := structAs_of_asType ho
    · exact hstruct.children_of c hc
    · obtain rfl := List.mem_singleton.1 hc
      exact everywhere_valid_skip hvalid.1

/-! ## When a derived struct is read right -/

/-- An `ArrayList` takes every capacity that is the count of a list. -/
theorem newArrayList_ofNat {n : Nat} (hn : n < 2 ^ 31) : newArrayList (Int32.ofNat n) = pure () := by
  have hcount : ¬ Int32.ofNat n < 0 := by
    rw [Int32.lt_iff_toInt_lt, Int32.toInt_ofNat_of_lt hn]
    show ¬ (n : Int) < 0
    omega
  unfold newArrayList
  rw [if_neg hcount]

theorem Task.done_list {kind : ListKind} {element : BondDataType} {items : List Value}
    {T : BondType} (hvalid : Task.Valid p types (.read T (.list kind element items)))
    (hbelow : ∀ c ∈ Task.children p types (.read T (.list kind element items)),
      c.Done p.reader p.format types) :
    Task.Done p.reader p.format types (.read T (.list kind element items)) := by
  have G := p.skipRules.grammar
  have ⟨hwf, _⟩ := hvalid
  simp only [Value.wellFormed, Bool.and_eq_true, decide_eq_true_eq] at hwf
  intro o ho fuel hfuel
  obtain ⟨fuel, rfl⟩ : ∃ fuel', fuel = fuel' + 1 := ⟨fuel - 1, by omega⟩
  obtain ⟨e, rfl, has⟩ := listAs_of_asType ho
  have hnew (n : Nat) (hn : n < 2 ^ 31) := newArrayList_ofNat hn
  cases has with
  | vector _ hos hobject =>
      have hitems (v : Value) (hv : v ∈ items) := hbelow (.read e v) (List.mem_map_of_mem hv)
      rw [hobject]
      exact G.decodes_deserializeElements hnew .list hwf.1.1 hwf.1.2 hos hitems hfuel
  | list _ hos hobject =>
      have hitems (v : Value) (hv : v ∈ items) := hbelow (.read e v) (List.mem_map_of_mem hv)
      rw [hobject]
      exact G.decodes_deserializeElements (fun _ _ => rfl) .list hwf.1.1 hwf.1.2 hos hitems hfuel
  | set _ hos hobject =>
      have hitems (v : Value) (hv : v ∈ items) := hbelow (.read e v) (List.mem_map_of_mem hv)
      rw [hobject]
      exact G.decodes_deserializeElements (fun _ _ => rfl) .set hwf.1.1 hwf.1.2 hos hitems hfuel
  | nullable _ _ hobject =>
      have hitems (v : Value) (hv : v ∈ items) := hbelow (.read e v) (List.mem_map_of_mem hv)
      exact G.decodes_deserializeNullable hwf.1.2 hobject hitems hfuel

theorem Task.done_map {key element : BondDataType} {items : List (Value × Value)} {T : BondType}
    (hvalid : Task.Valid p types (.read T (.map key element items)))
    (hbelow : ∀ c ∈ Task.children p types (.read T (.map key element items)),
      c.Done p.reader p.format types) :
    Task.Done p.reader p.format types (.read T (.map key element items)) := by
  have G := p.skipRules.grammar
  have ⟨hwf, _⟩ := hvalid
  simp only [Value.wellFormed, Bool.and_eq_true, decide_eq_true_eq] at hwf
  obtain ⟨⟨⟨hlen, hkey⟩, hvalue⟩, -⟩ := hwf
  intro o ho fuel hfuel
  obtain ⟨fuel, rfl⟩ : ∃ fuel', fuel = fuel' + 1 := ⟨fuel - 1, by omega⟩
  obtain ⟨k, e, os, rfl, rfl, rfl, hos, rfl⟩ := mapAs_of_asType ho
  refine G.decodes_deserializeMap hlen (BondDataType.isValue_of_isBasic hkey) hvalue hos
    (fun kv hkv => ?_) hfuel
  exact ⟨hbelow _ (List.mem_flatMap.2 ⟨kv, hkv, by simp⟩),
    hbelow _ (List.mem_flatMap.2 ⟨kv, hkv, by simp⟩)⟩

theorem Task.done_struct {s : StructValue} {T : BondType}
    (hfits : Task.Fits p types (.read T (.struct s)))
    (hbelow : ∀ c ∈ Task.children p types (.read T (.struct s)), c.Done p.reader p.format types) :
    Task.Done p.reader p.format types (.read T (.struct s)) := by
  have G := p.skipRules.grammar
  intro o ho fuel hfuel
  obtain ⟨index, os, rfl, hos, rfl⟩ | ⟨index, rfl, rfl⟩ := structAs_of_asType ho
  · rw [← StructValue.levelsAs_eq] at hos
    obtain ⟨enc, henc, hread⟩ := G.decodes_deserializeStruct hos hbelow
    have hdrop : s.levels.drop (types index).levels.length = [] :=
      List.drop_eq_nil_iff.2 (Nat.le_of_eq hfits)
    rw [hdrop, encodeLevels, List.append_nil] at henc
    rw [henc] at hfuel ⊢
    exact hread fuel (henc ▸ hfuel)
  · obtain ⟨fuel, rfl⟩ : ∃ fuel', fuel = fuel' + 1 := ⟨fuel - 1, by omega⟩
    exact decodes_deserializeBonded (hbelow _ List.mem_cons_self)

/-- A task is done right if it fits and the tasks in it are done right. -/
theorem Task.done_step {T : BondType} {v : Value} (hvalid : Task.Valid p types (.read T v))
    (hfits : Task.Fits p types (.read T v))
    (hbelow : ∀ c ∈ Task.children p types (.read T v), c.Done p.reader p.format types) :
    Task.Done p.reader p.format types (.read T v) := by
  have G := p.skipRules.grammar
  cases v with
  | basic v =>
      intro o ho fuel hfuel
      obtain ⟨fuel, rfl⟩ : ∃ fuel', fuel = fuel' + 1 := ⟨fuel - 1, by omega⟩
      cases T with
      | primitive b =>
          rw [Value.asType] at ho
          split at ho
          · next htype =>
              cases ho
              rw [deserializeWithin, ← htype]
              exact (G.read v hvalid.1).map Object.primitive
          · cases ho
      | _ => cases ho
  | list kind element items => exact done_list hvalid hbelow
  | blob element data =>
      obtain ⟨hwf, -⟩ := hvalid
      simp only [Value.wellFormed, Bool.and_eq_true, decide_eq_true_eq] at hwf
      intro o ho fuel hfuel
      obtain ⟨fuel, rfl⟩ : ∃ fuel', fuel = fuel' + 1 := ⟨fuel - 1, by omega⟩
      cases T with
      | blob =>
          rw [Value.asType] at ho
          split at ho
          · next helement =>
              cases ho
              subst helement
              exact G.decodes_deserializeBlob hwf.1
          · cases ho
      | _ => cases ho
  | map key element items => exact done_map hvalid hbelow
  | struct s => exact done_struct hfits hbelow
  | bonded s =>
      intro o ho
      rw [asType_bonded] at ho
      cases T with
      | struct index => exact done_struct (T := .struct index) hfits hbelow o ho
      | bonded index =>
          refine done_struct (T := .bonded index) trivial (fun c hc => ?_) o ho
          obtain rfl := List.mem_singleton.1 hc
          exact hbelow (.skip (.bonded s)) List.mem_cons_self
      | _ => cases ho

/-- A task is done right if everything in it fits. -/
theorem Task.done {c : Task} (hvalid : Everywhere (children p types) (Valid p types) c)
    (hfits : Everywhere (children p types) (Fits p types) c) : c.Done p.reader p.format types := by
  induction hfits with
  | @intro c hfits hs ih =>
      cases c with
      | read T v =>
          exact done_step hvalid.self hfits fun c hc => ih c hc (hvalid.children_of c hc)
      | skip v =>
          show Decodes (p.reader.skip v.typeId) (v.encode p.format) (pure ())
          rw [p.skip_eq]
          exact p.skipRules.decodes_skip hvalid.self (everywhere_skip_iff.1 (.intro hfits hs))

/-- The bytes that are left bound the depth of the calls. -/
theorem deserializeValue_run (r : TaggedProtocolReader) (types : Nat → StructBondType) (T : BondType)
    (bytes : List UInt8) : (deserializeValue r types T).run bytes =
      (deserializeWithin r types (bytes.length + 1) T).run bytes :=
  rfl

/-- A struct that is read right has no more levels than its type. -/
theorem Task.levels_eq_of_exact {s : StructValue} {index : Nat}
    (hvalid : Task.Valid p types (.read (.struct index) (.struct s)))
    (hbelow : ∀ c ∈ Task.children p types (.read (.struct index) (.struct s)),
      c.Done p.reader p.format types)
    (hexact : Task.Exact p types (.read (.struct index) (.struct s))) :
    s.levels.length = (types index).levels.length := by
  have G := p.skipRules.grammar
  obtain ⟨-, o, ho⟩ := hvalid
  obtain ⟨os, hos, rfl⟩ := matchLevels_of_asType ho
  have hle := matchLevels_length hos
  rw [List.length_map] at hle
  rw [← StructValue.levelsAs_eq] at hos
  obtain ⟨enc, henc, hread⟩ := G.decodes_deserializeStruct hos hbelow
  have hall := (hexact _ ho).list_run []
  have hpart := (hread (((Value.struct s).encode p.format).length + 1)
    (Nat.lt_succ_self _)).list_run (encodeLevels p.format
      (s.levels.drop (types index).levels.length))
  rw [List.append_nil, deserializeValue_run] at hall
  rw [← henc, hall] at hpart
  have hrest : encodeLevels p.format (s.levels.drop (types index).levels.length) = [] :=
    (congrArg Prod.snd (Except.ok.inj hpart)).symm
  have hge := G.encodeLevels_drop_eq_nil hrest
  omega

/-- Reading a value as an object of a type, and reading or skipping everything in it, is done right
    if and only if every struct that is read has exactly the levels of its type, and all that is skipped
    fits. -/
theorem Task.deserializeValue_exactly_iff {T : BondType} {v : Value} (hwf : v.wellFormed encodeString = true)
    {o : Object} (ho : v.asType types p.format T = some o) :
    Everywhere (children p types) (Exact p types) (.read T v)
      ↔ Everywhere (children p types) (Fits p types) (.read T v) := by
  have hvalid : Everywhere (children p types) (Valid p types) (.read T v) :=
    everywhere_valid v hwf T ⟨hwf, o, ho⟩
  refine Everywhere.iff_of_step (fun c hc hbelow => ?_) hvalid
  have hdone (c' : Task) (hc' : c' ∈ c.children p types) : c'.Done p.reader p.format types :=
    done (hc.children_of c' hc') (hbelow c' hc')
  constructor
  · intro hexact
    cases c with
    | skip v =>
        have R := p.skipRules
        have hskip := (R.grammar.skipsAsItReads_iff_decodes hc.self).1 hexact
        rw [p.skip_eq] at hskip
        exact R.skipFits hc.self hskip
    | read T v =>
        cases T with
        | struct index =>
            cases v with
            | struct s => exact levels_eq_of_exact hc.self hdone hexact
            | bonded s =>
                exact levels_eq_of_exact (s := s) hc.self hdone hexact
            | _ => trivial
        | _ => trivial
  · intro hfits
    have hc' := done hc (.intro hfits hbelow)
    cases c with
    | skip v => exact (p.skipRules.grammar.skipsAsItReads_iff_decodes hc.self).2 hc'
    | read T v =>
        intro o ho
        refine decodes_available fun left hleft => ?_
        exact hc' o ho (left + 1) (Nat.lt_succ_of_le hleft)

end

/-! ## A list of derived structs -/

/-- `struct Base { 0: int32 x; }` -/
def baseType (_ : Nat) : StructBondType :=
  .root [⟨.primitive .int32, 0, .optional⟩]

/-- `struct Derived : Base { 5: string name; }` -/
def derivedValue (x : Int32) (name : List UInt16) : StructValue :=
  .derived (.root [(0, .basic (.int32 x))]) [(5, .basic (.string name))]

/-- A `list<Derived>`, to be read as a `list<Base>` -/
def derivedList : Value :=
  .list .list .struct [.struct (derivedValue 7 [0x61]), .struct (derivedValue 8 [0x62])]

theorem derivedList_not_exact : ¬ ∀ (p : Protocol) (types : Nat → StructBondType) (T : BondType)
    (v : Value), v.wellFormed encodeString = true →
      ∀ o, v.asType types p.format T = some o →
        Decodes (deserializeValue p.reader types T) (v.encode p.format) (pure o) := by
  intro hall
  obtain ⟨o, ho⟩ : ∃ o, derivedList.asType baseType Protocol.fastBinary.format
      (.list (.struct 0)) = some o := ⟨_, rfl⟩
  have hrun := (hall .fastBinary baseType (.list (.struct 0)) derivedList (by decide +kernel) o
    ho).list_run []
  have hbytes : derivedList.encode Protocol.fastBinary.format =
      [10, 2, 16, 0, 0, 7, 0, 0, 0, 1, 9, 5, 0, 1, 97, 0, 16, 0, 0, 8, 0, 0, 0, 1, 9, 5, 0, 1, 98,
        0] := by
    decide +kernel
  rw [List.append_nil, hbytes] at hrun
  have hleft : ((deserializeValue Protocol.fastBinary.reader baseType (.list (.struct 0))).run
      [10, 2, 16, 0, 0, 7, 0, 0, 0, 1, 9, 5, 0, 1, 97, 0, 16, 0, 0, 8, 0, 0, 0, 1, 9, 5, 0, 1, 98,
        0]).toOption.map Prod.snd ≠ some [] := by
    decide +kernel
  rw [hrun] at hleft
  exact hleft rfl

/-- The same list as what it is. -/
def derivedType (_ : Nat) : StructBondType :=
  .derived (baseType 0) [⟨.primitive .string, 5, .optional⟩]

theorem derivedValue_fits (x : Int32) (name : List UInt16) :
    Everywhere (Task.children .fastBinary derivedType) (Task.Fits .fastBinary derivedType)
      (.read (.struct 0) (.struct (derivedValue x name))) := by
  refine .intro rfl fun c hc => ?_
  have hfields : c ∈ [Task.read (.primitive .int32) (.basic (.int32 x)),
      .read (.primitive .string) (.basic (.string name))] := hc
  rcases List.mem_cons.1 hfields with rfl | hc
  · exact .intro trivial fun c hc => by cases hc
  · obtain rfl := List.mem_singleton.1 hc
    exact .intro trivial fun c hc => by cases hc

theorem derivedList_exact : Everywhere (Task.children .fastBinary derivedType)
    (Task.Exact .fastBinary derivedType) (.read (.list (.struct 0)) derivedList) := by
  obtain ⟨o, ho⟩ : ∃ o, derivedList.asType derivedType Protocol.fastBinary.format
      (.list (.struct 0)) = some o := ⟨_, rfl⟩
  refine (Task.deserializeValue_exactly_iff (by decide +kernel) ho).2 (.intro trivial fun c hc => ?_)
  have hitems : c ∈ [Task.read (.struct 0) (.struct (derivedValue 7 [0x61])),
      .read (.struct 0) (.struct (derivedValue 8 [0x62]))] := hc
  rcases List.mem_cons.1 hitems with rfl | hc
  · exact derivedValue_fits 7 [0x61]
  · obtain rfl := List.mem_singleton.1 hc
    exact derivedValue_fits 8 [0x62]

end Bond.Java
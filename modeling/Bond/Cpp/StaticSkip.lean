import Bond.Cpp.StaticParser

set_option autoImplicit false

/-! # Skipping and deserializing without tags

From the schema alone the static parser finds the end of each value twice: when it skips it and when
it deserializes it. Both are shown to end right behind what the writer has written. -/

namespace Bond.Cpp

open Decoder

variable {n : Nat}

/-! ## Values of a schema -/

mutual

/-- The values of a type, nested no deeper than `d`. -/
inductive SchemaDef.HasType (S : SchemaDef n) : Nat → TypeDef n → Value → Prop
  | basic {d} (v : BasicValue) (h : v.wellFormed = true) :
      HasType S (d + 1) (.basic v.type) (.basic v)
  | list {d element items} (hlen : items.length < 2 ^ 32)
      (h : ∀ v ∈ items, HasType S d element v) :
      HasType S (d + 1) (.list element) (.list .list element.id items)
  | set {d element items} (hlen : items.length < 2 ^ 32)
      (h : ∀ v ∈ items, HasType S d element v) :
      HasType S (d + 1) (.set element) (.list .set element.id items)
  | map {d key element items} (hlen : items.length < 2 ^ 32)
      (hkeys : ∀ kv ∈ items, HasType S d (.basic key) kv.1)
      (h : ∀ kv ∈ items, HasType S d element kv.2) :
      HasType S (d + 1) (.map (.basic key) element) (.map (.basic key) element.id items)
  | struct {d i s} (h : HasStruct S d i s) : HasType S (d + 1) (.struct i false) (.struct s)
  /-- a `bonded` may hold any struct, marshaled as Compact Binary -/
  | bonded {d i is} (hi : S.Hierarchy i is) (version : CompactBinary.Version) (s : StructValue)
      (hs : ∀ fs ∈ s.levels, PayloadIncreasing fs) (hwf : s.wellFormed = true)
      (hlen : (marshal version s).length < 2 ^ 32) :
      HasType S (d + 1) (.struct i true) (.bonded (marshal version s))

/-- The values of a struct: the fields of its schema, in their order. -/
inductive SchemaDef.HasStruct (S : SchemaDef n) : Nat → Fin n → StructValue → Prop
  | root {d i fields} (hbase : (S.structs i).baseDef = none)
      (hids : fields.map Prod.fst = (S.structs i).fields.map FieldDef.id)
      (h : ∀ p ∈ (S.structs i).fields.zip fields, HasType S d p.1.type p.2.2) :
      HasStruct S (d + 1) i (.root fields)
  | derived {d i j base fields} (hbase : (S.structs i).baseDef = some j)
      (hj : HasStruct S d j base)
      (hids : fields.map Prod.fst = (S.structs i).fields.map FieldDef.id)
      (h : ∀ p ∈ (S.structs i).fields.zip fields, HasType S d p.1.type p.2.2) :
      HasStruct S (d + 1) i (.derived base fields)

end

/-- The structs of a value's levels are a hierarchy. -/
theorem SchemaDef.HasStruct.hierarchy {S : SchemaDef n} {d : Nat} {i : Fin n} {s : StructValue}
    (h : S.HasStruct d i s) : ∃ is, S.Hierarchy i is := by
  induction d generalizing i s with
  | zero => cases h
  | succ d ih =>
      rcases h with ⟨hbase, -, -⟩ | ⟨hbase, hj, -, -⟩
      · exact ⟨[i], .root hbase⟩
      · obtain ⟨js, hjs⟩ := ih hj
        exact ⟨js ++ [i], .derived hbase hjs⟩

/-! ## The fields that are read -/

section

variable (S : SchemaDef n) (keep : Path n → Bool)

mutual

/-- What is left of a value if only the fields of `keep` are read, at every depth. -/
def Value.select (path : Path n) (type : TypeDef n) : Value → Value
  | .basic v => .basic v
  | .list kind id items =>
      match type with
      | .list element | .set element => .list kind id (selectItems path element items)
      | _ => .list kind id items
  | .map key id items =>
      match type with
      | .map _ element => .map key id (selectPairs path element items)
      | _ => .map key id items
  | .struct s =>
      match type with
      | .struct i _ => .struct (s.select path i)
      | _ => .struct s
  | .bonded payload => .bonded payload

def selectItems (path : Path n) (element : TypeDef n) : List Value → List Value
  | [] => []
  | v :: vs => v.select path element :: selectItems path element vs

def selectPairs (path : Path n) (element : TypeDef n) : List (Value × Value) → List (Value × Value)
  | [] => []
  | (k, v) :: kvs => (k, v.select path element) :: selectPairs path element kvs

def selectFields (path : Path n) (i : Fin n) (fields : List (FieldDef n)) :
    List (UInt16 × Value) → List (UInt16 × Value)
  | [] => []
  | (_, v) :: fs =>
      match fields with
      | [] => []
      | f :: fields =>
          let rest := selectFields path i fields fs
          if keep ((i, f.id) :: path) then (f.id, v.select ((i, f.id) :: path) f.type) :: rest
          else rest

def StructValue.select (path : Path n) (i : Fin n) : StructValue → StructValue
  | .root fields => .root (selectFields path i (S.structs i).fields fields)
  | .derived base fields =>
      match (S.structs i).baseDef with
      | some j => .derived (base.select path j) (selectFields path i (S.structs i).fields fields)
      | none => .derived base fields

end

theorem selectItems_eq (path : Path n) (element : TypeDef n) (vs : List Value) :
    selectItems S keep path element vs = vs.map (Value.select S keep path element) := by
  induction vs with
  | nil => rfl
  | cons v vs ih => rw [selectItems, ih, List.map_cons]

theorem selectPairs_eq (path : Path n) (element : TypeDef n) (kvs : List (Value × Value)) :
    selectPairs S keep path element kvs =
      kvs.map fun kv => (kv.1, kv.2.select S keep path element) := by
  induction kvs with
  | nil => rfl
  | cons kv kvs ih => rw [selectPairs, ih, List.map_cons]

end

/-! ## What the parser does -/

namespace StaticParser

section

variable {τ : Type} {transform : StaticTransform n τ} {version : SimpleBinary.Version}
  {null : StaticTransform n Unit} {S : SchemaDef n}

/-- Fields of the ids of a schema are those of the schema, one for one. -/
theorem length_eq {fields : List (FieldDef n)} {fs : Fields}
    (h : fs.map Prod.fst = fields.map FieldDef.id) : fields.length = fs.length := by
  have hlength := congrArg List.length h
  simpa using hlength.symm

/-- If each field is read or skipped exactly, then so are all the fields, one after the other. -/
theorem exists_runsTo_readFields {fields : List (FieldDef n)} {fs : Fields}
    (inv : List (FieldDef n × UInt16 × Value) → τ → Prop) (hlength : fields.length = fs.length)
    (hstep : ∀ p done todo, fields.zip fs = done ++ p :: todo → ∀ t, inv done t →
      ∃ t', RunsTo (transform.field p.1) t (p.2.2.encodeSimple version) false t' ∧
        inv (done ++ [p]) t') {t : τ} (ht : inv [] t) :
    ∃ t', RunsTo (readFields transform fields) t (encodeSimpleFields version fs) false t' ∧
      inv (fields.zip fs) t' := by
  induction fields generalizing fs inv t with
  | nil =>
      obtain rfl := List.length_eq_zero_iff.1 hlength.symm
      exact ⟨t, RunsTo.pure false t, ht⟩
  | cons field fields ih =>
      obtain ⟨⟨id, v⟩, fs, rfl⟩ := List.exists_cons_of_length_eq_add_one hlength.symm
      obtain ⟨t₁, hfield, ht₁⟩ := hstep (field, id, v) [] (fields.zip fs) rfl t ht
      obtain ⟨t₂, hrest, ht₂⟩ := ih (fun done => inv ((field, id, v) :: done))
        (Nat.succ.inj hlength) (fun p done todo hsplit => hstep p ((field, id, v) :: done) todo
          (by rw [List.zip_cons_cons, hsplit, List.cons_append])) ht₁
      rw [readFields, encodeSimpleFields]
      exact ⟨t₂, hfield.bind hrest, ht₂⟩

theorem runsTo_readFields {fields : List (FieldDef n)} {fs : Fields}
    (step : τ → FieldDef n × UInt16 × Value → τ) (hlength : fields.length = fs.length)
    (h : ∀ p ∈ fields.zip fs, ∀ t,
      RunsTo (transform.field p.1) t (p.2.2.encodeSimple version) false (step t p)) (t : τ) :
    RunsTo (readFields transform fields) t (encodeSimpleFields version fs) false
      ((fields.zip fs).foldl step t) := by
  have hstep : ∀ p done todo, fields.zip fs = done ++ p :: todo → ∀ t', t' = done.foldl step t →
      ∃ t'', RunsTo (transform.field p.1) t' (p.2.2.encodeSimple version) false t'' ∧
        t'' = (done ++ [p]).foldl step t := by
    rintro p done todo hsplit t' rfl
    refine ⟨step (done.foldl step t) p, h p ?_ _, by rw [List.foldl_append]; rfl⟩
    rw [hsplit]
    exact List.mem_append_right _ List.mem_cons_self
  obtain ⟨t', hread, rfl⟩ :=
    exists_runsTo_readFields (fun done t' => t' = done.foldl step t) hlength hstep rfl
  exact hread

variable {i : Fin n} {depth : UInt16} {t t₁ t₂ t₃ t₄ : τ} {enc enc' : List UInt8} {done done' : Bool}

variable (null) in
/-- `ParserInheritance::Read` at an expected level: the base, and then the fields. -/
theorem runsTo_read {k : Nat} (hdepth : S.schemaDepth i = some depth)
    (hle : ¬ depth > transform.expectedDepth)
    (hbegin : RunsTo (transform.begin_ (S.structs i).metadata) t [] () t₁)
    (hbase : RunsTo (match (S.structs i).baseDef with
      | none => pure false
      | some j => transform.base j) t₁ enc false t₂)
    (hfields : RunsTo (readFields transform (S.structs i).fields) t₂ enc' done t₃)
    (hend : RunsTo transform.end_ t₃ [] () t₄) :
    RunsTo (read null transform S (k + 1) i) t (enc ++ enc') done t₄ := by
  have htail : RunsTo (transform.end_ >>= fun _ => pure done) t₃ [] done t₄ :=
    hend.bind_nil (RunsTo.pure done t₄)
  rw [read, hdepth]
  cases hdef : (S.structs i).baseDef with
  | none =>
      rw [hdef] at hbase
      simp only [if_neg hle]
      exact RunsTo.nil_bind hbegin (hbase.bind (hfields.bind_nil htail))
  | some j =>
      rw [hdef] at hbase
      simp only [if_neg hle]
      exact RunsTo.nil_bind hbegin (hbase.bind (hfields.bind_nil htail))

/-- `ParserInheritance::Read` above the expected levels: the fields are skipped. -/
theorem runsTo_read_deeper {k : Nat} {j : Fin n} (hdepth : S.schemaDepth i = some depth)
    (hgt : depth > transform.expectedDepth) (hbase : (S.structs i).baseDef = some j)
    (hread : RunsTo (read null transform S k j) t enc done t₁)
    (hskip : Decodes (skipFields null (S.structs i).fields) enc' (pure ())) :
    RunsTo (read null transform S (k + 1) i) t (enc ++ enc') done t₁ := by
  rw [read, hdepth, hbase]
  simp only [if_pos hgt]
  exact hread.bind (RunsTo.bind_nil (RunsTo.lift hskip t₁) (RunsTo.pure done t₁))

end

end StaticParser

/-! ## Skipping -/

section

variable {S : SchemaDef n} (version : SimpleBinary.Version)

/-- A field that is left unread is skipped. -/
theorem runsTo_nullFor_field {fuel : Nat} {field : FieldDef n} {v : Value}
    (h : Decodes (skipSchema S version fuel field.type) (v.encodeSimple version) (pure ())) :
    RunsTo ((nullFor S version fuel).field field) () (v.encodeSimple version) false () :=
  (RunsTo.lift (decodes_nothrow h) ()).bind_nil (RunsTo.pure false ())

/-- `SkipFields` ends behind the last field. -/
theorem decodes_skipFields {fuel : Nat} {fields : List (FieldDef n)} {fs : Fields}
    (hids : fs.map Prod.fst = fields.map FieldDef.id)
    (h : ∀ p ∈ fields.zip fs,
      Decodes (skipSchema S version fuel p.1.type) (p.2.2.encodeSimple version) (pure ())) :
    Decodes (StaticParser.skipFields (nullFor S version fuel) fields)
      (encodeSimpleFields version fs) (pure ()) := by
  have hread := StaticParser.runsTo_readFields (fun _ _ => ())
    (StaticParser.length_eq hids) (fun p hp _ => runsTo_nullFor_field version (h p hp)) ()
  exact Decodes.bind_return hread fun _ => ()

/-- The items of a list or a set. -/
theorem decodes_skipItems {fuel : Nat} {element : TypeDef n} {items : List Value}
    (hlen : items.length < 2 ^ 32)
    (h : ∀ v ∈ items, Decodes (skipSchema S version fuel element) (v.encodeSimple version)
      (pure ())) :
    Decodes (do
        let size ← SimpleBinary.readSize version
        let _ ← repeatN size (skipSchema S version fuel element)
        return ())
      (outputBytes (SimpleBinary.writeSize version (UInt32.ofNat items.length))
        ++ encodeSimpleItems version items) (pure ()) := by
  rw [SimpleBinary.encodeSimpleItems_eq]
  exact (SimpleBinary.decodes_readSize version _ hlen).bind_pure
    (Decodes.repeatN_discard items h)

/-- The pairs of a map. -/
theorem decodes_skipPairs {fuel : Nat} {key : BasicType} {element : TypeDef n}
    {items : List (Value × Value)} (hlen : items.length < 2 ^ 32)
    (hkeys : ∀ kv ∈ items, Decodes (SimpleBinary.skip version (.basic key))
      (kv.1.encodeSimple version) (pure ()))
    (h : ∀ kv ∈ items, Decodes (skipSchema S version fuel element) (kv.2.encodeSimple version)
      (pure ())) :
    Decodes (do
        let size ← SimpleBinary.readSize version
        let _ ← repeatN size do
          SimpleBinary.skip version (.basic key)
          skipSchema S version fuel element
        return ())
      (outputBytes (SimpleBinary.writeSize version (UInt32.ofNat items.length))
        ++ encodeSimplePairs version items) (pure ()) := by
  rw [SimpleBinary.encodeSimplePairs_eq]
  exact (SimpleBinary.decodes_readSize version _ hlen).bind_pure
    (Decodes.repeatN_discard items fun kv hkv => (hkeys kv hkv).bind_pure (h kv hkv))

/-- The base of a struct, as `Null` takes it. -/
theorem runsTo_nullFor_base {fuel : Nat} {i : Fin n} {enc : List UInt8}
    (h : (S.structs i).baseDef = none ∧ enc = [] ∨ ∃ j, (S.structs i).baseDef = some j ∧
      Decodes (applyNull S version fuel j) enc (pure false)) :
    RunsTo (match (S.structs i).baseDef with
      | none => pure false
      | some j => (nullFor S version fuel).base j) () enc false () := by
  rcases h with ⟨hbase, rfl⟩ | ⟨j, hbase, hj⟩
  · rw [hbase]
    exact RunsTo.pure false ()
  · rw [hbase]
    exact RunsTo.lift hj ()

/-- One level of a struct, and what is below it, read to `Null`. -/
theorem decodes_applyNull_succ {fuel : Nat} {i : Fin n} {is : List (Fin n)} {fs : Fields}
    {enc : List UInt8} (hi : S.Hierarchy i is)
    (hbase : (S.structs i).baseDef = none ∧ enc = [] ∨ ∃ j, (S.structs i).baseDef = some j ∧
      Decodes (applyNull S version fuel j) enc (pure false))
    (hids : fs.map Prod.fst = (S.structs i).fields.map FieldDef.id)
    (h : ∀ p ∈ (S.structs i).fields.zip fs,
      Decodes (skipSchema S version fuel p.1.type) (p.2.2.encodeSimple version) (pure ())) :
    Decodes (applyNull S version (fuel + 1) i) (enc ++ encodeSimpleFields version fs)
      (pure false) := by
  obtain ⟨k, rfl⟩ : ∃ k, n = k + 1 := ⟨n - 1, by have hlt := i.isLt; omega⟩
  have hfields := StaticParser.runsTo_readFields (fun _ _ => ())
    (StaticParser.length_eq hids) (fun p hp _ => runsTo_nullFor_field version (h p hp)) ()
  have hread := StaticParser.runsTo_read (nullFor S version fuel) (k := k) hi.schemaDepth
    (not_depth_gt_max _) (RunsTo.pure () ()) (runsTo_nullFor_base version hbase) hfields
    (RunsTo.pure () ())
  rw [applyNull_succ]
  exact Decodes.bind_return hread Prod.fst

/-- What is skipped by its schema ends behind what was written. -/
theorem decodes_skip_schema (d : Nat) :
    (∀ (fuel : Nat) (type : TypeDef n) (v : Value), d ≤ fuel → S.HasType d type v →
      Decodes (skipSchema S version fuel type) (v.encodeSimple version) (pure ())) ∧
    (∀ (fuel : Nat) (i : Fin n) (s : StructValue), d ≤ fuel → S.HasStruct d i s →
      Decodes (applyNull S version fuel i) (s.encodeSimple version) (pure false)) := by
  induction d with
  | zero =>
      constructor
      · rintro _ _ _ _ ⟨⟩
      · rintro _ _ _ _ ⟨⟩
  | succ d ih =>
      obtain ⟨htype, hstruct⟩ := ih
      constructor
      · intro fuel type v hd h
        obtain ⟨fuel, rfl⟩ : ∃ k, fuel = k + 1 := ⟨fuel - 1, by omega⟩
        have hle : d ≤ fuel := Nat.le_of_succ_le_succ hd
        cases h with
        | basic v hwf =>
            rw [skipSchema, Value.encodeSimple]
            exact SimpleBinary.decodes_skipBasic version v hwf
        | list hlen h =>
            rw [skipSchema, Value.encodeSimple]
            exact decodes_skipItems version hlen fun v hv => htype _ _ _ hle (h v hv)
        | set hlen h =>
            rw [skipSchema, Value.encodeSimple]
            exact decodes_skipItems version hlen fun v hv => htype _ _ _ hle (h v hv)
        | map hlen hkeys h =>
            rw [skipSchema, Value.encodeSimple]
            refine decodes_skipPairs version hlen (fun kv hkv => ?_)
              fun kv hkv => htype _ _ _ hle (h kv hkv)
            have hkey := hkeys kv hkv
            generalize kv.1 = k at hkey
            obtain ⟨x, hx⟩ := hkey
            rw [Value.encodeSimple]
            exact SimpleBinary.decodes_skipBasic version x hx
        | struct h =>
            rw [skipSchema, Value.encodeSimple]
            exact Decodes.bind_return (hstruct _ _ _ hle h) fun _ => ()
        | bonded hi marshaled s hs hwf hlen =>
            rw [skipSchema, Value.encodeSimple]
            have hnull := decodes_applyNullMarshaled hi marshaled hs hwf
            rw [← List.append_nil (marshal marshaled s)] at hlen ⊢
            have hskip := (decodes_withInput hlen hnull).bind_return fun _ => ()
            rw [← List.append_nil (outputBytes _)]
            exact (SimpleBinary.decodes_readBlob _ hlen).bind_pure hskip
      · intro fuel i s hd h
        obtain ⟨fuel, rfl⟩ : ∃ k, fuel = k + 1 := ⟨fuel - 1, by omega⟩
        have hle : d ≤ fuel := Nat.le_of_succ_le_succ hd
        obtain ⟨is, hi⟩ := h.hierarchy
        rcases h with ⟨hbase, hids, h⟩ | ⟨hbase, hj, hids, h⟩
        · rw [StructValue.encodeSimple, ← List.nil_append (encodeSimpleFields _ _)]
          exact decodes_applyNull_succ version hi (.inl ⟨hbase, rfl⟩) hids
            fun p hp => htype _ _ _ hle (h p hp)
        · rw [StructValue.encodeSimple]
          exact decodes_applyNull_succ version hi (.inr ⟨_, hbase, hstruct _ _ _ hle hj⟩) hids
            fun p hp => htype _ _ _ hle (h p hp)

end

/-! ## Deserializing -/

section

variable {S : SchemaDef n} (version : SimpleBinary.Version) (keep : Path n → Bool)

/-- What a field that is read, or left unread, adds to a struct. -/
def selectField (path : Path n) (i : Fin n) (var : List Fields × Fields)
    (p : FieldDef n × UInt16 × Value) : List Fields × Fields :=
  if keep ((i, p.1.id) :: path) then
    (var.1, var.2 ++ [(p.1.id, p.2.2.select S keep ((i, p.1.id) :: path) p.1.type)])
  else var

theorem foldl_selectField (path : Path n) (i : Fin n) (fields : List (FieldDef n)) (fs : Fields)
    (var : List Fields × Fields) :
    (fields.zip fs).foldl (selectField (S := S) keep path i) var =
      (var.1, var.2 ++ selectFields S keep path i fields fs) := by
  induction fields generalizing fs var with
  | nil => cases fs <;> simp [selectFields]
  | cons f fields ih =>
      rcases fs with _ | ⟨⟨id, v⟩, fs⟩
      · simp [selectFields]
      · rw [List.zip_cons_cons, List.foldl_cons, ih, selectFields, selectField]
        by_cases hkeep : keep ((i, f.id) :: path) = true <;> simp [hkeep]

/-- A field is read if it is kept, and skipped otherwise. -/
theorem runsTo_readFor_field {fuel : Nat} {path : Path n} {i : Fin n}
    {p : FieldDef n × UInt16 × Value}
    (hskip : Decodes (skipSchema S version fuel p.1.type) (p.2.2.encodeSimple version) (pure ()))
    (hread : ∀ path, Decodes (deserialize S version keep fuel path p.1.type)
      (p.2.2.encodeSimple version) (pure (p.2.2.select S keep path p.1.type)))
    (var : List Fields × Fields) :
    RunsTo ((readFor S version keep fuel path i).field p.1) var (p.2.2.encodeSimple version) false
      (selectField (S := S) keep path i var p) := by
  by_cases hkeep : keep ((i, p.1.id) :: path) = true
  · simp only [readFor, readStatic, selectField, if_pos hkeep]
    refine RunsTo.bind_nil (RunsTo.lift (hread ((i, p.1.id) :: path)) var) ?_
    exact RunsTo.nil_bind (RunsTo.modify _ var) (RunsTo.pure false _)
  · simp only [readFor, readStatic, selectField, if_neg hkeep]
    exact RunsTo.bind_nil (RunsTo.lift (decodes_nothrow hskip) var) (RunsTo.pure false var)

/-- The base of a struct, as it is read. -/
theorem runsTo_readFor_base {fuel : Nat} {path : Path n} {i : Fin n} {enc : List UInt8}
    {levels : List Fields}
    (h : (S.structs i).baseDef = none ∧ enc = [] ∧ levels = [] ∨
      ∃ j, (S.structs i).baseDef = some j ∧
        Decodes (applyTo S version keep fuel path j) enc (pure levels)) :
    RunsTo (match (S.structs i).baseDef with
      | none => pure false
      | some j => (readFor S version keep fuel path i).base j) ([], []) enc false
      (levels, []) := by
  rcases h with ⟨hbase, rfl, rfl⟩ | ⟨j, hbase, hj⟩
  · rw [hbase]
    exact RunsTo.pure false ([], [])
  · rw [hbase]
    refine RunsTo.bind_nil (RunsTo.lift hj _) ?_
    exact RunsTo.nil_bind (RunsTo.modify _ _) (RunsTo.pure false _)

/-- One level of a struct, and what is below it, read. -/
theorem decodes_applyTo_succ {fuel : Nat} {path : Path n} {i : Fin n} {is : List (Fin n)}
    {fs : Fields} {enc : List UInt8} {levels : List Fields} (hi : S.Hierarchy i is)
    (hbase : (S.structs i).baseDef = none ∧ enc = [] ∧ levels = [] ∨
      ∃ j, (S.structs i).baseDef = some j ∧
        Decodes (applyTo S version keep fuel path j) enc (pure levels))
    (hids : fs.map Prod.fst = (S.structs i).fields.map FieldDef.id)
    (hskip : ∀ p ∈ (S.structs i).fields.zip fs,
      Decodes (skipSchema S version fuel p.1.type) (p.2.2.encodeSimple version) (pure ()))
    (hread : ∀ p ∈ (S.structs i).fields.zip fs, ∀ path,
      Decodes (deserialize S version keep fuel path p.1.type) (p.2.2.encodeSimple version)
        (pure (p.2.2.select S keep path p.1.type))) :
    Decodes (applyTo S version keep (fuel + 1) path i) (enc ++ encodeSimpleFields version fs)
      (pure (levels ++ [selectFields S keep path i (S.structs i).fields fs])) := by
  obtain ⟨k, rfl⟩ : ∃ k, n = k + 1 := ⟨n - 1, by have hlt := i.isLt; omega⟩
  have hfields := StaticParser.runsTo_readFields (selectField keep path i)
    (StaticParser.length_eq hids)
    (fun p hp => runsTo_readFor_field version keep (i := i) (hskip p hp) (hread p hp)) (levels, [])
  rw [foldl_selectField, List.nil_append] at hfields
  have happly := StaticParser.runsTo_read (nullFor S version fuel) (k := k) hi.schemaDepth
    (not_depth_gt_max _) (RunsTo.pure () _) (runsTo_readFor_base version keep hbase) hfields
    (RunsTo.pure () _)
  rw [applyTo_succ]
  exact Decodes.bind_return happly fun r => r.2.1 ++ [r.2.2]

/-- The items of a list or a set. -/
theorem decodes_readItems {fuel : Nat} {path : Path n} {element : TypeDef n} {items : List Value}
    (hlen : items.length < 2 ^ 32) (f : List Value → Value)
    (h : ∀ v ∈ items, Decodes (deserialize S version keep fuel path element)
      (v.encodeSimple version) (pure (v.select S keep path element))) :
    Decodes (do
        let size ← SimpleBinary.readSize version
        let items ← repeatN size (deserialize S version keep fuel path element)
        return f items)
      (outputBytes (SimpleBinary.writeSize version (UInt32.ofNat items.length))
        ++ encodeSimpleItems version items)
      (pure (f (selectItems S keep path element items))) := by
  rw [SimpleBinary.encodeSimpleItems_eq, selectItems_eq]
  exact (SimpleBinary.decodes_readSize version _ hlen).bind_pure
    ((Decodes.repeatN_pure items h).bind_return f)

/-- The pairs of a map. -/
theorem decodes_readPairs {fuel : Nat} {path : Path n} {key : BasicType} {element : TypeDef n}
    {items : List (Value × Value)} (hlen : items.length < 2 ^ 32)
    (f : List (Value × Value) → Value)
    (hkeys : ∀ kv ∈ items, Decodes (deserializeKey version (.basic key))
      (kv.1.encodeSimple version) (pure kv.1))
    (h : ∀ kv ∈ items, Decodes (deserialize S version keep fuel path element)
      (kv.2.encodeSimple version) (pure (kv.2.select S keep path element))) :
    Decodes (do
        let size ← SimpleBinary.readSize version
        let items ← repeatN size do
          let k ← deserializeKey version (.basic key)
          let v ← deserialize S version keep fuel path element
          return (k, v)
        return f items)
      (outputBytes (SimpleBinary.writeSize version (UInt32.ofNat items.length))
        ++ encodeSimplePairs version items)
      (pure (f (selectPairs S keep path element items))) := by
  rw [SimpleBinary.encodeSimplePairs_eq, selectPairs_eq]
  have hpair : ∀ kv ∈ items, Decodes (do
      let k ← deserializeKey version (.basic key)
      let v ← deserialize S version keep fuel path element
      return (k, v)) (kv.1.encodeSimple version ++ kv.2.encodeSimple version)
      (pure (kv.1, kv.2.select S keep path element)) := by
    intro kv hkv
    exact (hkeys kv hkv).bind_pure ((h kv hkv).bind_return fun v => (kv.1, v))
  exact (SimpleBinary.decodes_readSize version _ hlen).bind_pure
    ((Decodes.repeatN_pure items hpair).bind_return f)

theorem decodes_readBasic (v : BasicValue) (hwf : v.wellFormed = true) :
    Decodes (Value.basic <$> SimpleBinary.read version v.type)
      ((Value.basic v).encodeSimple version) (pure (.basic v)) := by
  have hread := (SimpleBinary.decodes_read version v hwf).map Value.basic
  rwa [Value.encodeSimple]

/-- What is deserialized is what was written, with the fields of `keep`. -/
theorem decodes_deserialize_schema (d : Nat) :
    (∀ (fuel : Nat) (path : Path n) (type : TypeDef n) (v : Value), d ≤ fuel →
      S.HasType d type v →
      Decodes (deserialize S version keep fuel path type) (v.encodeSimple version)
        (pure (v.select S keep path type))) ∧
    (∀ (fuel : Nat) (path : Path n) (i : Fin n) (s : StructValue), d ≤ fuel →
      S.HasStruct d i s →
      Decodes (applyTo S version keep fuel path i) (s.encodeSimple version)
        (pure (s.select S keep path i).levels)) := by
  induction d with
  | zero =>
      constructor
      · rintro _ _ _ _ _ ⟨⟩
      · rintro _ _ _ _ _ ⟨⟩
  | succ d ih =>
      obtain ⟨htype, hstruct⟩ := ih
      constructor
      · intro fuel path type v hd h
        obtain ⟨fuel, rfl⟩ : ∃ k, fuel = k + 1 := ⟨fuel - 1, by omega⟩
        have hle : d ≤ fuel := Nat.le_of_succ_le_succ hd
        cases h with
        | basic v hwf =>
            rw [deserialize, Value.select]
            exact decodes_readBasic version v hwf
        | list hlen h =>
            rw [deserialize, Value.encodeSimple, Value.select]
            exact decodes_readItems version keep hlen _ fun v hv => htype _ path _ v hle (h v hv)
        | set hlen h =>
            rw [deserialize, Value.encodeSimple, Value.select]
            exact decodes_readItems version keep hlen _ fun v hv => htype _ path _ v hle (h v hv)
        | map hlen hkeys h =>
            rw [deserialize, Value.encodeSimple, Value.select]
            refine decodes_readPairs version keep hlen _ (fun kv hkv => ?_)
              fun kv hkv => htype _ path _ kv.2 hle (h kv hkv)
            have hkey := hkeys kv hkv
            generalize kv.1 = k at hkey
            obtain ⟨x, hx⟩ := hkey
            exact decodes_readBasic version x hx
        | struct h =>
            rw [deserialize, Value.encodeSimple, Value.select]
            have hread := (hstruct _ path _ _ hle h).bind_return fun levels =>
              Value.struct (.ofLevels levels)
            rwa [StructValue.ofLevels_levels] at hread
        | bonded hi marshaled s hs hwf hlen =>
            rw [deserialize, Value.encodeSimple, Value.select]
            have hselect := decodes_withInput hlen
              (decodes_nextProtocol marshaled [⟨0x5053, 2⟩, ⟨0x464d, 1⟩])
            have hread := hselect.bind_return fun _ => Value.bonded (marshal marshaled s)
            rw [← List.append_nil (outputBytes _)]
            exact (SimpleBinary.decodes_readBlob _ hlen).bind_pure hread
      · intro fuel path i s hd h
        obtain ⟨fuel, rfl⟩ : ∃ k, fuel = k + 1 := ⟨fuel - 1, by omega⟩
        have hle : d ≤ fuel := Nat.le_of_succ_le_succ hd
        obtain ⟨is, hi⟩ := h.hierarchy
        have hskip {type : TypeDef n} {v : Value} (hv : S.HasType d type v) :=
          (decodes_skip_schema version d).1 fuel type v hle hv
        rcases h with ⟨hbase, hids, h⟩ | ⟨hbase, hj, hids, h⟩
        · rw [StructValue.encodeSimple, StructValue.select, StructValue.levels,
            ← List.nil_append (encodeSimpleFields _ _), ← List.nil_append [selectFields ..]]
          exact decodes_applyTo_succ version keep hi (.inl ⟨hbase, rfl, rfl⟩) hids
            (fun p hp => hskip (h p hp)) fun p hp path => htype _ path _ _ hle (h p hp)
        · rw [StructValue.encodeSimple, StructValue.select, hbase]
          exact decodes_applyTo_succ version keep hi (.inr ⟨_, hbase, hstruct _ path _ _ hle hj⟩)
            hids (fun p hp => hskip (h p hp)) fun p hp path => htype _ path _ _ hle (h p hp)

end

/-! ## Values that are read whole -/

section

variable {S : SchemaDef n} {keep : Path n → Bool}

/-- Every field at or below a path is read. -/
def KeepsAll (keep : Path n → Bool) (path : Path n) : Prop :=
  ∀ inner, keep (inner ++ path) = true

theorem KeepsAll.cons {path : Path n} (h : KeepsAll keep path) (f : Fin n × UInt16) :
    KeepsAll keep (f :: path) := by
  intro inner
  have hinner := h (inner ++ [f])
  rwa [List.append_assoc, List.singleton_append] at hinner

theorem selectFields_eq_self {path : Path n} {i : Fin n} {fields : List (FieldDef n)} {fs : Fields}
    (hkeep : KeepsAll keep path) (hids : fs.map Prod.fst = fields.map FieldDef.id)
    (h : ∀ p ∈ fields.zip fs, ∀ path, KeepsAll keep path →
      p.2.2.select S keep path p.1.type = p.2.2) :
    selectFields S keep path i fields fs = fs := by
  induction fs generalizing fields with
  | nil => rw [selectFields]
  | cons g fs ih =>
      obtain ⟨id, v⟩ := g
      rcases fields with _ | ⟨f, fields⟩
      · simp at hids
      · rw [List.map_cons, List.map_cons, List.cons.injEq] at hids
        obtain ⟨hid, hids⟩ := hids
        have hf : KeepsAll keep ((i, f.id) :: path) := hkeep.cons (i, f.id)
        have hv := h (f, id, v) List.mem_cons_self _ hf
        have hrest := ih hids fun p hp => h p (List.mem_cons_of_mem _ hp)
        have hfield : keep ((i, f.id) :: path) = true := hf []
        simp only [selectFields, if_pos hfield, hv, hrest]
        rw [← hid]

/-- A value that is read with all its fields is the value that was written. -/
theorem select_eq_self (d : Nat) :
    (∀ (path : Path n) (type : TypeDef n) (v : Value), KeepsAll keep path → S.HasType d type v →
      v.select S keep path type = v) ∧
    (∀ (path : Path n) (i : Fin n) (s : StructValue), KeepsAll keep path → S.HasStruct d i s →
      s.select S keep path i = s) := by
  induction d with
  | zero =>
      constructor
      · rintro _ _ _ _ ⟨⟩
      · rintro _ _ _ _ ⟨⟩
  | succ d ih =>
      obtain ⟨htype, hstruct⟩ := ih
      constructor
      · intro path type v hkeep h
        cases h with
        | basic v hwf => rw [Value.select]
        | list hlen h =>
            rw [Value.select]
            simp only [selectItems_eq]
            rw [List.map_congr_left fun v hv => htype path _ v hkeep (h v hv), List.map_id']
        | set hlen h =>
            rw [Value.select]
            simp only [selectItems_eq]
            rw [List.map_congr_left fun v hv => htype path _ v hkeep (h v hv), List.map_id']
        | map hlen hkeys h =>
            rw [Value.select]
            simp only [selectPairs_eq]
            rw [List.map_congr_left fun kv hkv =>
              congrArg (Prod.mk kv.1) (htype path _ kv.2 hkeep (h kv hkv)), List.map_id']
        | struct h => rw [Value.select, hstruct path _ _ hkeep h]
        | bonded hi marshaled s hs hwf hlen => rw [Value.select]
      · intro path i s hkeep h
        rcases h with ⟨hbase, hids, h⟩ | ⟨hbase, hj, hids, h⟩
        · rw [StructValue.select, selectFields_eq_self hkeep hids
            fun p hp path hpath => htype path _ _ hpath (h p hp)]
        · rw [StructValue.select, hbase]
          simp only [hstruct path _ _ hkeep hj, selectFields_eq_self hkeep hids
            fun p hp path hpath => htype path _ _ hpath (h p hp)]

end

/-! ## Skipping and reading -/

/-- The static parser skips a value of the schema, and deserializes it, up to the same position:
    right behind what the writer has written. So whichever fields a transform leaves unread, it reads
    the others as they were written. Calls nest no deeper than the value does. -/
theorem simpleBinary_skip_eq_read (S : SchemaDef n) (version : SimpleBinary.Version)
    (keep : Path n → Bool) :
    (∀ (d : Nat) (type : TypeDef n) (v : Value), S.HasType d type v →
      ∀ fuel ≥ d, ∀ (path : Path n) (b : InputBuffer) (rest : List UInt8),
        remaining b = v.encodeSimple version ++ rest →
        ∃ b', (skipSchema S version fuel type).run b = .ok ((), b') ∧
          (deserialize S version keep fuel path type).run b
            = .ok (v.select S keep path type, b') ∧
          remaining b' = rest) ∧
    (∀ (d : Nat) (i : Fin n) (s : StructValue), S.HasStruct d i s →
      ∀ fuel ≥ d, ∀ (b : InputBuffer) (rest : List UInt8),
        remaining b = s.encodeSimple version ++ rest →
        ∃ b', (applyTo S version keep fuel [] i).run b = .ok ((s.select S keep [] i).levels, b') ∧
          remaining b' = rest) ∧
    (∀ (d : Nat) (type : TypeDef n) (v : Value) (path : Path n), S.HasType d type v →
      KeepsAll keep path → v.select S keep path type = v) := by
  refine ⟨?_, ?_, ?_⟩
  · intro d type v h fuel hd path b rest hb
    have hskip := (decodes_skip_schema version d).1 fuel type v hd h b rest hb
    have hread := (decodes_deserialize_schema version keep d).1 fuel path type v hd h b rest hb
    exact ⟨_, hskip, hread, remaining_advance_append hb⟩
  · intro d i s h fuel hd b rest hb
    have hread := (decodes_deserialize_schema version keep d).2 fuel [] i s hd h b rest hb
    exact ⟨_, hread, remaining_advance_append hb⟩
  · intro d type v path h hkeep
    exact (select_eq_self d).1 path type v hkeep h

/-! ### A payload without tags -/

/-- A struct with a wide string, and one derived from it with a list, a map and a `bonded`. -/
def schemaUntagged : SchemaDef 2 where
  structs := fun
    | 0 =>
      { metadata := { name := "Base", qualifiedName := "Base", modifier := .optional }
        baseDef := none
        fields := [{ metadata := { name := "w", qualifiedName := "", modifier := .optional }
                     id := 0, type := .basic .wstring }]
        increasing := by decide }
    | 1 =>
      { metadata := { name := "Derived", qualifiedName := "Derived", modifier := .optional }
        baseDef := some 0
        fields := [
          { metadata := { name := "l", qualifiedName := "", modifier := .optional }
            id := 1, type := .list (.basic .uint16) },
          { metadata := { name := "m", qualifiedName := "", modifier := .optional }
            id := 2, type := .map (.basic .uint8) (.struct 0 false) },
          { metadata := { name := "b", qualifiedName := "", modifier := .optional }
            id := 3, type := .struct 0 true },
          { metadata := { name := "s", qualifiedName := "", modifier := .optional }
            id := 4, type := .basic .string }]
        increasing := by decide }
  root := 1
  size_le := SchemaDef.two_le

/-- A value of `Base` -/
def untaggedBase : StructValue :=
  .root [(0, .basic (.wstring [955]))]

/-- A value of `Derived` -/
def untaggedDerived : StructValue :=
  .derived untaggedBase
    [(1, .list .list (.basic .uint16) [.basic (.uint16 7), .basic (.uint16 8)]),
      (2, .map (.basic .uint8) .struct [(.basic (.uint8 1), .struct untaggedBase)]),
      (3, .bonded (marshal .v1 untaggedBase)),
      (4, .basic (.string [98]))]

theorem untaggedBase_hasStruct (d : Nat) : schemaUntagged.HasStruct (d + 2) 0 untaggedBase := by
  refine .root rfl rfl fun p hp => ?_
  obtain rfl := List.mem_singleton.1 hp
  exact .basic (.wstring [955]) rfl

theorem untaggedDerived_hasStruct : schemaUntagged.HasStruct 5 1 untaggedDerived := by
  refine .derived rfl (untaggedBase_hasStruct 2) rfl fun p hp => ?_
  rcases hp with _ | ⟨_, _ | ⟨_, _ | ⟨_, _ | ⟨_, ⟨⟩⟩⟩⟩⟩
  · refine .list (by decide) fun v hv => ?_
    rcases hv with _ | ⟨_, _ | ⟨_, ⟨⟩⟩⟩
    · exact .basic (.uint16 7) rfl
    · exact .basic (.uint16 8) rfl
  · refine .map (by decide) (fun kv hkv => ?_) fun kv hkv => ?_
    · obtain rfl := List.mem_singleton.1 hkv
      exact .basic (.uint8 1) rfl
    · obtain rfl := List.mem_singleton.1 hkv
      exact .struct (untaggedBase_hasStruct 0)
  · exact .bonded (.root rfl) .v1 untaggedBase (by decide) (by decide) (by decide)
  · exact .basic (.string [98]) rfl

def untaggedPayload : InputBuffer :=
  .ofBlob (untaggedDerived.encodeSimple .v2) (by decide)

/-- A transform that reads the string alone finds it behind everything that it skips. -/
theorem untaggedPayload_read :
    ∃ b', (applyTo schemaUntagged .v2 (fun path => path = [(1, 4)]) 5 [] 1).run untaggedPayload
        = .ok ([[], [(4, .basic (.string [98]))]], b') ∧
      remaining b' = [] :=
  (simpleBinary_skip_eq_read schemaUntagged .v2 fun path => path = [(1, 4)]).2.1 5 1
    untaggedDerived untaggedDerived_hasStruct 5 (Nat.le_refl 5) untaggedPayload [] rfl

end Bond.Cpp

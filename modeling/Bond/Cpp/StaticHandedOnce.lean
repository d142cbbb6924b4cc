import Bond.Cpp.StaticHanded

set_option autoImplicit false

/-! # Handles of a payload without tags

What a transform is handed for a struct of a payload without tags, and that each handle moves the parser's
reader over its value. A base skips itself here as it should, so only a first pass of a serializer is left
to go wrong. -/

namespace Bond.Cpp

open Decoder Handle

variable {n : Nat}

/-! ## What is handed -/

/-- What a handle stands for: a field, with the type that the schema has for it, or a base. -/
inductive StaticHanded (n : Nat) where
  | field (type : TypeDef n) (v : Value)
  | base (j : Fin n) (s : StructValue)

/-- The bytes that the value takes. -/
def StaticHanded.encoding (version : SimpleBinary.Version) : StaticHanded n → List UInt8
  | field _ v => v.encodeSimple version
  | base _ s => s.encodeSimple version

/-- The handles of the fields of one level. -/
def staticHandedFields (fields : List (FieldDef n)) (fs : Fields) : List (StaticHanded n) :=
  (fields.zip fs).map fun p => .field p.1.type p.2.2

/-- All that a transform is handed for a struct or a base: its base, and its own fields. -/
def staticHandedBy (S : SchemaDef n) (i : Fin n) : StructValue → List (StaticHanded n)
  | .root fs => staticHandedFields (S.structs i).fields fs
  | .derived base fs =>
      (S.structs i).baseDef.toList.map (.base · base) ++ staticHandedFields (S.structs i).fields fs

/-- A handle has moved the reader over what it stands for. If a transform was applied to it, then so has
    each handle that this transform was handed. -/
inductive StaticAccounts (S : SchemaDef n) (version : SimpleBinary.Version) :
    Entry → StaticHanded n → Prop
  | whole (handed : StaticHanded n) :
      StaticAccounts S version (.mk (handed.encoding version) []) handed
  | applied {i : Fin n} {s : StructValue} {entries : List Entry}
      (h : List.Forall₂ (StaticAccounts S version) entries (staticHandedBy S i s)) :
      StaticAccounts S version (.mk (s.encodeSimple version) entries)
        (.field (.struct i false) (.struct s))
  | appliedBase {j : Fin n} {s : StructValue} {entries : List Entry}
      (h : List.Forall₂ (StaticAccounts S version) entries (staticHandedBy S j s)) :
      StaticAccounts S version (.mk (s.encodeSimple version) entries) (.base j s)

/-! ## Which uses are safe -/

/-- What is done with a marshaled payload in its own buffer does not throw. -/
def GoesThrough (S : SchemaDef n) (marshaled : Fin n → Reader (List WriterCall)) : Prop :=
  ∀ d i payload, S.HasType d (.struct i true) (.bonded payload) →
    ∃ calls, Decodes (withInput payload (marshaled i)) [] (pure calls)

def StaticValueUse.Safe (S : SchemaDef n) (marshaled : Fin n → Reader (List WriterCall)) :
    StaticValueUse n → Prop
  | serialize _ => GoesThrough S marshaled
  | _ => True

/-- A struct or a base may be left to its handle, but not be parsed twice. -/
def StaticBondedUse.Safe (S : SchemaDef n) (marshaled : Fin n → Reader (List WriterCall)) :
    StaticBondedUse n → Prop
  | serialize _ firstPass => firstPass = false ∧ GoesThrough S marshaled
  | _ => True

/-- A marshaled payload is parsed in a buffer of its own, as often as one likes. -/
def StaticBondedUse.SafeMarshaled (S : SchemaDef n) (marshaled : Fin n → Reader (List WriterCall)) :
    StaticBondedUse n → Prop
  | ignore | skip | keep => True
  | _ => GoesThrough S marshaled

/-- What the transform does with a handle is safe, and so it is with all the handles that it is handed if
    it is applied to this one. -/
inductive StaticUses.Safe (uses : StaticUses n) (S : SchemaDef n) : List Nat → StaticHanded n → Prop
  | value {place : List Nat} {type : TypeDef n} {v : Value}
      (htype : ∀ i bondedType, type ≠ .struct i bondedType)
      (h : (uses.value place).Safe S (uses.marshaled place)) : Safe uses S place (.field type v)
  | struct {place : List Nat} {i : Fin n} {s : StructValue}
      (h : (uses.bonded place).Safe S (uses.marshaled place))
      (happly : uses.bonded place = .apply → ∀ k handed,
        (staticHandedBy S i s)[k]? = some handed → Safe uses S (k :: place) handed) :
      Safe uses S place (.field (.struct i false) (.struct s))
  | marshaled {place : List Nat} {i : Fin n} {v : Value}
      (h : (uses.bonded place).SafeMarshaled S (uses.marshaled place)) :
      Safe uses S place (.field (.struct i true) v)
  | base {place : List Nat} {j : Fin n} {s : StructValue}
      (h : (uses.bonded place).Safe S (uses.marshaled place))
      (happly : uses.bonded place = .apply → ∀ k handed,
        (staticHandedBy S j s)[k]? = some handed → Safe uses S (k :: place) handed) :
      Safe uses S place (.base j s)

/-- A run in which all that the transform does is safe, from the handle number `start` on. -/
def StaticUses.SafeRun (uses : StaticUses n) (S : SchemaDef n) (path : List Nat) (start : Nat)
    (handed : List (StaticHanded n)) : Prop :=
  ∀ k x, handed[k]? = some x → uses.Safe S ((start + k) :: path) x

/-! ## Serializing -/

section

variable {S : SchemaDef n} (version : SimpleBinary.Version) (pass : Bool)
  {marshaled : Fin n → Reader (List WriterCall)}

/-- A field of a struct that is serialized. -/
theorem runsTo_staticSerializer_field {write : TypeDef n → Reader (List WriterCall)}
    {serializeBase : Fin n → Reader (List WriterCall)} {base : Bool} {field : FieldDef n} {v : Value}
    (h : Moves (write field.type) (v.encodeSimple version)) (calls : List WriterCall) :
    ∃ calls', RunsTo ((staticSerializer write serializeBase base).field field) calls
      (v.encodeSimple version) false calls' := by
  obtain ⟨written, hwrite⟩ := h
  refine ⟨calls ++ [.writeFieldBegin field.type.id field.id] ++ written,
    RunsTo.nil_bind (RunsTo.modify _ calls) ((RunsTo.lift hwrite _).bind_nil ?_)⟩
  exact RunsTo.nil_bind (RunsTo.modify _ _) (RunsTo.pure false _)

/-- The base of a struct that is serialized. -/
theorem runsTo_staticSerializer_base (write : TypeDef n → Reader (List WriterCall))
    {serializeBase : Fin n → Reader (List WriterCall)} (base : Bool) {i : Fin n} {enc : List UInt8}
    (h : (S.structs i).baseDef = none ∧ enc = [] ∨ ∃ j, (S.structs i).baseDef = some j ∧
      Moves (serializeBase j) enc) (calls : List WriterCall) :
    ∃ calls', RunsTo (match (S.structs i).baseDef with
      | none => pure false
      | some j => (staticSerializer write serializeBase base).base j) calls enc false calls' := by
  rcases h with ⟨hbase, rfl⟩ | ⟨j, hbase, written, hwrite⟩
  · exact ⟨calls, runsTo_base_none hbase _ calls⟩
  · exact ⟨calls ++ written, runsTo_base_some hbase _ ((RunsTo.lift hwrite calls).bind_nil
      (RunsTo.nil_bind (RunsTo.modify _ calls) (RunsTo.pure false _)))⟩

/-- One level of a struct, and what is below it, serialized. -/
theorem moves_applySerializer_succ {fuel : Nat} {base : Bool} {i : Fin n} {is : List (Fin n)}
    {fs : Fields} {enc : List UInt8} (hi : S.Hierarchy i is)
    (hbase : (S.structs i).baseDef = none ∧ enc = [] ∨ ∃ j, (S.structs i).baseDef = some j ∧
      Moves (applySerializer S version pass marshaled fuel true j) enc)
    (hids : fs.map Prod.fst = (S.structs i).fields.map FieldDef.id)
    (hnull : Decodes (applyNull S version (fuel + 1) i) (enc ++ encodeSimpleFields version fs)
      (pure false))
    (h : ∀ p ∈ (S.structs i).fields.zip fs,
      Moves (serializeStatic S version pass marshaled fuel p.1.type) (p.2.2.encodeSimple version)) :
    Moves (applySerializer S version pass marshaled (fuel + 1) base i)
      (enc ++ encodeSimpleFields version fs) := by
  rw [applySerializer]
  split
  · have hskip := decodes_skippedBytes (hnull.bind_return fun _ => ())
    exact ⟨_, hskip.bind_return fun bytes => [WriterCall.writeRange bytes]⟩
  · obtain ⟨k, rfl⟩ : ∃ k, n = k + 1 := ⟨n - 1, by have hlt := i.isLt; omega⟩
    obtain ⟨calls, hcalls⟩ := runsTo_staticSerializer_base
      (serializeStatic S version pass marshaled fuel) base hbase [.writeStructBegin base]
    obtain ⟨calls', hfields, -⟩ : ∃ calls', RunsTo (StaticParser.readFields (staticSerializer
        (serializeStatic S version pass marshaled fuel)
        (applySerializer S version pass marshaled fuel true) base) (S.structs i).fields) calls
        (encodeSimpleFields version fs) false calls' ∧ True := by
      refine StaticParser.exists_runsTo_readFields (fun _ _ => True) (StaticParser.length_eq hids)
        (fun p done todo hsplit calls _ => ?_) trivial
      have hp : p ∈ (S.structs i).fields.zip fs := by
        rw [hsplit]
        exact List.mem_append_right _ List.mem_cons_self
      obtain ⟨calls', hfield⟩ := runsTo_staticSerializer_field version (h p hp) calls
      exact ⟨calls', hfield, trivial⟩
    have hread := StaticParser.runsTo_read (nullFor S version fuel) (k := k) hi.schemaDepth
      (not_depth_gt_max _) (RunsTo.modify _ ([] : List WriterCall)) hcalls hfields
      (RunsTo.modify _ _)
    exact ⟨_, Decodes.bind_return hread fun result => result.2⟩

theorem decodes_serializeKey (v : BasicValue) (hwf : v.wellFormed = true) :
    Decodes (serializeKey version (.basic v.type)) ((Value.basic v).encodeSimple version)
      (pure [.write v]) := by
  rw [Value.encodeSimple]
  exact (SimpleBinary.decodes_read version v hwf).bind_return fun k => [WriterCall.write k]

/-- The items of a list or a set. -/
theorem moves_serializeItems {fuel : Nat} {element : TypeDef n} {items : List Value}
    (hlen : items.length < 2 ^ 32) (f : Nat → List (List WriterCall) → List WriterCall)
    (h : ∀ v ∈ items, Moves (serializeStatic S version pass marshaled fuel element)
      (v.encodeSimple version)) :
    Moves (do
        let size ← SimpleBinary.readSize version
        let items ← repeatN size (serializeStatic S version pass marshaled fuel element)
        return f size items)
      (outputBytes (SimpleBinary.writeSize version (UInt32.ofNat items.length))
        ++ encodeSimpleItems version items) := by
  rw [SimpleBinary.encodeSimpleItems_eq]
  exact Moves.decodes_bind (SimpleBinary.decodes_readSize version _ hlen)
    ((Moves.repeatN items h).bind_return _)

/-- The pairs of a map. -/
theorem moves_serializePairs {fuel : Nat} {key : BasicType} {element : TypeDef n}
    {items : List (Value × Value)} (hlen : items.length < 2 ^ 32)
    (f : Nat → List (List WriterCall) → List WriterCall)
    (hkeys : ∀ kv ∈ items, Moves (serializeKey version (.basic key)) (kv.1.encodeSimple version))
    (h : ∀ kv ∈ items, Moves (serializeStatic S version pass marshaled fuel element)
      (kv.2.encodeSimple version)) :
    Moves (do
        let size ← SimpleBinary.readSize version
        let items ← repeatN size do
          let k ← serializeKey version (.basic key)
          let v ← serializeStatic S version pass marshaled fuel element
          return k ++ v
        return f size items)
      (outputBytes (SimpleBinary.writeSize version (UInt32.ofNat items.length))
        ++ encodeSimplePairs version items) := by
  rw [SimpleBinary.encodeSimplePairs_eq]
  refine Moves.decodes_bind (SimpleBinary.decodes_readSize version _ hlen)
    ((Moves.repeatN items fun kv hkv => ?_).bind_return _)
  exact (hkeys kv hkv).bind fun k => (h kv hkv).bind_return fun v => k ++ v

/-- To serialize a value moves over it. -/
theorem moves_serialize_schema (hmarshaled : GoesThrough S marshaled) (d : Nat) :
    (∀ (fuel : Nat) (type : TypeDef n) (v : Value), d ≤ fuel → S.HasType d type v →
      Moves (serializeStatic S version pass marshaled fuel type) (v.encodeSimple version)) ∧
    (∀ (fuel : Nat) (base : Bool) (i : Fin n) (s : StructValue), d ≤ fuel → S.HasStruct d i s →
      Moves (applySerializer S version pass marshaled fuel base i) (s.encodeSimple version)) := by
  induction d with
  | zero =>
      constructor
      · rintro _ _ _ _ ⟨⟩
      · rintro _ _ _ _ _ ⟨⟩
  | succ d ih =>
      obtain ⟨htype, hstruct⟩ := ih
      constructor
      · intro fuel type v hd h
        obtain ⟨fuel, rfl⟩ : ∃ k, fuel = k + 1 := ⟨fuel - 1, by omega⟩
        have hle : d ≤ fuel := Nat.le_of_succ_le_succ hd
        have hv := h
        cases h with
        | basic v hwf =>
            rw [serializeStatic, Value.encodeSimple]
            exact ⟨_, (SimpleBinary.decodes_read version v hwf).bind_return
              fun v => [WriterCall.write v]⟩
        | list hlen h =>
            rw [serializeStatic, Value.encodeSimple]
            exact moves_serializeItems version pass hlen
              (fun size items =>
                .writeContainerBegin (UInt32.ofNat size) (TypeDef.id _) :: items.flatten)
              fun v hv => htype _ _ v hle (h v hv)
        | set hlen h =>
            rw [serializeStatic, Value.encodeSimple]
            exact moves_serializeItems version pass hlen
              (fun size items =>
                .writeContainerBegin (UInt32.ofNat size) (TypeDef.id _) :: items.flatten)
              fun v hv => htype _ _ v hle (h v hv)
        | map hlen hkeys h =>
            rw [serializeStatic, Value.encodeSimple]
            refine moves_serializePairs version pass hlen
              (fun size items => .writeContainerBeginPair (UInt32.ofNat size) (TypeDef.id _)
                (TypeDef.id _) :: items.flatten) (fun kv hkv => ?_)
              fun kv hkv => htype _ _ kv.2 hle (h kv hkv)
            have hkey := hkeys kv hkv
            generalize kv.1 = k at hkey
            obtain ⟨x, hx⟩ := hkey
            exact ⟨_, decodes_serializeKey version x hx⟩
        | struct h =>
            rw [serializeStatic, Value.encodeSimple]
            exact hstruct _ false _ _ hle h
        | @bonded _ i _ hi marshalVersion s hs hwf hlen =>
            obtain ⟨calls, hcalls⟩ := hmarshaled _ _ _ hv
            rw [serializeStatic, Value.encodeSimple, ← List.append_nil (outputBytes _)]
            exact ⟨calls, (SimpleBinary.decodes_readBlob _ hlen).bind_pure hcalls⟩
      · intro fuel base i s hd h
        obtain ⟨fuel, rfl⟩ : ∃ k, fuel = k + 1 := ⟨fuel - 1, by omega⟩
        have hle : d ≤ fuel := Nat.le_of_succ_le_succ hd
        have hnull := (decodes_skip_schema version (d + 1)).2 (fuel + 1) i s hd h
        obtain ⟨is, hi⟩ := h.hierarchy
        rcases h with ⟨hbase, hids, h⟩ | ⟨hbase, hj, hids, h⟩
        · rw [StructValue.encodeSimple, ← List.nil_append (encodeSimpleFields _ _)] at hnull ⊢
          exact moves_applySerializer_succ version pass hi (.inl ⟨hbase, rfl⟩) hids hnull
            fun p hp => htype _ _ _ hle (h p hp)
        · rw [StructValue.encodeSimple] at hnull ⊢
          exact moves_applySerializer_succ version pass hi
            (.inr ⟨_, hbase, hstruct _ true _ _ hle hj⟩) hids hnull
            fun p hp => htype _ _ _ hle (h p hp)

end

/-! ## One handle -/

section

variable {S : SchemaDef n} (version : SimpleBinary.Version) {fuel d : Nat}
  {marshaled : Fin n → Reader (List WriterCall)}

/-- A `value`, whatever is done with it. -/
theorem decodes_useStaticValue {type : TypeDef n} {v : Value} (hv : S.HasType d type v)
    (hle : d ≤ fuel) {use : StaticValueUse n} (h : use.Safe S marshaled) :
    Decodes (settle (nothrow (skipSchema S version fuel type))
        (useStaticValue S version marshaled fuel type use))
      (v.encodeSimple version) (pure []) := by
  have hskip := (decodes_skip_schema version d).1 fuel type v hle hv
  cases use with
  | ignore => exact Decodes.settle_leave (decodes_nothrow hskip) []
  | skip => exact Decodes.settle_pay (hskip.bind_return fun _ => [])
  | deserialize keep =>
      have hread := (decodes_deserialize_schema version keep d).1 fuel [] type v hle hv
      exact Decodes.settle_pay (hread.bind_return fun _ => [])
  | serialize pass =>
      obtain ⟨calls, hwrite⟩ := (moves_serialize_schema version pass h d).1 fuel type v hle hv
      exact Decodes.settle_pay (hwrite.bind_return fun _ => [])

/-- A `bonded` of a struct or a base, whatever is done with it. -/
theorem decodes_useStaticBonded (base : Bool) {i : Fin n} {s : StructValue}
    (hs : S.HasStruct d i s) (hle : d ≤ fuel) {use : StaticBondedUse n} (h : use.Safe S marshaled)
    {nested : Reader (List Entry)}
    (hnested : use = .apply → ∃ entries,
      Decodes nested (s.encodeSimple version) (pure entries) ∧
        List.Forall₂ (StaticAccounts S version) entries (staticHandedBy S i s)) :
    ∃ entries, Decodes (settle (nothrow do let _ ← applyNull S version fuel i)
        (useStaticBonded S version marshaled fuel base i nested use))
        (s.encodeSimple version) (pure entries) ∧
      (entries = [] ∨ List.Forall₂ (StaticAccounts S version) entries (staticHandedBy S i s)) := by
  have hnull := (decodes_skip_schema version d).2 fuel i s hle hs
  have hskip := decodes_nothrow (hnull.bind_return fun _ => ())
  cases use with
  | ignore => exact ⟨[], Decodes.settle_leave hskip [], .inl rfl⟩
  | keep => exact ⟨[], Decodes.settle_leave hskip [], .inl rfl⟩
  | skip => exact ⟨[], Decodes.settle_pay (hnull.bind_return fun _ => []), .inl rfl⟩
  | deserialize keep =>
      have hread := (decodes_deserialize_schema version keep d).2 fuel [] i s hle hs
      exact ⟨[], Decodes.settle_pay (hread.bind_return fun _ => []), .inl rfl⟩
  | serialize pass firstPass =>
      obtain ⟨rfl, h⟩ := h
      obtain ⟨calls, hwrite⟩ := (moves_serialize_schema version pass h d).2 fuel base i s hle hs
      exact ⟨[], Decodes.settle_pay (hwrite.bind_return fun _ => []), .inl rfl⟩
  | apply =>
      obtain ⟨entries, hread, hentries⟩ := hnested rfl
      exact ⟨entries, Decodes.settle_pay hread, .inr hentries⟩

/-- A `bonded` of a marshaled payload, whatever is done with it. -/
theorem decodes_useMarshaled {i : Fin n} {v : Value} (hv : S.HasType d (.struct i true) v)
    (hle : d ≤ fuel) {use : StaticBondedUse n} (h : use.SafeMarshaled S marshaled) :
    Decodes (settle (nothrow (skipSchema S version fuel (.struct i true)))
        (useMarshaled S version marshaled fuel i use))
      (v.encodeSimple version) (pure []) := by
  have hskip := (decodes_skip_schema version d).1 fuel _ v hle hv
  have hin (h : GoesThrough S marshaled) : Decodes (do
      let blob ← SimpleBinary.readBlob
      let _ ← withInput blob (marshaled i)
      return ([] : List Entry)) (v.encodeSimple version) (pure []) := by
    have hpayload := hv
    cases hv with
    | bonded hi marshalVersion s hs hwf hlen =>
    obtain ⟨calls, hcalls⟩ := h _ _ _ hpayload
    rw [Value.encodeSimple, ← List.append_nil (outputBytes _)]
    exact (SimpleBinary.decodes_readBlob _ hlen).bind_pure (hcalls.bind_return fun _ => [])
  cases use with
  | ignore => exact Decodes.settle_leave (decodes_nothrow hskip) []
  | skip => exact Decodes.settle_pay (hskip.bind_return fun _ => [])
  | keep =>
      have hread := (decodes_deserialize_schema version (fun _ => true) d).1 fuel [] _ v hle hv
      exact Decodes.settle_pay (hread.bind_return fun _ => [])
  | deserialize keep => exact Decodes.settle_pay (hin h)
  | serialize pass firstPass => exact Decodes.settle_pay (hin h)
  | apply => exact Decodes.settle_pay (hin h)

end

/-! ## All handles of an application -/

/-- Applied to a struct nested no deeper than `bound`, the transform is handed what it should be, and each
    handle moves the reader over what it stands for. -/
def AppliesStaticOnce (S : SchemaDef n) (version : SimpleBinary.Version) (uses : StaticUses n)
    (apply : Fin n → List Nat → Reader (List Entry)) (bound : Nat) : Prop :=
  ∀ (d : Nat) (i : Fin n) (path : List Nat) (s : StructValue), d ≤ bound → S.HasStruct d i s →
    uses.SafeRun S path 0 (staticHandedBy S i s) →
    ∃ entries, Decodes (apply i path) (s.encodeSimple version) (pure entries) ∧
      List.Forall₂ (StaticAccounts S version) entries (staticHandedBy S i s)

section

variable {S : SchemaDef n} {version : SimpleBinary.Version} {uses : StaticUses n}
  {nested : Fin n → List Nat → Reader (List Entry)} {fuel d : Nat} {path : List Nat}

theorem staticSafeRun_of_apply {handed : List (StaticHanded n)}
    (h : ∀ k x, handed[k]? = some x → uses.Safe S (k :: path) x) : uses.SafeRun S path 0 handed := by
  intro k x hk
  rw [Nat.zero_add]
  exact h k x hk

/-- The handle of a field. -/
theorem AppliesStaticOnce.runsTo_field (h : AppliesStaticOnce S version uses nested fuel)
    {field : FieldDef n} {v : Value} (hv : S.HasType d field.type v) (hle : d ≤ fuel)
    {entries : List Entry} (hsafe : uses.Safe S (entries.length :: path) (.field field.type v)) :
    ∃ entry, RunsTo ((staticHanding S version uses fuel nested path).field field) entries
        (v.encodeSimple version) false (entries ++ [entry]) ∧
      StaticAccounts S version entry (.field field.type v) := by
  obtain ⟨metadata, id, type⟩ := field
  dsimp only at hv hsafe ⊢
  have hwhole : StaticAccounts S version _ _ := .whole (.field type v)
  cases hsafe with
  | value htype hsafe =>
      have huse := decodes_useStaticValue version hv hle hsafe
      refine ⟨_, ?_, hwhole⟩
      cases type with
      | struct i bondedType => exact absurd rfl (htype i bondedType)
      | _ => exact RunsTo.bind_nil (runsTo_hand huse) (RunsTo.pure false _)
  | marshaled hsafe =>
      have huse := decodes_useMarshaled version hv hle hsafe
      exact ⟨_, RunsTo.bind_nil (runsTo_hand huse) (RunsTo.pure false _), hwhole⟩
  | @struct _ i s hsafe happly =>
      cases hv with
      | @struct d _ _ hs =>
      obtain ⟨entries', hread, haccounts⟩ := decodes_useStaticBonded version false hs
        (Nat.le_of_succ_le hle) hsafe fun huse =>
          h d i (entries.length :: path) s (Nat.le_of_succ_le hle) hs
            (staticSafeRun_of_apply (happly huse))
      refine ⟨_, RunsTo.bind_nil (runsTo_hand hread) (RunsTo.pure false _), ?_⟩
      rcases haccounts with rfl | haccounts
      · exact hwhole
      · exact .applied haccounts

/-- What has been handed up to now, behind what has been handed before. -/
def StaticHandedSince (S : SchemaDef n) (version : SimpleBinary.Version) (before : List Entry)
    (handed : List (StaticHanded n)) (entries : List Entry) : Prop :=
  ∃ new, entries = before ++ new ∧ List.Forall₂ (StaticAccounts S version) new handed

/-- The fields of the struct, one after the other. -/
theorem AppliesStaticOnce.runsTo_fields (h : AppliesStaticOnce S version uses nested fuel)
    {fields : List (FieldDef n)} {fs : Fields} (hids : fs.map Prod.fst = fields.map FieldDef.id)
    (hfields : ∀ p ∈ fields.zip fs, S.HasType d p.1.type p.2.2) (hle : d ≤ fuel)
    (before : List Entry)
    (hsafe : uses.SafeRun S path before.length (staticHandedFields fields fs)) :
    ∃ entries, RunsTo (StaticParser.readFields (staticHanding S version uses fuel nested path) fields)
        before (encodeSimpleFields version fs) false entries ∧
      StaticHandedSince S version before (staticHandedFields fields fs) entries := by
  refine StaticParser.exists_runsTo_readFields (fun done entries => StaticHandedSince S version before
    (done.map fun p => .field p.1.type p.2.2) entries) (StaticParser.length_eq hids) ?_
    ⟨[], (List.append_nil before).symm, .nil⟩
  rintro p done todo hsplit entries ⟨new, rfl, hnew⟩
  have hp : p ∈ fields.zip fs := by
    rw [hsplit]
    exact List.mem_append_right _ List.mem_cons_self
  have hplace : (before ++ new).length = before.length + done.length := by
    rw [List.length_append, hnew.length_eq, List.length_map]
  have huse := hsafe done.length (.field p.1.type p.2.2) (by
    rw [staticHandedFields, hsplit]
    simp)
  rw [← hplace] at huse
  obtain ⟨entry, hrun, haccounts⟩ := h.runsTo_field (hfields p hp) hle huse
  refine ⟨_, hrun, new ++ [entry], List.append_assoc _ _ _, ?_⟩
  rw [List.map_append]
  exact List.rel_append hnew (.cons haccounts .nil)

/-- The handle of the base. -/
theorem AppliesStaticOnce.runsTo_base (h : AppliesStaticOnce S version uses nested fuel)
    {j : Fin n} {s : StructValue} (hs : S.HasStruct d j s) (hle : d ≤ fuel)
    (hsafe : uses.SafeRun S path 0 [.base j s]) :
    ∃ entry, RunsTo ((staticHanding S version uses fuel nested path).base j) []
        (s.encodeSimple version) false [entry] ∧
      StaticAccounts S version entry (.base j s) := by
  have hwhole : StaticAccounts S version _ _ := .whole (.base j s)
  have huse := hsafe 0 (.base j s) rfl
  cases huse with
  | base hsafe happly =>
  obtain ⟨entries, hread, haccounts⟩ := decodes_useStaticBonded version true hs hle hsafe
    fun huse => h d j (0 :: path) s hle hs (staticSafeRun_of_apply (happly huse))
  refine ⟨_, RunsTo.bind_nil (runsTo_hand hread) (RunsTo.pure false _), ?_⟩
  rcases haccounts with rfl | haccounts
  · exact hwhole
  · exact .appliedBase haccounts

/-- One level of a struct, with its base, once both have been handed. -/
theorem decodes_applyStaticHanding_succ {i : Fin n} {is : List (Fin n)} (hi : S.Hierarchy i is)
    {enc enc' : List UInt8} {entries entries' : List Entry}
    (hbase : RunsTo (match (S.structs i).baseDef with
      | none => pure false
      | some j => (staticHanding S version uses fuel (applyStaticHanding S version uses fuel)
          path).base j) [] enc false entries)
    (hfields : RunsTo (StaticParser.readFields
      (staticHanding S version uses fuel (applyStaticHanding S version uses fuel) path)
      (S.structs i).fields) entries enc' false entries') :
    Decodes (applyStaticHanding S version uses (fuel + 1) i path) (enc ++ enc') (pure entries') := by
  obtain ⟨k, rfl⟩ : ∃ k, n = k + 1 := ⟨n - 1, by have hlt := i.isLt; omega⟩
  have hread := StaticParser.runsTo_read (nullFor S version fuel) (k := k) hi.schemaDepth
    (not_depth_gt_max _) (RunsTo.pure () ([] : List Entry)) hbase hfields (RunsTo.pure () _)
  rw [applyStaticHanding]
  exact Decodes.bind_return hread fun result => result.2

theorem appliesStaticOnce_applyStaticHanding (fuel : Nat) :
    AppliesStaticOnce S version uses (applyStaticHanding S version uses fuel) fuel := by
  induction fuel with
  | zero =>
      rintro d i path s hle ⟨⟩
      · exact absurd hle (Nat.not_succ_le_zero _)
      · exact absurd hle (Nat.not_succ_le_zero _)
  | succ fuel ih =>
      intro d i path s hle hs hsafe
      obtain ⟨is, hi⟩ := hs.hierarchy
      rcases hs with ⟨hbase, hids, h⟩ | ⟨hbase, hj, hids, h⟩
      · obtain ⟨entries, hfields, new, rfl, hnew⟩ :=
          ih.runsTo_fields hids h (Nat.le_of_succ_le_succ hle) [] hsafe
        refine ⟨_, ?_, hnew⟩
        rw [StructValue.encodeSimple, ← List.nil_append (encodeSimpleFields _ _)]
        refine decodes_applyStaticHanding_succ hi ?_ hfields
        rw [hbase]
        exact RunsTo.pure false []
      · rename_i d j base fs
        have hhanded : staticHandedBy S i (.derived base fs) =
            [.base j base] ++ staticHandedFields (S.structs i).fields fs := by
          rw [staticHandedBy, hbase]
          rfl
        rw [hhanded] at hsafe ⊢
        obtain ⟨hsafe₁, hsafe₂⟩ :=
          numbered_append (P := fun k => uses.Safe S (k :: path)) hsafe
        obtain ⟨entry, hrun, haccounts⟩ := ih.runsTo_base hj (Nat.le_of_succ_le_succ hle) hsafe₁
        obtain ⟨entries, hfields, new, rfl, hnew⟩ :=
          ih.runsTo_fields hids h (Nat.le_of_succ_le_succ hle) [entry] hsafe₂
        refine ⟨_, ?_, .cons haccounts hnew⟩
        rw [StructValue.encodeSimple]
        refine decodes_applyStaticHanding_succ hi ?_ hfields
        rw [hbase]
        exact hrun

end

/-! ## Runs of both parsers -/

/-- A parsing run over the encoding: it ends right behind it, and its handles are as they should be. -/
def AdvancesOnce (run : Reader (List Entry)) (enc : List UInt8) (accounts : List Entry → Prop) : Prop :=
  ∀ (b : InputBuffer) (rest : List UInt8), remaining b = enc ++ rest →
    ∃ entries, run.run b = .ok (entries, advance b enc.length) ∧ accounts entries

/-- In a run in which a transform does nothing unsafe with what it is handed, each handle has moved the
    parser's reader over its value once when the parser goes on: for the tagged protocols, and for a
    payload without tags. -/
theorem handles_advance_once {m : Nat} (tagged : TaggedBinary) (version : SimpleBinary.Version)
    (debug : Bool) (C : CppSchema m) (hC : C.schemaDef.Grounded) (S : SchemaDef n) (i : Fin n)
    (s : StructValue) :
    (∀ (time : SchemaTime) (uses : Uses m), FieldOf S (.struct i false) (.struct s) →
      uses.SafeRun C [] 0 (handedBy S time false i s.levels) →
      AdvancesOnce (parseHanding tagged.protocol.reader debug C uses S time i)
        ((Value.struct s).encode tagged.protocol.writer) fun entries =>
          List.Forall₂ (Accounts tagged.protocol.writer) entries (handedBy S time false i s.levels)) ∧
    (∀ (uses : StaticUses n) (d fuel : Nat), S.HasStruct d i s → d ≤ fuel →
      uses.SafeRun S [] 0 (staticHandedBy S i s) →
      AdvancesOnce (applyStaticHanding S version uses fuel i []) (s.encodeSimple version) fun entries =>
        List.Forall₂ (StaticAccounts S version) entries (staticHandedBy S i s)) := by
  constructor
  · intro time uses hs hsafe b rest hb
    exact parseHanding_advances tagged.plain hC hs hsafe hb
  · intro uses d fuel hs hle hsafe b rest hb
    obtain ⟨entries, hread, haccounts⟩ :=
      appliesStaticOnce_applyStaticHanding fuel d i [] s hle hs hsafe
    exact ⟨entries, hread b rest hb, haccounts⟩

/-! ### Handles that are left, and parsed twice -/

/-- A value of `Derived` with some of its fields; in a tagged protocol a `bonded` is a struct. -/
def taggedDerived : StructValue :=
  .derived untaggedBase [(3, .struct untaggedBase), (4, .basic (.string [98]))]

theorem schemaUntagged_hierarchy : schemaUntagged.Hierarchy 1 [0, 1] :=
  .derived (by decide) (.root (by decide))

theorem untaggedBase_ordered : (Value.struct untaggedBase).Ordered := by
  refine .struct (by decide) fun fs hfs f hf => ?_
  obtain rfl := List.mem_singleton.1 hfs
  obtain rfl := List.mem_singleton.1 hf
  exact .basic _

theorem untaggedBase_covers (bondedType : Bool) :
    schemaUntagged.Covers (.struct 0 bondedType) (.struct untaggedBase) := by
  refine .struct (.root (by decide)) (by decide) fun p hp field _ f hf _ _ => ?_
  obtain rfl := List.mem_singleton.1 hp
  obtain rfl := List.mem_singleton.1 hf
  exact .basic _

theorem taggedDerived_fieldOf :
    FieldOf schemaUntagged (.struct 1 false) (.struct taggedDerived) where
  grounded
    | 0 => ⟨[0], .root (by decide), by decide⟩
    | 1 => ⟨[0, 1], schemaUntagged_hierarchy, by decide⟩
  id_eq := rfl
  wellFormed := by decide
  ordered := by
    refine .struct (by decide) fun fs hfs f hf => ?_
    rcases hfs with _ | ⟨_, _ | ⟨_, ⟨⟩⟩⟩
    · obtain rfl := List.mem_singleton.1 hf
      exact .basic _
    · rcases hf with _ | ⟨_, _ | ⟨_, ⟨⟩⟩⟩
      · exact untaggedBase_ordered
      · exact .basic _
  covers := by
    refine .struct schemaUntagged_hierarchy (by decide) fun p hp field hfield f hf hid htype => ?_
    rcases hp with _ | ⟨_, _ | ⟨_, ⟨⟩⟩⟩
    · obtain rfl := List.mem_singleton.1 hf
      exact .basic _
    · have hbonded : ∀ field ∈ (schemaUntagged.structs 1).fields, field.id = 3 →
          field.type = .struct 0 true := by
        decide
      rcases hf with _ | ⟨_, _ | ⟨_, ⟨⟩⟩⟩
      · rw [hbonded field hfield hid]
        exact untaggedBase_covers true
      · exact .basic _

/-- A transform that leaves all values to their handles; what it does with a base, and with any other
    `bonded`. -/
def leaving (base bonded : BondedUse 2) : Uses 2 where
  value _ := .ignore
  bonded
    | [0] => base
    | _ => bonded

/-- The run over the struct as a payload of Fast Binary -/
def parseDerived (uses : Uses 2) : Reader (List Entry) :=
  parseHanding fastBinary.reader false nullableStructs uses schemaUntagged .compileTime 1

/-- What the run should do -/
def DerivedAdvances (uses : Uses 2) : Prop :=
  AdvancesOnce (parseDerived uses) ((Value.struct taggedDerived).encode fastBinary.writer)
    fun entries => List.Forall₂ (Accounts fastBinary.writer) entries
      (handedBy schemaUntagged .compileTime false 1 taggedDerived.levels)

/-- How many handles there have been, and how many bytes are left, with one byte behind the struct -/
def outcome (uses : Uses 2) : Option (Nat × Nat) :=
  ((parseDerived uses).run (.ofBlob ((Value.struct taggedDerived).encode fastBinary.writer ++ [0])
    (by decide))).toOption.map fun result => (result.1.length, (remaining result.2).length)

theorem outcome_of_derivedAdvances {uses : Uses 2} (h : DerivedAdvances uses) :
    outcome uses = some (3, 1) := by
  obtain ⟨entries, hrun, haccounts⟩ := h (.ofBlob ((Value.struct taggedDerived).encode
    fastBinary.writer ++ [0]) (by decide)) [0] rfl
  have hlength := haccounts.length_eq
  unfold outcome
  rw [hrun]
  show some (entries.length, _) = _
  rw [hlength]
  rfl

/-- If the base is left to its handle, the handle skips the rest of the struct, and the parser takes what
    is behind the struct for its fields. A `bonded` that is serialized with a first pass takes the fields
    behind it along. -/
theorem not_derivedAdvances :
    FieldOf schemaUntagged (.struct 1 false) (.struct taggedDerived) ∧
      ¬ DerivedAdvances (leaving .ignore .ignore) ∧
      ¬ DerivedAdvances (leaving .apply (.serialize false true)) := by
  refine ⟨taggedDerived_fieldOf, fun h => ?_, fun h => ?_⟩
  · have hbase : outcome (leaving .ignore .ignore) = some (1, 0) := by decide +kernel
    have hadvances := hbase.symm.trans (outcome_of_derivedAdvances h)
    revert hadvances
    decide
  · have htwice : outcome (leaving .apply (.serialize false true)) = some (2, 0) := by
      decide +kernel
    have hadvances := htwice.symm.trans (outcome_of_derivedAdvances h)
    revert hadvances
    decide

theorem leaving_safe {n : Nat} {S : SchemaDef n} {time : SchemaTime} {i : Fin n} {bondedType : Bool}
    {s : StructValue} {k : Nat} {path : List Nat} (h : (k :: path) ≠ [0]) :
    (leaving .apply .ignore).Safe nullableStructs (k :: path)
      (.field S time (.struct i bondedType) (.struct s)) := by
  have huse : (leaving .apply .ignore).bonded (k :: path) = .ignore := by
    unfold leaving
    dsimp only
    split
    · next h' => exact absurd h' h
    · rfl
  refine .struct ?_ fun happly => ?_
  · rw [huse]
    trivial
  · rw [huse] at happly
    cases happly

theorem leaving_safe_basic {n : Nat} {S : SchemaDef n} {time : SchemaTime} {T : BasicType} {v : Value}
    {place : List Nat} :
    (leaving .apply .ignore).Safe nullableStructs place (.field S time (.basic T) v) :=
  .value (fun _ _ h => by cases h) trivial

/-- A transform that is applied to the base may leave everything else, of a payload with tags or without. -/
theorem handles_advance_once_derived :
    DerivedAdvances (leaving .apply .ignore) ∧
      AdvancesOnce (applyStaticHanding schemaUntagged .v2
          ⟨fun _ => .ignore, fun _ => .ignore, fun _ _ => return []⟩ 5 1 [])
        (untaggedDerived.encodeSimple .v2) fun entries =>
          List.Forall₂ (StaticAccounts schemaUntagged .v2) entries
            (staticHandedBy schemaUntagged 1 untaggedDerived) := by
  have htagged := (handles_advance_once .fast .v2 false nullableStructs nullableStructs_grounded
    schemaUntagged 1 taggedDerived).1 .compileTime (leaving .apply .ignore) taggedDerived_fieldOf
  have hstatic := (handles_advance_once .fast .v2 false nullableStructs nullableStructs_grounded
    schemaUntagged 1 untaggedDerived).2 ⟨fun _ => .ignore, fun _ => .ignore, fun _ _ => return []⟩ 5 5
    untaggedDerived_hasStruct (Nat.le_refl 5)
  refine ⟨htagged fun k x hk => ?_, hstatic fun k x hk => ?_⟩
  · rcases k with _ | _ | _ | k
    · obtain rfl := Option.some.inj hk
      refine .base trivial fun _ k x hk => ?_
      rcases k with _ | k
      · obtain rfl := Option.some.inj hk
        exact leaving_safe_basic
      · cases hk
    · obtain rfl := Option.some.inj hk
      exact leaving_safe (by decide)
    · obtain rfl := Option.some.inj hk
      exact leaving_safe_basic
    · cases hk
  · rcases k with _ | _ | _ | _ | _ | k
    · obtain rfl := Option.some.inj hk
      exact .base trivial fun happly => by cases happly
    · obtain rfl := Option.some.inj hk
      exact .value (fun _ _ h => by cases h) trivial
    · obtain rfl := Option.some.inj hk
      exact .value (fun _ _ h => by cases h) trivial
    · obtain rfl := Option.some.inj hk
      exact .marshaled trivial
    · obtain rfl := Option.some.inj hk
      exact .value (fun _ _ h => by cases h) trivial
    · cases hk

end Bond.Cpp

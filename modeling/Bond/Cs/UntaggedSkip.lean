import Bond.Lib.Hereditary
import Mathlib.Data.List.ReduceOption
import Bond.Cs.UntaggedParser

set_option autoImplicit false

/-! # Skipping without tags in C#

What the untagged parser skips ends where the writer has ended it, and so what is behind it is read
right, as long as there is no `bonded` in what is skipped: a `bonded` is written as a payload of its
own, and skipped as a struct. -/

namespace Bond.Cs

open Bond.Cpp (BondDataType BasicType ListKind FieldDef TypeDef)
open Bond.Managed
open Decoder Hereditary

variable {n : Nat}

/-! ## Values of a schema -/

/-- The values of a type, nested no deeper than `d`. The fields of a struct are those of its schema,
    in their order; a `bonded` may hold any struct of which the payload fits into an array. -/
inductive RuntimeSchema.HasType (S : RuntimeSchema n) : Nat → TypeDef n → Value → Prop
  | basic {d} (v : BasicValue) (h : v.wellFormed utf8GetBytes = true) :
      HasType S (d + 1) (.basic v.type) (.basic v)
  | set {d} (element) {items} (hlen : items.length < 2 ^ 31)
      (h : ∀ v ∈ items, HasType S d element v) :
      HasType S (d + 1) (.set element) (.list .set element.id items)
  | list {d} (element) {items} (hlen : items.length < 2 ^ 31)
      (h : ∀ v ∈ items, HasType S d element v) :
      HasType S (d + 1) (.list element) (.list .list element.id items)
  | blob {d element data} (hlen : data.length < 2 ^ 31)
      (h : element = BasicType.int8 ∨ element = BasicType.uint8) :
      HasType S (d + 2) (.list (.basic element)) (.blob (.basic element) data)
  | map {d key element items} (hlen : items.length < 2 ^ 31)
      (hkeys : ∀ kv ∈ items, HasType S d key kv.1) (h : ∀ kv ∈ items, HasType S d element kv.2) :
      HasType S (d + 1) (.map key element) (.map key.id element.id items)
  | root {d i fields} (hbase : S.baseDef i = none)
      (hids : fields.map Prod.fst = (S.fields i).map FieldDef.id)
      (h : ∀ p ∈ (S.fields i).zip fields, HasType S d p.1.type p.2.2) :
      HasType S (d + 1) (.struct i false) (.struct (.root fields))
  | derived {d i j base fields} (hbase : S.baseDef i = some j)
      (hj : HasType S d (.struct j false) (.struct base))
      (hids : fields.map Prod.fst = (S.fields i).map FieldDef.id)
      (h : ∀ p ∈ (S.fields i).zip fields, HasType S d p.1.type p.2.2) :
      HasType S (d + 1) (.struct i false) (.struct (.derived base fields))
  | bonded {d i s} (hlen : (SimpleBinary.marshal s).length < 2 ^ 31) :
      HasType S (d + 1) (.struct i true) (.bonded s)

namespace UntaggedParser

/-! ## What is handed to a transform -/

section

variable (S : RuntimeSchema n) (known : Fin n → UInt16 → Bool)

mutual

/-- What a transform is handed of a value, if it knows some of the fields of each struct. -/
def handed (type : TypeDef n) : Value → Handed
  | .basic v => .scalar (SimpleBinary.scalar v)
  | .list _ _ items =>
      match type with
      | .list element | .set element => .container (handedItems element items)
      | _ => .container []
  | .blob _ data => .container (data.map fun b => .scalar (.bits b.toNat))
  | .map _ _ items =>
      match type with
      | .map key element => .map (handedPairs key element items)
      | _ => .map []
  | .struct s =>
      match type with
      | .struct i _ => .struct (handedLevels i s)
      | _ => .struct []
  | .bonded s => .bonded (SimpleBinary.marshal s)

def handedItems (element : TypeDef n) : List Value → List Handed
  | [] => []
  | v :: vs => handed element v :: handedItems element vs

def handedPairs (key element : TypeDef n) : List (Value × Value) → List (Handed × Handed)
  | [] => []
  | (k, v) :: kvs => (handed key k, handed element v) :: handedPairs key element kvs

def handedFields (i : Fin n) (fieldDefs : List (FieldDef n)) :
    List (UInt16 × Value) → List (UInt16 × Handed)
  | [] => []
  | (_, v) :: fs =>
      match fieldDefs with
      | [] => []
      | fieldDef :: fieldDefs =>
          if known i fieldDef.id then
            (fieldDef.id, handed fieldDef.type v) :: handedFields i fieldDefs fs
          else
            handedFields i fieldDefs fs

def handedLevels (i : Fin n) : StructValue → List (List (UInt16 × Handed))
  | .root fields => [handedFields i (S.fields i) fields]
  | .derived base fields =>
      match S.baseDef i with
      | some j => handedLevels j base ++ [handedFields i (S.fields i) fields]
      | none => [handedFields i (S.fields i) fields]

end

theorem handedItems_eq (element : TypeDef n) (vs : List Value) :
    handedItems S known element vs = vs.map (handed S known element) := by
  induction vs with
  | nil => rfl
  | cons v vs ih => rw [handedItems, ih, List.map_cons]

theorem handedPairs_eq (key element : TypeDef n) (kvs : List (Value × Value)) :
    handedPairs S known key element kvs
      = kvs.map fun kv => (handed S known key kv.1, handed S known element kv.2) := by
  induction kvs with
  | nil => rfl
  | cons kv kvs ih => rw [handedPairs, ih, List.map_cons]

/-- What is handed over for a field of a struct. -/
def handedField (i : Fin n) (p : FieldDef n × UInt16 × Value) : Option (UInt16 × Handed) :=
  if known i p.1.id then some (p.1.id, handed S known p.1.type p.2.2) else none

theorem handedFields_eq (i : Fin n) (fieldDefs : List (FieldDef n)) (fs : Fields) :
    handedFields S known i fieldDefs fs
      = ((fieldDefs.zip fs).map (handedField S known i)).reduceOption := by
  induction fs generalizing fieldDefs with
  | nil => rw [handedFields, List.zip_nil_right, List.map_nil, List.reduceOption_nil]
  | cons f fs ih =>
      cases fieldDefs with
      | nil => simp [handedFields]
      | cons fieldDef fieldDefs =>
          rw [handedFields, List.zip_cons_cons, List.map_cons, handedField]
          by_cases hknown : known i fieldDef.id = true
          · rw [if_pos hknown, if_pos hknown, List.reduceOption_cons_of_some, ih]
          · rw [if_neg hknown, if_neg hknown, List.reduceOption_cons_of_none, ih]

end

/-! ## What is read and what is skipped -/

inductive Mode where
  | read | skip
deriving DecidableEq, Repr

/-- A value in a payload, and what the parser has to do with it. -/
structure Task (n : Nat) where
  mode : Mode
  type : TypeDef n
  v : Value

section

variable (S : RuntimeSchema n) (version : UInt16) (known : Fin n → UInt16 → Bool)

/-- A field of a struct that is read is read if it is known, and skipped otherwise. -/
def fieldMode (mode : Mode) (i : Fin n) (fieldDef : FieldDef n) : Mode :=
  if mode = .read ∧ known i fieldDef.id = true then .read else .skip

def fieldTasks (mode : Mode) (i : Fin n) (fs : Fields) : List (Task n) :=
  ((S.fields i).zip fs).map fun p => ⟨fieldMode known mode i p.1, p.1.type, p.2.2⟩

namespace Task

/-- The tasks that are part of a task. -/
def children : Task n → List (Task n)
  | ⟨mode, .list element, .list _ _ items⟩ => items.map fun v => ⟨mode, element, v⟩
  | ⟨mode, .set element, .list _ _ items⟩ => items.map fun v => ⟨mode, element, v⟩
  | ⟨mode, .map key element, .map _ _ items⟩ =>
      items.flatMap fun kv => [⟨mode, key, kv.1⟩, ⟨mode, element, kv.2⟩]
  | ⟨mode, .struct i _, .struct (.root fields)⟩ => fieldTasks S known mode i fields
  | ⟨mode, .struct i _, .struct (.derived base fields)⟩ =>
      (match S.baseDef i with
        | some j => [⟨mode, .struct j false, .struct base⟩]
        | none => [])
        ++ fieldTasks S known mode i fields
  | _ => []

/-- A `bonded` is not skipped. -/
def Fits (task : Task n) : Prop :=
  task.mode = .skip → task.type.bondedType = false

instance (task : Task n) : Decidable task.Fits :=
  inferInstanceAs (Decidable (_ → _))

/-- A task is done right: all that is written for the value is consumed, and what is read is handed
    to the transform. -/
def Exact (fuel : Nat) : Task n → Prop
  | ⟨.skip, type, v⟩ =>
      Decodes (skip S version fuel type) (SimpleBinary.encode version v) (pure ())
  | ⟨.read, type, v⟩ =>
      Decodes (read S version known fuel type) (SimpleBinary.encode version v)
        (pure (handed S known type v))

end Task

end

/-! ## The parts of the parser -/

section

variable {S : RuntimeSchema n} {version : UInt16}

/-- As many turns as there are items. -/
theorem decodes_while {ι β : Type} {body : Reader β} {enc : ι → List UInt8} {g : ι → β}
    {items : List ι} (hlen : items.length < 2 ^ 31)
    (h : ∀ item ∈ items, Decodes body (enc item) (pure (g item))) :
    Decodes (while_ (Int32.ofNat items.length) body) (items.flatMap enc)
      (pure (items.map g)) := by
  unfold while_
  rw [Int32.toInt_ofNat_of_lt hlen, Int.toNat_natCast]
  exact Decodes.repeatN_pure items h

theorem decodes_applyBase_none {β γ : Type} (transform : Transform n β γ) {i : Fin n}
    (hbase : S.baseDef i = none) : Decodes (applyBase S transform i) [] (pure none) := by
  unfold applyBase
  rw [hbase]
  exact Decodes.pure none

theorem decodes_applyBase_some {β γ : Type} (transform : Transform n β γ) {i j : Fin n}
    {enc : List UInt8} {base : β} (hbase : S.baseDef i = some j)
    (hread : Decodes (transform.base j) enc (pure base)) :
    Decodes (applyBase S transform i) enc (pure (some base)) := by
  unfold applyBase
  rw [hbase]
  exact hread.bind_return some

/-- The fields of a struct, and its base in front of them. -/
theorem decodes_apply {β γ : Type} {skip : TypeDef n → Reader Unit} {transform : Transform n β γ}
    {i : Fin n} {fs : Fields} {enc : List UInt8} {base : Option β}
    {g : FieldDef n × UInt16 × Value → Option γ}
    (hbase : Decodes (applyBase S transform i) enc (pure base))
    (hids : fs.map Prod.fst = (S.fields i).map FieldDef.id)
    (hfields : ∀ p ∈ (S.fields i).zip fs,
      Decodes (field skip transform p.1) (SimpleBinary.encode version p.2.2) (pure (g p))) :
    Decodes (apply S skip transform i) (enc ++ SimpleBinary.encodeFields version fs)
      (pure (base, ((S.fields i).zip fs).map g)) := by
  have hlength : (S.fields i).length = fs.length := by
    have hlength := congrArg List.length hids
    simpa using hlength.symm
  have hread := Decodes.mapM_pure ((S.fields i).zip fs) hfields
  have hdefs : ((S.fields i).zip fs).map Prod.fst = S.fields i :=
    List.map_fst_zip (Nat.le_of_eq hlength)
  have hvalues : ((S.fields i).zip fs).map Prod.snd = fs :=
    List.map_snd_zip (Nat.le_of_eq hlength.symm)
  have hmapM : ((S.fields i).zip fs).mapM (fun p => field skip transform p.1)
      = (S.fields i).mapM (field skip transform) := by
    conv_rhs => rw [← hdefs, List.mapM_map]
    rfl
  have hencode : ((S.fields i).zip fs).flatMap (fun p => SimpleBinary.encode version p.2.2)
      = SimpleBinary.encodeFields version fs := by
    rw [SimpleBinary.encodeFields_eq]
    conv_rhs => rw [← hvalues, List.flatMap_map]
  rw [hmapM, hencode] at hread
  exact hbase.bind_pure (hread.bind_return fun fields => (base, fields))

/-- One-byte integers are written as they are. -/
theorem encode_byte_length {d : Nat} {element : TypeDef n} {v : Value}
    (h : element.id = .basic .uint8 ∨ element.id = .basic .int8) (hv : S.HasType d element v) :
    (SimpleBinary.encode version v).length = 1 := by
  cases hv with
  | basic v =>
      simp only [TypeDef.id, BondDataType.basic.injEq] at h
      cases v with
      | uint8 | int8 => rfl
      | _ => simp [BasicValue.type] at h
  | _ => simp [TypeDef.id] at h

/-! ## One task after the tasks in it -/

variable {known : Fin n → UInt16 → Bool} {fuel : Nat} {mode : Mode}

theorem Task.exact_basic {v : BasicValue} (h : v.wellFormed utf8GetBytes = true) :
    Task.Exact S version known (fuel + 1) ⟨mode, .basic v.type, .basic v⟩ := by
  cases mode with
  | read => exact (SimpleBinary.decodes_read version h).bind_return Handed.scalar
  | skip => exact SimpleBinary.decodes_skipBasic version h

theorem Task.exact_set {element : TypeDef n} {items : List Value} (hlen : items.length < 2 ^ 31)
    (h : ∀ v ∈ items, Task.Exact S version known fuel ⟨mode, element, v⟩) :
    Task.Exact S version known (fuel + 1) ⟨mode, .set element, .list .set element.id items⟩ := by
  have hlength := SimpleBinary.decodes_readLength version hlen
  cases mode with
  | read =>
      have hitems := decodes_while hlen h
      rw [← handedItems_eq, ← SimpleBinary.encodeItems_eq] at hitems
      exact hlength.bind_pure (hitems.bind_return Handed.container)
  | skip =>
      have hitems := (decodes_while (g := fun _ => ()) hlen h).bind_return fun _ => ()
      rw [← SimpleBinary.encodeItems_eq] at hitems
      exact hlength.bind_pure hitems

theorem Task.exact_list {d : Nat} {element : TypeDef n} {items : List Value}
    (hlen : items.length < 2 ^ 31) (hitems : ∀ v ∈ items, S.HasType d element v)
    (h : ∀ v ∈ items, Task.Exact S version known fuel ⟨mode, element, v⟩) :
    Task.Exact S version known (fuel + 1) ⟨mode, .list element, .list .list element.id items⟩ := by
  have hlength := SimpleBinary.decodes_readLength version hlen
  cases mode with
  | read =>
      have hread := decodes_while hlen h
      rw [← handedItems_eq, ← SimpleBinary.encodeItems_eq] at hread
      exact hlength.bind_pure (hread.bind_return Handed.container)
  | skip =>
      show Decodes (skip S version (fuel + 1) (.list element))
        (SimpleBinary.encode version (.list .list element.id items)) (pure ())
      rw [skip, SimpleBinary.encode]
      refine hlength.bind_pure ?_
      split
      · next hbyte =>
          -- the items are as many bytes as they are items
          have hbytes : (SimpleBinary.encodeItems version items).length = items.length := by
            rw [SimpleBinary.encodeItems_eq, List.length_flatMap]
            have hone : items.map (fun v => (SimpleBinary.encode version v).length)
                = items.map fun _ => 1 :=
              List.map_congr_left fun v hv => encode_byte_length hbyte (hitems v hv)
            rw [hone]
            simp
          rw [← hbytes] at hlen ⊢
          exact InputBuffer.decodes_skipBytes hlen
      · have hskip := (decodes_while (g := fun _ => ()) hlen h).bind_return fun _ => ()
        rw [← SimpleBinary.encodeItems_eq] at hskip
        exact hskip

theorem Task.exact_blob {element : BasicType} {data : List UInt8} (hlen : data.length < 2 ^ 31)
    (h : element = .int8 ∨ element = .uint8) :
    Task.Exact S version known (fuel + 2)
      ⟨mode, .list (.basic element), .blob (.basic element) data⟩ := by
  have hlength := SimpleBinary.decodes_readLength version hlen
  cases mode with
  | read =>
      have hbyte (b : UInt8) : Decodes (read S version known (fuel + 1) (.basic element)) [b]
          (pure (.scalar (.bits b.toNat))) := by
        have hread := (InputBuffer.decodes_readUInt8 b).bind_return fun b =>
          SimpleBinary.Scalar.bits b.toNat
        rcases h with rfl | rfl
        · exact hread.bind_return Handed.scalar
        · exact hread.bind_return Handed.scalar
      have hread := decodes_while hlen fun b _ => hbyte b
      have hdata : data.flatMap (fun b => [b]) = data := List.flatMap_singleton' data
      rw [hdata] at hread
      exact hlength.bind_pure (hread.bind_return Handed.container)
  | skip =>
      have hid : (TypeDef.basic element : TypeDef n).id = .basic .uint8
          ∨ (TypeDef.basic element : TypeDef n).id = .basic .int8 := by
        rcases h with rfl | rfl
        · exact .inr rfl
        · exact .inl rfl
      show Decodes (skip S version (fuel + 2) (.list (.basic element)))
        (SimpleBinary.encode version (.blob (.basic element) data)) (pure ())
      rw [skip, SimpleBinary.encode]
      refine hlength.bind_pure ?_
      rw [if_pos hid]
      exact InputBuffer.decodes_skipBytes hlen

theorem Task.exact_map {key element : TypeDef n} {items : List (Value × Value)}
    (hlen : items.length < 2 ^ 31)
    (hkeys : ∀ kv ∈ items, Task.Exact S version known fuel ⟨mode, key, kv.1⟩)
    (h : ∀ kv ∈ items, Task.Exact S version known fuel ⟨mode, element, kv.2⟩) :
    Task.Exact S version known (fuel + 1)
      ⟨mode, .map key element, .map key.id element.id items⟩ := by
  have hlength := SimpleBinary.decodes_readLength version hlen
  cases mode with
  | read =>
      have hpair (kv : Value × Value) (hkv : kv ∈ items) :
          Decodes (do
              let k ← read S version known fuel key
              return (k, ← read S version known fuel element))
            (SimpleBinary.encode version kv.1 ++ SimpleBinary.encode version kv.2)
            (pure (handed S known key kv.1, handed S known element kv.2)) :=
        Decodes.bind_pure (hkeys kv hkv) (Decodes.bind_return (h kv hkv) fun v => (_, v))
      have hread := decodes_while hlen hpair
      rw [← handedPairs_eq, ← SimpleBinary.encodePairs_eq] at hread
      exact hlength.bind_pure (hread.bind_return Handed.map)
  | skip =>
      have hpair (kv : Value × Value) (hkv : kv ∈ items) :
          Decodes (do
              skip S version fuel key
              skip S version fuel element)
            (SimpleBinary.encode version kv.1 ++ SimpleBinary.encode version kv.2) (pure ()) :=
        Decodes.bind_pure (hkeys kv hkv) (h kv hkv)
      have hskip := (decodes_while (g := fun _ => ()) hlen hpair).bind_return fun _ => ()
      rw [← SimpleBinary.encodePairs_eq] at hskip
      exact hlength.bind_pure hskip

/-- A field that is unknown is skipped. -/
theorem decodes_field_unknown {β γ : Type} (transform : Transform n β γ) {fieldDef : FieldDef n}
    {v : Value} (hunknown : transform.fields fieldDef = none)
    (hpassed : transform.unknownField fieldDef = none)
    (h : Task.Exact S version known fuel ⟨.skip, fieldDef.type, v⟩) :
    Decodes (field (skip S version fuel) transform fieldDef) (SimpleBinary.encode version v)
      (pure none) := by
  unfold field SimpleBinary.readFieldOmitted
  simp only [pure_bind, Bool.false_eq_true, if_false, hunknown, hpassed]
  exact Decodes.bind_return h fun _ => none

theorem decodes_structTransform_field {i : Fin n} {p : FieldDef n × UInt16 × Value}
    (h : Task.Exact S version known fuel ⟨fieldMode known .read i p.1, p.1.type, p.2.2⟩) :
    Decodes (field (skip S version fuel) (structTransform known (read S version known fuel) i) p.1)
      (SimpleBinary.encode version p.2.2) (pure (handedField S known i p)) := by
  unfold handedField
  unfold fieldMode at h
  by_cases hknown : known i p.1.id = true
  · rw [if_pos ⟨rfl, hknown⟩] at h
    rw [if_pos hknown]
    have hfield : (structTransform known (read S version known fuel) i).fields p.1
        = some { value := do return (p.1.id, ← read S version known fuel p.1.type),
                 omitted := pure () } := if_pos hknown
    unfold field SimpleBinary.readFieldOmitted
    simp only [pure_bind, Bool.false_eq_true, if_false, hfield]
    exact (Decodes.bind_return h fun v => (p.1.id, v)).bind_return some
  · rw [if_neg fun hread => hknown hread.2] at h
    rw [if_neg hknown]
    exact decodes_field_unknown _ (if_neg hknown) rfl h

/-- A struct without a base. -/
theorem Task.exact_root {i : Fin n} {fields : Fields} (hbase : S.baseDef i = none)
    (hids : fields.map Prod.fst = (S.fields i).map FieldDef.id)
    (h : ∀ task ∈ fieldTasks S known mode i fields, Task.Exact S version known fuel task) :
    Task.Exact S version known (fuel + 1) ⟨mode, .struct i false, .struct (.root fields)⟩ := by
  have hfield (p : FieldDef n × UInt16 × Value) (hp : p ∈ (S.fields i).zip fields) :=
    h _ (List.mem_map_of_mem hp)
  cases mode with
  | read =>
      have hread := decodes_apply (decodes_applyBase_none _ hbase) hids fun p hp =>
        decodes_structTransform_field (hfield p hp)
      have hstruct := hread.bind_return fun p => handedStruct p.1 p.2
      unfold handedStruct at hstruct
      rw [← handedFields_eq] at hstruct
      exact hstruct
  | skip =>
      have hskip := decodes_apply (decodes_applyBase_none _ hbase) hids fun p hp =>
        decodes_field_unknown (skipStructTransform (skip S version fuel)) rfl rfl
          (hfield p hp)
      exact hskip.bind_return fun _ => ()

/-- A struct behind its base. -/
theorem Task.exact_derived {i j : Fin n} {base : StructValue} {fields : Fields}
    (hbase : S.baseDef i = some j)
    (hids : fields.map Prod.fst = (S.fields i).map FieldDef.id)
    (hj : Task.Exact S version known fuel ⟨mode, .struct j false, .struct base⟩)
    (h : ∀ task ∈ fieldTasks S known mode i fields, Task.Exact S version known fuel task) :
    Task.Exact S version known (fuel + 1)
      ⟨mode, .struct i false, .struct (.derived base fields)⟩ := by
  have hfield (p : FieldDef n × UInt16 × Value) (hp : p ∈ (S.fields i).zip fields) :=
    h _ (List.mem_map_of_mem hp)
  cases mode with
  | read =>
      have hread := decodes_apply
        (decodes_applyBase_some (structTransform known (read S version known fuel) i) hbase hj)
        hids fun p hp => decodes_structTransform_field (hfield p hp)
      have hstruct := hread.bind_return fun p => handedStruct p.1 p.2
      have hlevels : handed S known (.struct i false) (.struct (.derived base fields))
          = handedStruct (some (handed S known (.struct j false) (.struct base)))
              (((S.fields i).zip fields).map (handedField S known i)) := by
        unfold handedStruct
        rw [← handedFields_eq]
        simp only [handed, handedLevels, hbase]
        rfl
      show Decodes (read S version known (fuel + 1) (.struct i false))
        (SimpleBinary.encode version (.struct (.derived base fields))) (pure (handed _ _ _ _))
      rw [hlevels]
      exact hstruct
  | skip =>
      have hskip := decodes_apply
        (decodes_applyBase_some (skipStructTransform (skip S version fuel)) hbase hj) hids
        fun p hp => decodes_field_unknown _ rfl rfl (hfield p hp)
      exact hskip.bind_return fun _ => ()

/-- A `bonded` that is read is handed over as its payload. -/
theorem Task.exact_bonded {i : Fin n} {s : StructValue}
    (hlen : (SimpleBinary.marshal s).length < 2 ^ 31) :
    Task.Exact S version known (fuel + 1) ⟨.read, .struct i true, .bonded s⟩ := by
  have hne : SimpleBinary.marshal s ≠ [] := by
    simp [SimpleBinary.marshal]
  have hsize := InputBuffer.decodes_readUInt32 _
    (UInt32.ofNat (SimpleBinary.marshal s).length).toNat_lt
  rw [UInt32.ofNat_toNat] at hsize
  have hread : Decodes (readMarshaledBonded) (SimpleBinary.writeBonded version s)
      (pure (SimpleBinary.marshal s)) :=
    hsize.bind_pure (InputBuffer.decodes_readBytes hlen hne)
  exact hread.bind_return Handed.bonded

/-- A task is done right if nothing in it is a `bonded` that is skipped. -/
theorem Task.exact_of_fits (d : Nat) {fuel : Nat} (hfuel : d ≤ fuel) (task : Task n)
    (h : S.HasType d task.type task.v)
    (hfits : Everywhere (Task.children S known) Task.Fits task) :
    task.Exact S version known fuel := by
  induction d generalizing fuel task with
  | zero => cases h
  | succ d ih =>
      obtain ⟨fuel, rfl⟩ : ∃ k, fuel = k + 1 := ⟨fuel - 1, by omega⟩
      have hle : d ≤ fuel := Nat.le_of_succ_le_succ hfuel
      have hbelow := hfits.children_of
      have hself := hfits.self
      obtain ⟨mode, type, v⟩ := task
      have hfields {i : Fin n} {fields : Fields}
          (hvalues : ∀ p ∈ (S.fields i).zip fields, S.HasType d p.1.type p.2.2)
          (hchildren : ∀ task ∈ fieldTasks S known mode i fields,
            Everywhere (Task.children S known) Task.Fits task)
          (task : Task n) (htask : task ∈ fieldTasks S known mode i fields) :
          task.Exact S version known fuel := by
        have hfit := hchildren task htask
        obtain ⟨p, hp, rfl⟩ := List.mem_map.1 htask
        exact ih hle _ (hvalues p hp) hfit
      cases h with
      | basic v hwf => exact Task.exact_basic hwf
      | set element hlen hitems =>
          refine Task.exact_set hlen fun v hv => ?_
          exact ih hle _ (hitems v hv) (hbelow _ (List.mem_map_of_mem hv))
      | list element hlen hitems =>
          refine Task.exact_list hlen hitems fun v hv => ?_
          exact ih hle _ (hitems v hv) (hbelow _ (List.mem_map_of_mem hv))
      | blob hlen hbyte =>
          obtain ⟨fuel, rfl⟩ : ∃ k, fuel = k + 1 := ⟨fuel - 1, by omega⟩
          exact Task.exact_blob hlen hbyte
      | map hlen hkeys hvalues =>
          refine Task.exact_map hlen (fun kv hkv => ?_) fun kv hkv => ?_
          · exact ih hle _ (hkeys kv hkv) (hbelow _ (List.mem_flatMap.2 ⟨kv, hkv, by simp⟩))
          · exact ih hle _ (hvalues kv hkv) (hbelow _ (List.mem_flatMap.2 ⟨kv, hkv, by simp⟩))
      | root hbase hids hvalues =>
          exact Task.exact_root hbase hids (hfields hvalues hbelow)
      | derived hbase hj hids hvalues =>
          simp only [Task.children, hbase, List.forall_mem_append, List.forall_mem_singleton]
            at hbelow
          exact Task.exact_derived hbase hids (ih hle _ hj hbelow.1) (hfields hvalues hbelow.2)
      | bonded hlen =>
          cases mode with
          | read => exact Task.exact_bonded hlen
          | skip => cases hself rfl

end

/-! ## What is skipped and what is behind it -/

/-- Where no `bonded` is skipped, what is skipped of a payload is what was written for it, and what
    a transform knows of it is read as it was written. -/
theorem skip_read_exact_of_fits (S : RuntimeSchema n) (version : UInt16)
    (known : Fin n → UInt16 → Bool) {d : Nat} {type : TypeDef n} {v : Value}
    (h : S.HasType d type v) {fuel : Nat} (hfuel : d ≤ fuel) :
    (Everywhere (Task.children S known) Task.Fits ⟨.skip, type, v⟩ →
      Decodes (skip S version fuel type) (SimpleBinary.encode version v) (pure ())) ∧
    (Everywhere (Task.children S known) Task.Fits ⟨.read, type, v⟩ →
      Decodes (read S version known fuel type) (SimpleBinary.encode version v)
        (pure (handed S known type v))) :=
  ⟨Task.exact_of_fits d hfuel ⟨.skip, type, v⟩ h, Task.exact_of_fits d hfuel ⟨.read, type, v⟩ h⟩

def fieldDef (id : UInt16) (type : TypeDef n) : FieldDef n :=
  { metadata := { name := "", qualifiedName := "", modifier := .optional }, id := id, type := type }

/-- A struct that contains others of its kind, and one derived from it with a `bonded`. -/
def schema : RuntimeSchema 2 where
  baseDef i := if i = 0 then none else some 0
  fields i :=
    if i = 0 then
      [fieldDef 0 (.basic .string), fieldDef 1 (.list (.struct 0 false))]
    else
      [fieldDef 0 (.struct 0 true), fieldDef 1 (.set (.basic .int8)), fieldDef 2 (.basic .uint32)]

def leaf : StructValue :=
  .root [(0, .basic (.string [0x62])), (1, .list .list .struct [])]

def node : StructValue :=
  .root [(0, .basic (.string [0x61])), (1, .list .list .struct [.struct leaf])]

def derivedNode : StructValue :=
  .derived node [(0, .bonded leaf), (1, .list .set (.basic .int8) [.basic (.int8 5)]),
    (2, .basic (.uint32 7))]

theorem leaf_hasType (d : Nat) : schema.HasType (d + 2) (.struct 0 false) (.struct leaf) := by
  refine .root rfl rfl fun p hp => ?_
  rcases hp with _ | ⟨_, _ | ⟨_, ⟨⟩⟩⟩
  · exact .basic (.string [0x62]) (by decide)
  · exact .list (.struct 0 false) (by decide) (by simp)

theorem node_hasType (d : Nat) : schema.HasType (d + 4) (.struct 0 false) (.struct node) := by
  refine .root rfl rfl fun p hp => ?_
  rcases hp with _ | ⟨_, _ | ⟨_, ⟨⟩⟩⟩
  · exact .basic (.string [0x61]) (by decide)
  · refine .list (.struct 0 false) (by decide) fun v hv => ?_
    obtain rfl := List.mem_singleton.1 hv
    exact leaf_hasType d

theorem derivedNode_hasType :
    schema.HasType 5 (.struct 1 false) (.struct derivedNode) := by
  refine .derived (j := 0) rfl (node_hasType 0) rfl fun p hp => ?_
  rcases hp with _ | ⟨_, _ | ⟨_, _ | ⟨_, ⟨⟩⟩⟩⟩
  · exact .bonded (by decide)
  · refine .set (.basic .int8) (by decide) fun v hv => ?_
    obtain rfl := List.mem_singleton.1 hv
    exact .basic (.int8 5) (by decide)
  · exact .basic (.uint32 7) (by decide)

/-- A transform that knows the `bonded` and the field behind the set. -/
theorem derivedNode_exact :
    Decodes (read schema 2 (fun i id => i = 1 ∧ id ≠ 1) 5 (.struct 1 false))
      (SimpleBinary.encode 2 (.struct derivedNode))
      (pure (.struct [[], [(0, .bonded (SimpleBinary.marshal leaf)), (2, .scalar (.bits 7))]])) :=
  (skip_read_exact_of_fits schema 2 (fun i id => i = 1 ∧ id ≠ 1) derivedNode_hasType
    (Nat.le_refl 5)).2 (Everywhere.of_holdsWithin (p := fun task => task.Fits)
      (fun _ => of_decide_eq_true) 6 (by decide))

/-- A transform that knows nothing of the `bonded` takes the length of its payload for that of a
    string, and runs into the end of the stream. -/
theorem derivedNode_not_exact :
    ¬ ∀ (n : Nat) (S : RuntimeSchema n) (version : UInt16) (known : Fin n → UInt16 → Bool) (d : Nat)
        (type : TypeDef n) (v : Value), S.HasType d type v → ∀ fuel, d ≤ fuel →
      Decodes (skip S version fuel type) (SimpleBinary.encode version v) (pure ()) ∧
        Decodes (read S version known fuel type) (SimpleBinary.encode version v)
          (pure (handed S known type v)) := by
  intro h
  have hread := (h 2 schema 2 (fun i id => i = 1 ∧ id = 2) 5 _ _ derivedNode_hasType 5
    (Nat.le_refl 5)).2
  have hrun := hread (InputBuffer.ofData (SimpleBinary.encode 2 (.struct derivedNode)) (by decide))
    [] (by decide)
  have hfails : ((read schema 2 (fun i id => i = 1 ∧ id = 2) 5 (.struct 1 false)).run
      (InputBuffer.ofData (SimpleBinary.encode 2 (.struct derivedNode)) (by decide))).isOk
        = false := by
    decide +kernel
  rw [hrun] at hfails
  cases hfails

end UntaggedParser

end Bond.Cs

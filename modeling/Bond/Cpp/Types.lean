import Mathlib.Algebra.GroupWithZero.Nat
import Mathlib.Algebra.Group.Int.Defs
import Mathlib.Data.List.Basic

set_option autoImplicit false

/-! # Wire types and values

The types a Bond payload is made of (`BondDataType`, idl/bond/core/bond_const.bond) and the values
they describe. A `Value` is what a tagged payload says about itself: every container carries the
type ids of its elements, and a struct is a list of `(id, value)` fields on top of its base. -/

namespace Bond.Cpp

/-! ## Indices

The numerals that stand for the structs of a schema with one struct or with two. -/

instance one_neZero : NeZero 1 := ⟨Nat.one_ne_zero⟩

instance two_neZero : NeZero 2 := ⟨Nat.succ_ne_zero 1⟩

/-! ## Type ids -/

/-- The types that are neither containers nor structs. -/
inductive BasicType where
  | bool | uint8 | uint16 | uint32 | uint64 | float | double | string
  | int8 | int16 | int32 | int64 | wstring
deriving DecidableEq, Repr

/-- `BondDataType`, with the members for basic types grouped. A byte read as a type id may name
    no member of the enum; such an id is kept as it was read. -/
inductive BondDataType where
  | stop | stopBase
  | basic (type : BasicType)
  | struct | list | set | map
  | unavailable
  | undefined (id : UInt8)
deriving DecidableEq, Repr

/-- The numbers `bond_const.bond` gives the basic types. -/
def BasicType.toUInt8 : BasicType → UInt8
  | .bool => 2 | .uint8 => 3 | .uint16 => 4 | .uint32 => 5 | .uint64 => 6
  | .float => 7 | .double => 8 | .string => 9
  | .int8 => 14 | .int16 => 15 | .int32 => 16 | .int64 => 17 | .wstring => 18

/-- `static_cast<uint8_t>(type)` -/
def BondDataType.toUInt8 : BondDataType → UInt8
  | .stop => 0 | .stopBase => 1
  | .basic t => t.toUInt8
  | .struct => 10 | .list => 11 | .set => 12 | .map => 13
  | .unavailable => 127
  | .undefined id => id

/-- `static_cast<BondDataType>(raw)` -/
def BondDataType.ofUInt8 (raw : UInt8) : BondDataType :=
  match raw with
  | 0 => .stop | 1 => .stopBase
  | 2 => .basic .bool | 3 => .basic .uint8 | 4 => .basic .uint16 | 5 => .basic .uint32
  | 6 => .basic .uint64 | 7 => .basic .float | 8 => .basic .double | 9 => .basic .string
  | 10 => .struct | 11 => .list | 12 => .set | 13 => .map
  | 14 => .basic .int8 | 15 => .basic .int16 | 16 => .basic .int32 | 17 => .basic .int64
  | 18 => .basic .wstring
  | 127 => .unavailable
  | raw => .undefined raw

/-- The ids that can tag a field, an element or a key: everything but the stop markers and the
    ids without a meaning. -/
def BondDataType.isValue : BondDataType → Bool
  | .basic _ | .struct | .list | .set | .map => true
  | _ => false

def BondDataType.isBasic : BondDataType → Bool
  | .basic _ => true
  | _ => false

-- the equations are derived here, once for the lemmas below
attribute [local grind =] BondDataType.isValue BondDataType.isBasic

theorem BondDataType.isValue_of_isBasic {t : BondDataType} (h : t.isBasic = true) :
    t.isValue = true := by
  cases t <;> simp_all [isBasic, isValue]

theorem BondDataType.ofUInt8_toUInt8 {t : BondDataType} (h : t.isValue = true) :
    BondDataType.ofUInt8 t.toUInt8 = t := by
  cases t with
  | basic b => cases b <;> rfl
  | struct | list | set | map => rfl
  | stop | stopBase | unavailable | undefined => simp [isValue] at h

/-- The ids that can tag a value fit the five type bits of a Compact Binary header. -/
theorem BondDataType.toUInt8_lt {t : BondDataType} (h : t.isValue = true) :
    t.toUInt8.toNat < 32 := by
  cases t with
  | basic b => cases b <;> decide
  | struct | list | set | map => decide
  | stop | stopBase | unavailable | undefined => simp [isValue] at h

theorem BondDataType.toUInt8_pos {t : BondDataType} (h : t.isValue = true) :
    1 < t.toUInt8.toNat := by
  cases t with
  | basic b => cases b <;> decide
  | struct | list | set | map => decide
  | stop | stopBase | unavailable | undefined => simp [isValue] at h

/-! ## Values -/

/-- A value of a basic type. Floating point values are their bits, strings their code units. -/
inductive BasicValue where
  | bool (v : Bool)
  | uint8 (v : UInt8)
  | uint16 (v : UInt16)
  | uint32 (v : UInt32)
  | uint64 (v : UInt64)
  | float (bits : UInt32)
  | double (bits : UInt64)
  | string (units : List UInt8)
  | int8 (v : Int8)
  | int16 (v : Int16)
  | int32 (v : Int32)
  | int64 (v : Int64)
  | wstring (units : List UInt16)
deriving DecidableEq, Repr

def BasicValue.type : BasicValue → BasicType
  | .bool _ => .bool
  | .uint8 _ => .uint8
  | .uint16 _ => .uint16
  | .uint32 _ => .uint32
  | .uint64 _ => .uint64
  | .float _ => .float
  | .double _ => .double
  | .string _ => .string
  | .int8 _ => .int8
  | .int16 _ => .int16
  | .int32 _ => .int32
  | .int64 _ => .int64
  | .wstring _ => .wstring

/-- The count of a string's code units is a `uint32_t` on the wire. -/
def BasicValue.wellFormed : BasicValue → Bool
  | .string units => units.length < 2 ^ 32
  | .wstring units => units.length < 2 ^ 32
  | _ => true

/-- The two containers with one element type; lists also carry vectors, blobs and nullables. -/
inductive ListKind where
  | list | set
deriving DecidableEq, Repr

def ListKind.typeId : ListKind → BondDataType
  | .list => .list
  | .set => .set

mutual

/-- A value as a tagged payload describes it. `bonded` is a struct that is known only as bytes
    already in wire format. -/
inductive Value where
  | basic (v : BasicValue)
  | list (kind : ListKind) (element : BondDataType) (items : List Value)
  | map (key element : BondDataType) (items : List (Value × Value))
  | struct (s : StructValue)
  | bonded (payload : List UInt8)

/-- A struct with its inheritance hierarchy, the fields of each level in the order of the wire. -/
inductive StructValue where
  | root (fields : List (UInt16 × Value))
  | derived (base : StructValue) (fields : List (UInt16 × Value))

end

abbrev Fields := List (UInt16 × Value)

/-- `GetTypeId(value)` -/
def Value.typeId : Value → BondDataType
  | .basic v => .basic v.type
  | .list kind _ _ => kind.typeId
  | .map _ _ _ => .map
  | .struct _ => .struct
  | .bonded _ => .struct

@[simp] theorem Value.typeId_isValue (v : Value) : v.typeId.isValue = true := by
  cases v with
  | list kind => cases kind <;> rfl
  | basic | map | struct | bonded => rfl

theorem Value.eq_basic_of_typeId {v : Value} {b : BasicType} (h : v.typeId = .basic b) :
    ∃ x : BasicValue, v = .basic x ∧ x.type = b := by
  cases v with
  | basic x => exact ⟨x, rfl, by simpa [typeId] using h⟩
  | list kind => cases kind <;> simp [typeId, ListKind.typeId] at h
  | map | struct | bonded => simp [typeId] at h

/-- Values of a basic type are basic values. -/
theorem eq_map_basic {vs : List Value} {b : BasicType} (h : ∀ v ∈ vs, v.typeId = .basic b) :
    ∃ xs : List BasicValue, vs = xs.map .basic ∧ ∀ x ∈ xs, x.type = b := by
  induction vs with
  | nil => exact ⟨[], rfl, by simp⟩
  | cons v vs ih =>
      obtain ⟨x, rfl, hx⟩ := Value.eq_basic_of_typeId (h v List.mem_cons_self)
      obtain ⟨xs, rfl, hxs⟩ := ih fun v hv => h v (List.mem_cons_of_mem _ hv)
      exact ⟨x :: xs, rfl, by simpa using ⟨hx, hxs⟩⟩

/-- Induction from the root of a hierarchy to its most derived level. -/
@[elab_as_elim, induction_eliminator]
theorem StructValue.hierarchy_induct {Q : StructValue → Prop} (root : ∀ fields, Q (.root fields))
    (derived : ∀ base fields, Q base → Q (.derived base fields)) : ∀ s, Q s
  | .root fields => root fields
  | .derived base fields => derived base fields (hierarchy_induct root derived base)

/-- The number of levels of a struct's hierarchy. -/
def StructValue.depth : StructValue → Nat
  | .root _ => 1
  | .derived base _ => base.depth + 1

/-- The fields of each level, the root of the hierarchy first. -/
def StructValue.levels : StructValue → List Fields
  | .root fields => [fields]
  | .derived base fields => base.levels ++ [fields]

/-- The struct with the given levels, the root of the hierarchy first. -/
def StructValue.ofLevels : List Fields → StructValue
  | [] => .root []
  | fields :: levels => levels.foldl .derived (.root fields)

@[simp] theorem StructValue.levels_length (s : StructValue) : s.levels.length = s.depth := by
  induction s with
  | root fields => rfl
  | derived base fields ih => simp [levels, depth, ih]

theorem StructValue.depth_pos (s : StructValue) : 0 < s.depth := by
  cases s <;> simp [depth]

theorem StructValue.ofLevels_append (fields : Fields) (levels : List Fields) (last : Fields) :
    ofLevels ((fields :: levels) ++ [last]) = .derived (ofLevels (fields :: levels)) last := by
  simp [ofLevels]

theorem StructValue.ofLevels_levels (s : StructValue) : ofLevels s.levels = s := by
  induction s with
  | root fields => rfl
  | derived base fields ih =>
      obtain ⟨first, rest, hlevels⟩ : ∃ first rest, base.levels = first :: rest := by
        cases h : base.levels with
        | nil =>
            have hlen := base.levels_length
            have hpos := base.depth_pos
            rw [h] at hlen
            simp at hlen
            omega
        | cons first rest => exact ⟨first, rest, rfl⟩
      rw [levels, hlevels, ofLevels_append, ← hlevels, ih]

/-! ## Induction over value trees -/

/-- Induction over values, the items of a container and the fields of a struct's levels given by
    membership. -/
theorem value_induct {P : Value → Prop}
    (basic : ∀ v, P (.basic v))
    (list : ∀ kind element items, (∀ v ∈ items, P v) → P (.list kind element items))
    (map : ∀ key element items, (∀ kv ∈ items, P kv.1 ∧ P kv.2) → P (.map key element items))
    (struct : ∀ s : StructValue, (∀ fs ∈ s.levels, ∀ f ∈ fs, P f.2) → P (.struct s))
    (bonded : ∀ payload, P (.bonded payload)) : ∀ v, P v := by
  refine @Value.rec P (fun s => ∀ fs ∈ s.levels, ∀ f ∈ fs, P f.2) (fun items => ∀ v ∈ items, P v)
    (fun items => ∀ kv ∈ items, P kv.1 ∧ P kv.2) (fun fs => ∀ f ∈ fs, P f.2)
    (fun kv => P kv.1 ∧ P kv.2) (fun f => P f.2)
    basic list map struct bonded ?_ ?_
    (by simp) (fun _ _ h hs => List.forall_mem_cons.2 ⟨h, hs⟩)
    (by simp) (fun _ _ h hs => List.forall_mem_cons.2 ⟨h, hs⟩)
    (by simp) (fun _ _ h hs => List.forall_mem_cons.2 ⟨h, hs⟩)
    (fun _ _ hk hv => ⟨hk, hv⟩) (fun _ _ h => h)
  · intro fields hfields fs hfs
    rw [StructValue.levels, List.mem_singleton] at hfs
    exact hfs ▸ hfields
  · intro base fields hbase hfields fs hfs
    rw [StructValue.levels, List.mem_append, List.mem_singleton] at hfs
    rcases hfs with hfs | rfl
    · exact hbase fs hfs
    · exact hfields

/-! ## Well-formed values

A container is as long as its `uint32_t` count can say, and its items have the type it announces.
Map keys are basic, as the IDL demands. -/

mutual

def Value.wellFormed : Value → Bool
  | .basic v => v.wellFormed
  | .list _ element items =>
      decide (items.length < 2 ^ 32) && element.isValue && wellFormedItems element items
  | .map key element items =>
      decide (items.length < 2 ^ 32) && key.isBasic && element.isValue
        && wellFormedPairs key element items
  | .struct s => s.wellFormed
  | .bonded _ => false

def wellFormedItems (element : BondDataType) : List Value → Bool
  | [] => true
  | v :: vs => decide (v.typeId = element) && v.wellFormed && wellFormedItems element vs

def wellFormedPairs (key element : BondDataType) : List (Value × Value) → Bool
  | [] => true
  | (k, v) :: kvs =>
      decide (k.typeId = key) && decide (v.typeId = element) && k.wellFormed && v.wellFormed
        && wellFormedPairs key element kvs

def wellFormedFields : List (UInt16 × Value) → Bool
  | [] => true
  | (_, v) :: fs => v.wellFormed && wellFormedFields fs

def StructValue.wellFormed : StructValue → Bool
  | .root fields => wellFormedFields fields
  | .derived base fields => base.wellFormed && wellFormedFields fields

end

theorem wellFormedItems_iff {element : BondDataType} {vs : List Value} :
    wellFormedItems element vs = true ↔ ∀ v ∈ vs, v.typeId = element ∧ v.wellFormed = true := by
  induction vs with
  | nil => simp [wellFormedItems]
  | cons v vs ih => simp [wellFormedItems, ih]

theorem wellFormedPairs_iff {key element : BondDataType} {kvs : List (Value × Value)} :
    wellFormedPairs key element kvs = true ↔
      ∀ kv ∈ kvs, (kv.1.typeId = key ∧ kv.1.wellFormed = true) ∧
        kv.2.typeId = element ∧ kv.2.wellFormed = true := by
  induction kvs with
  | nil => simp [wellFormedPairs]
  | cons kv kvs ih =>
      obtain ⟨k, v⟩ := kv
      simp only [wellFormedPairs, Bool.and_eq_true, decide_eq_true_eq, ih, List.forall_mem_cons]
      tauto

theorem wellFormedFields_iff {fs : Fields} :
    wellFormedFields fs = true ↔ ∀ f ∈ fs, f.2.wellFormed = true := by
  induction fs with
  | nil => simp [wellFormedFields]
  | cons f fs ih => simp [wellFormedFields, ih]

theorem StructValue.wellFormed_iff {s : StructValue} :
    s.wellFormed = true ↔ ∀ fs ∈ s.levels, ∀ f ∈ fs, f.2.wellFormed = true := by
  induction s with
  | root fields => simp [wellFormed, levels, wellFormedFields_iff]
  | derived base fields ih =>
      rw [wellFormed, Bool.and_eq_true, ih, wellFormedFields_iff, levels]
      simp only [List.mem_append, List.mem_singleton, or_imp, forall_and, forall_eq]

/-- Induction over well-formed values: the items of a container have the announced types, and
    each item and field satisfies the claim already. -/
theorem wellFormed_induct {P : Value → Prop}
    (basic : ∀ v : BasicValue, v.wellFormed = true → P (.basic v))
    (list : ∀ kind element items, items.length < 2 ^ 32 → element.isValue = true →
      (∀ v ∈ items, v.typeId = element ∧ v.wellFormed = true ∧ P v) → P (.list kind element items))
    (map : ∀ key element items, items.length < 2 ^ 32 → key.isBasic = true →
      element.isValue = true →
      (∀ kv ∈ items, (kv.1.typeId = key ∧ kv.1.wellFormed = true ∧ P kv.1) ∧
        kv.2.typeId = element ∧ kv.2.wellFormed = true ∧ P kv.2) → P (.map key element items))
    (struct : ∀ s : StructValue, s.wellFormed = true →
      (∀ fs ∈ s.levels, ∀ f ∈ fs, f.2.wellFormed = true ∧ P f.2) → P (.struct s)) :
    ∀ v : Value, v.wellFormed = true → P v := by
  refine value_induct basic ?_ ?_ ?_ (fun payload h => by simp [Value.wellFormed] at h)
  · intro kind element items ih h
    simp only [Value.wellFormed, Bool.and_eq_true, decide_eq_true_eq, wellFormedItems_iff] at h
    exact list kind element items h.1.1 h.1.2 fun v hv =>
      ⟨(h.2 v hv).1, (h.2 v hv).2, ih v hv (h.2 v hv).2⟩
  · intro key element items ih h
    simp only [Value.wellFormed, Bool.and_eq_true, decide_eq_true_eq, wellFormedPairs_iff] at h
    obtain ⟨⟨⟨hlen, hkey⟩, helement⟩, hitems⟩ := h
    refine map key element items hlen hkey helement fun kv hkv => ?_
    obtain ⟨⟨hk, hkwf⟩, hv, hvwf⟩ := hitems kv hkv
    exact ⟨⟨hk, hkwf, (ih kv hkv).1 hkwf⟩, hv, hvwf, (ih kv hkv).2 hvwf⟩
  · intro s ih h
    rw [Value.wellFormed] at h
    have hfields := StructValue.wellFormed_iff.1 h
    exact struct s h fun fs hfs f hf =>
      ⟨hfields fs hfs f hf, ih fs hfs f hf (hfields fs hfs f hf)⟩

end Bond.Cpp

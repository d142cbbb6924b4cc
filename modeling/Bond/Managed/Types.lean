import Bond.Cpp.Types
import Bond.Lib.Utf16

set_option autoImplicit false

/-! # Values of C# and Java

The values that the C# and Java writers are given. They differ from what is on the wire in their
strings, which are UTF-16 code units in both languages, and in their counts, which are `int`s. -/

namespace Bond.Managed

open Bond.Cpp (BondDataType BasicType ListKind)

/-- A value of a basic type. Floating point values are their bits, strings their `char`s. -/
inductive BasicValue where
  | bool (v : Bool)
  | uint8 (v : UInt8)
  | uint16 (v : UInt16)
  | uint32 (v : UInt32)
  | uint64 (v : UInt64)
  | float (bits : UInt32)
  | double (bits : UInt64)
  | string (chars : List UInt16)
  | int8 (v : Int8)
  | int16 (v : Int16)
  | int32 (v : Int32)
  | int64 (v : Int64)
  | wstring (chars : List UInt16)
deriving DecidableEq, Repr

def BasicValue.type : BasicValue → BasicType
  | .bool _ => .bool
  | .uint8 _ => .uint8
  | .uint16 _ => .uint16
  | .uint32 _ => .uint32
  | .uint64 _ => .uint64
  | .float _ => .float
  | .double _ => .double
  | .string _ => .string
  | .int8 _ => .int8
  | .int16 _ => .int16
  | .int32 _ => .int32
  | .int64 _ => .int64
  | .wstring _ => .wstring

mutual

/-- A value. A `blob` is a list of one-byte integers that is kept, and written, as bytes; a `bonded`
    is the struct in a `bonded<T>`. -/
inductive Value where
  | basic (v : BasicValue)
  | list (kind : ListKind) (element : BondDataType) (items : List Value)
  | blob (element : BondDataType) (data : List UInt8)
  | map (key element : BondDataType) (items : List (Value × Value))
  | struct (s : StructValue)
  | bonded (s : StructValue)

/-- A struct with its inheritance hierarchy, the fields of each level in the order of the wire. -/
inductive StructValue where
  | root (fields : List (UInt16 × Value))
  | derived (base : StructValue) (fields : List (UInt16 × Value))

end

abbrev Fields := List (UInt16 × Value)

/-- The `BondDataType` of a value's field or element. -/
def Value.typeId : Value → BondDataType
  | .basic v => .basic v.type
  | .list kind _ _ => kind.typeId
  | .blob _ _ => .list
  | .map _ _ _ => .map
  | .struct _ => .struct
  | .bonded _ => .struct

/-- Induction from the root of a hierarchy to its most derived level. -/
@[elab_as_elim, induction_eliminator]
theorem StructValue.hierarchy_induct {Q : StructValue → Prop} (root : ∀ fields, Q (.root fields))
    (derived : ∀ base fields, Q base → Q (.derived base fields)) : ∀ s, Q s
  | .root fields => root fields
  | .derived base fields => derived base fields (hierarchy_induct root derived base)

/-- The fields of each level, the root of the hierarchy first. -/
def StructValue.levels : StructValue → List Fields
  | .root fields => [fields]
  | .derived base fields => base.levels ++ [fields]

/-- Induction over values, the items of a container and the fields of a struct's levels given by
    membership. -/
theorem value_induct {P : Value → Prop}
    (basic : ∀ v, P (.basic v))
    (list : ∀ kind element items, (∀ v ∈ items, P v) → P (.list kind element items))
    (blob : ∀ element data, P (.blob element data))
    (map : ∀ key element items, (∀ kv ∈ items, P kv.1 ∧ P kv.2) → P (.map key element items))
    (struct : ∀ s : StructValue, (∀ fs ∈ s.levels, ∀ f ∈ fs, P f.2) → P (.struct s))
    (bonded : ∀ s : StructValue, (∀ fs ∈ s.levels, ∀ f ∈ fs, P f.2) → P (.bonded s)) :
    ∀ v, P v := by
  refine @Value.rec P (fun s => ∀ fs ∈ s.levels, ∀ f ∈ fs, P f.2) (fun items => ∀ v ∈ items, P v)
    (fun items => ∀ kv ∈ items, P kv.1 ∧ P kv.2) (fun fs => ∀ f ∈ fs, P f.2)
    (fun kv => P kv.1 ∧ P kv.2) (fun f => P f.2)
    basic list blob map struct bonded ?_ ?_
    (by simp) (fun _ _ h hs => List.forall_mem_cons.2 ⟨h, hs⟩)
    (by simp) (fun _ _ h hs => List.forall_mem_cons.2 ⟨h, hs⟩)
    (by simp) (fun _ _ h hs => List.forall_mem_cons.2 ⟨h, hs⟩)
    (fun _ _ hk hv => ⟨hk, hv⟩) (fun _ _ h => h)
  · intro fields hfields fs hfs
    rw [StructValue.levels, List.mem_singleton] at hfs
    exact hfs ▸ hfields
  · intro base fields hbase hfields fs hfs
    rw [StructValue.levels, List.mem_append, List.mem_singleton] at hfs
    rcases hfs with hfs | rfl
    · exact hbase fs hfs
    · exact hfields

/-! ## Well-formed values

The lengths of strings and the counts of containers are `int`s, and so are the lengths of the
arrays that strings are encoded to; `utf8` is the encoder of a language. The items of a container
have the type it announces, and map keys are basic, as the IDL demands. -/

section

variable (utf8 : List UInt16 → List UInt8)

def BasicValue.wellFormed : BasicValue → Bool
  | .string chars => chars.length < 2 ^ 31 && (utf8 chars).length < 2 ^ 31
  | .wstring chars => 2 * chars.length < 2 ^ 31
  | _ => true

mutual

def Value.wellFormed : Value → Bool
  | .basic v => v.wellFormed utf8
  | .list _ element items =>
      decide (items.length < 2 ^ 31) && element.isValue && wellFormedItems element items
  | .blob element data =>
      decide (data.length < 2 ^ 31) && (element == .basic .int8 || element == .basic .uint8)
  | .map key element items =>
      decide (items.length < 2 ^ 31) && key.isBasic && element.isValue
        && wellFormedPairs key element items
  | .struct s => s.wellFormed
  | .bonded s => s.wellFormed

def wellFormedItems (element : BondDataType) : List Value → Bool
  | [] => true
  | v :: vs => decide (v.typeId = element) && v.wellFormed && wellFormedItems element vs

def wellFormedPairs (key element : BondDataType) : List (Value × Value) → Bool
  | [] => true
  | (k, v) :: kvs =>
      decide (k.typeId = key) && decide (v.typeId = element) && k.wellFormed && v.wellFormed
        && wellFormedPairs key element kvs

def wellFormedFields : List (UInt16 × Value) → Bool
  | [] => true
  | (_, v) :: fs => v.wellFormed && wellFormedFields fs

def StructValue.wellFormed : StructValue → Bool
  | .root fields => wellFormedFields fields
  | .derived base fields => base.wellFormed && wellFormedFields fields

end

end

variable {utf8 : List UInt16 → List UInt8}

theorem wellFormedItems_iff {element : BondDataType} {vs : List Value} :
    wellFormedItems utf8 element vs = true ↔
      ∀ v ∈ vs, v.typeId = element ∧ v.wellFormed utf8 = true := by
  induction vs with
  | nil => simp [wellFormedItems]
  | cons v vs ih => simp [wellFormedItems, ih]

theorem wellFormedPairs_iff {key element : BondDataType} {kvs : List (Value × Value)} :
    wellFormedPairs utf8 key element kvs = true ↔
      ∀ kv ∈ kvs, (kv.1.typeId = key ∧ kv.1.wellFormed utf8 = true) ∧
        kv.2.typeId = element ∧ kv.2.wellFormed utf8 = true := by
  induction kvs with
  | nil => simp [wellFormedPairs]
  | cons kv kvs ih =>
      obtain ⟨k, v⟩ := kv
      simp only [wellFormedPairs, Bool.and_eq_true, decide_eq_true_eq, ih, List.forall_mem_cons]
      tauto

theorem wellFormedFields_iff {fs : Fields} :
    wellFormedFields utf8 fs = true ↔ ∀ f ∈ fs, f.2.wellFormed utf8 = true := by
  induction fs with
  | nil => simp [wellFormedFields]
  | cons f fs ih => simp [wellFormedFields, ih]

theorem StructValue.wellFormed_iff {s : StructValue} :
    s.wellFormed utf8 = true ↔ ∀ fs ∈ s.levels, ∀ f ∈ fs, f.2.wellFormed utf8 = true := by
  induction s with
  | root fields => simp [StructValue.wellFormed, StructValue.levels, wellFormedFields_iff]
  | derived base fields ih =>
      simp only [StructValue.wellFormed, StructValue.levels, Bool.and_eq_true, ih,
        wellFormedFields_iff, List.mem_append, List.mem_singleton, or_imp, forall_and,
        forall_eq]

/-- Induction over well-formed values: the items of a container have the announced types, and each
    item and field satisfies the claim already. -/
theorem wellFormed_induct {P : Value → Prop}
    (basic : ∀ v : BasicValue, v.wellFormed utf8 = true → P (.basic v))
    (list : ∀ kind element items, items.length < 2 ^ 31 → element.isValue = true →
      (∀ v ∈ items, v.typeId = element ∧ v.wellFormed utf8 = true ∧ P v) →
      P (.list kind element items))
    (blob : ∀ element data, data.length < 2 ^ 31 →
      element = .basic .int8 ∨ element = .basic .uint8 → P (.blob element data))
    (map : ∀ key element items, items.length < 2 ^ 31 → key.isBasic = true →
      element.isValue = true →
      (∀ kv ∈ items, (kv.1.typeId = key ∧ kv.1.wellFormed utf8 = true ∧ P kv.1) ∧
        kv.2.typeId = element ∧ kv.2.wellFormed utf8 = true ∧ P kv.2) → P (.map key element items))
    (struct : ∀ s : StructValue, s.wellFormed utf8 = true →
      (∀ fs ∈ s.levels, ∀ f ∈ fs, f.2.wellFormed utf8 = true ∧ P f.2) → P (.struct s))
    (bonded : ∀ s : StructValue, s.wellFormed utf8 = true →
      (∀ fs ∈ s.levels, ∀ f ∈ fs, f.2.wellFormed utf8 = true ∧ P f.2) → P (.bonded s)) :
    ∀ v : Value, v.wellFormed utf8 = true → P v := by
  refine value_induct basic ?_ ?_ ?_ ?_ ?_
  · intro kind element items ih h
    simp only [Value.wellFormed, Bool.and_eq_true, decide_eq_true_eq, wellFormedItems_iff] at h
    exact list kind element items h.1.1 h.1.2 fun v hv =>
      ⟨(h.2 v hv).1, (h.2 v hv).2, ih v hv (h.2 v hv).2⟩
  · intro element data h
    simp only [Value.wellFormed, Bool.and_eq_true, decide_eq_true_eq, Bool.or_eq_true,
      beq_iff_eq] at h
    exact blob element data h.1 h.2
  · intro key element items ih h
    simp only [Value.wellFormed, Bool.and_eq_true, decide_eq_true_eq, wellFormedPairs_iff] at h
    obtain ⟨⟨⟨hlen, hkey⟩, helement⟩, hitems⟩ := h
    refine map key element items hlen hkey helement fun kv hkv => ?_
    obtain ⟨⟨hk, hkwf⟩, hv, hvwf⟩ := hitems kv hkv
    exact ⟨⟨hk, hkwf, (ih kv hkv).1 hkwf⟩, hv, hvwf, (ih kv hkv).2 hvwf⟩
  · intro s ih h
    have hfields := StructValue.wellFormed_iff.1 h
    exact struct s h fun fs hfs f hf =>
      ⟨hfields fs hfs f hf, ih fs hfs f hf (hfields fs hfs f hf)⟩
  · intro s ih h
    have hfields := StructValue.wellFormed_iff.1 h
    exact bonded s h fun fs hfs f hf =>
      ⟨hfields fs hfs f hf, ih fs hfs f hf (hfields fs hfs f hf)⟩

/-- The types of values are those that can tag a field. -/
theorem Value.typeId_isValue (v : Value) : v.typeId.isValue = true := by
  cases v with
  | list kind => cases kind <;> rfl
  | basic | blob | map | struct | bonded => rfl

theorem Value.eq_basic_of_typeId {v : Value} {b : BasicType} (h : v.typeId = .basic b) :
    ∃ x : BasicValue, v = .basic x ∧ x.type = b := by
  cases v with
  | basic x => exact ⟨x, rfl, by simpa [typeId] using h⟩
  | list kind => cases kind <;> cases h
  | blob | map | struct | bonded => cases h

end Bond.Managed

import Bond.Cpp.Types

set_option autoImplicit false

/-! # Runtime schemas

`SchemaDef` and its parts (idl/bond/core/bond.bond): a table of structs that refer to each other by
their index. Of the metadata only what the deserializer or the validator uses is kept. -/

namespace Bond.Cpp

/-! ## Definitions -/

inductive Modifier where
  | optional | required | requiredOptional
deriving DecidableEq, Repr

structure Metadata where
  name : String
  /-- used only for structs -/
  qualifiedName : String
  /-- not used for structs -/
  modifier : Modifier
deriving DecidableEq, Repr

/-- `TypeDef` over a table of `n` structs. A list or a set has an element and no key, a map has
    both, and a struct has neither. -/
inductive TypeDef (n : Nat) where
  | basic (type : BasicType)
  | struct (structDef : Fin n) (bondedType : Bool)
  | list (element : TypeDef n)
  | set (element : TypeDef n)
  | map (key element : TypeDef n)
deriving DecidableEq, Repr

variable {n : Nat}

/-- The field `id` of a `TypeDef` -/
def TypeDef.id : TypeDef n → BondDataType
  | .basic type => .basic type
  | .struct _ _ => .struct
  | .list _ => .list
  | .set _ => .set
  | .map _ _ => .map

def TypeDef.bondedType : TypeDef n → Bool
  | .struct _ bondedType => bondedType
  | _ => false

theorem TypeDef.id_isValue (t : TypeDef n) : t.id.isValue = true := by
  cases t <;> rfl

structure FieldDef (n : Nat) where
  metadata : Metadata
  id : UInt16
  type : TypeDef n
deriving DecidableEq, Repr

/-- The order of the fields of a struct. -/
def Increasing (fields : List (FieldDef n)) : Prop :=
  fields.Pairwise fun f g => f.id < g.id

instance (fields : List (FieldDef n)) : Decidable (Increasing fields) :=
  inferInstanceAs (Decidable (fields.Pairwise _))

structure StructDef (n : Nat) where
  metadata : Metadata
  /-- the index of the base struct -/
  baseDef : Option (Fin n)
  fields : List (FieldDef n)
  increasing : Increasing fields

/-- `TypeDef.struct_def` is a `uint16_t`, so no more than 2^16 structs can be referred to. -/
structure SchemaDef (n : Nat) where
  structs : Fin n → StructDef n
  root : Fin n
  size_le : n ≤ 2 ^ 16

theorem SchemaDef.one_le : 1 ≤ 2 ^ 16 := by decide

theorem SchemaDef.two_le : 2 ≤ 2 ^ 16 := by decide

theorem StructDef.increasing_nil : Increasing ([] : List (FieldDef 1)) := List.Pairwise.nil

/-! ## Hierarchies -/

/-- The number of structs on the way from a struct to the root of its hierarchy, if there are no
    more than `k` of them. -/
def SchemaDef.depthWithin (S : SchemaDef n) : Nat → Fin n → Option Nat
  | 0, _ => none
  | k + 1, i =>
      match (S.structs i).baseDef with
      | none => some 1
      | some base => (S.depthWithin k base).map (1 + ·)

/-- The depth of a struct's hierarchy. There is none if the bases go round in a circle, which
    they do if they are more than the table has structs. -/
def SchemaDef.hierarchyDepth (S : SchemaDef n) (i : Fin n) : Option Nat :=
  S.depthWithin n i

/-- `schema_depth`, a `uint16_t`; a recursion without an end in a circle of bases -/
def SchemaDef.schemaDepth (S : SchemaDef n) (i : Fin n) : Option UInt16 :=
  (S.hierarchyDepth i).map UInt16.ofNat

theorem SchemaDef.depthWithin_bounds (S : SchemaDef n) {k : Nat} {i : Fin n} {d : Nat}
    (h : S.depthWithin k i = some d) : 1 ≤ d ∧ d ≤ k := by
  induction k generalizing i d with
  | zero => simp [depthWithin] at h
  | succ k ih =>
      rw [depthWithin] at h
      split at h
      · obtain rfl := Option.some.inj h
        exact ⟨Nat.le_refl 1, Nat.le_add_left 1 k⟩
      · obtain ⟨e, he, rfl⟩ := Option.map_eq_some_iff.1 h
        have hbounds := ih he
        omega

/-- The root of a hierarchy is at depth one. -/
theorem SchemaDef.hierarchyDepth_eq_one_iff (S : SchemaDef n) (i : Fin n) :
    S.hierarchyDepth i = some 1 ↔ (S.structs i).baseDef = none := by
  obtain ⟨k, rfl⟩ : ∃ k, n = k + 1 := ⟨n - 1, by have hlt := i.isLt; omega⟩
  rw [hierarchyDepth, depthWithin]
  cases hbase : (S.structs i).baseDef with
  | none => simp
  | some base =>
      simp only [Option.map_eq_some_iff, reduceCtorEq, iff_false, not_exists, not_and]
      intro d hd
      have hpos := (S.depthWithin_bounds hd).1
      omega

/-- Depths that are equal as `uint16_t` are equal. -/
theorem schemaDepth_eq_iff {m : Nat} {S : SchemaDef n} {T : SchemaDef m} {i : Fin n} {j : Fin m} :
    S.schemaDepth i = T.schemaDepth j ↔ S.hierarchyDepth i = T.hierarchyDepth j := by
  constructor
  · intro h
    unfold SchemaDef.schemaDepth at h
    cases hi : S.hierarchyDepth i with
    | none =>
        cases hj : T.hierarchyDepth j with
        | none => rfl
        | some e => simp [hi, hj] at h
    | some d =>
        cases hj : T.hierarchyDepth j with
        | none => simp [hi, hj] at h
        | some e =>
            have hd := S.depthWithin_bounds hi
            have he := T.depthWithin_bounds hj
            have hn := S.size_le
            have hm := T.size_le
            rw [hi, hj, Option.map_some, Option.map_some, Option.some.injEq] at h
            have hnat := congrArg UInt16.toNat h
            rw [UInt16.toNat_ofNat', UInt16.toNat_ofNat'] at hnat
            congr 1
            omega
  · intro h
    rw [SchemaDef.schemaDepth, SchemaDef.schemaDepth, h]

end Bond.Cpp

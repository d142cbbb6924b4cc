import Bond.Cpp.Scalars
import Bond.Cpp.Schema
import Mathlib.Algebra.Order.Ring.Int

set_option autoImplicit false

/-! # C++ variables

The types that `gbc` generates for C++ and the values of their variables, as far as the deserializer
tells them apart; and which types on the wire match them (cpp/inc/bond/core/reflection.h). -/

namespace Bond.Cpp

/-! ## Types -/

/-- The type of a variable, over `m` generated structs. An `enum` is an `int32`. -/
inductive CppType (m : Nat) where
  | basic (type : BasicType)
  | struct (index : Fin m)
  | bonded (index : Fin m)
  /-- `vector<T>` and `list<T>` -/
  | list (element : CppType m)
  | nullable (element : CppType m)
  | blob
  | set (element : BasicType)
  | map (key : BasicType) (element : CppType m)
deriving DecidableEq, Repr

namespace CppType

variable {m : Nat}

/-- `get_type_id` -/
def id : CppType m → BondDataType
  | .basic type => .basic type
  | .struct _ | .bonded _ => .struct
  | .list _ | .nullable _ | .blob => .list
  | .set _ => .set
  | .map _ _ => .map

/-- `is_bond_type` -/
def isBondType : CppType m → Bool
  | .struct _ | .bonded _ => true
  | _ => false

/-- `is_container` -/
def isContainer : CppType m → Bool
  | .list _ | .nullable _ | .blob | .set _ | .map _ _ => true
  | _ => false

/-- `element_type`, and `second_type` of the elements of a map -/
def element : CppType m → CppType m
  | .list element | .nullable element | .map _ element => element
  | .blob => .basic .int8
  | .set element => .basic element
  | type => type

/-- The `TypeDef` of a type -/
def typeDef : CppType m → TypeDef m
  | .basic type => .basic type
  | .struct index => .struct index false
  | .bonded index => .struct index true
  | .list element | .nullable element => .list element.typeDef
  | .blob => .list (.basic .int8)
  | .set element => .set (.basic element)
  | .map key element => .map (.basic key) element.typeDef

end CppType

/-! ## Generated structs -/

/-- A field of a generated struct; `metadata` says whether it is required. -/
structure CppField (m : Nat) where
  metadata : Metadata
  id : UInt16
  type : CppType m
deriving DecidableEq, Repr

instance CppField.lawfulBEq {m : Nat} : LawfulBEq (CppField m) := inferInstance

structure CppStruct (m : Nat) where
  metadata : Metadata
  base : Option (Fin m)
  fields : List (CppField m)
  increasing : fields.Pairwise fun f g => f.id < g.id

theorem CppStruct.increasing_nil :
    ([] : List (CppField 2)).Pairwise fun f g => f.id < g.id := List.Pairwise.nil

structure CppSchema (m : Nat) where
  structs : Fin m → CppStruct m
  root : Fin m
  size_le : m ≤ 2 ^ 16

section

variable {m : Nat}

def CppField.fieldDef (field : CppField m) : FieldDef m where
  metadata := field.metadata
  id := field.id
  type := field.type.typeDef

/-- The compile-time schema `schema<T>::type` of the generated structs, as a `SchemaDef`. -/
def CppSchema.schemaDef (C : CppSchema m) : SchemaDef m where
  structs x :=
    { metadata := (C.structs x).metadata
      baseDef := (C.structs x).base
      fields := (C.structs x).fields.map CppField.fieldDef
      increasing := List.pairwise_map.2 (C.structs x).increasing }
  root := C.root
  size_le := C.size_le

end

/-! ## Matching -/

/-- `std::is_unsigned`, `bool` apart -/
def BasicType.isUnsigned : BasicType → Bool
  | .uint8 | .uint16 | .uint32 | .uint64 => true
  | _ => false

/-- `is_signed_int_or_enum` -/
def BasicType.isSigned : BasicType → Bool
  | .int8 | .int16 | .int32 | .int64 => true
  | _ => false

/-- `is_matching_basic<T, X>` -/
def isMatchingBasic (T X : BasicType) : Bool :=
  T = X || (T = .float && X = .double)
    || (T.sizeof ≤ X.sizeof && (T.isUnsigned && X.isUnsigned || T.isSigned && X.isSigned))

/-- `is_matching<T, X>`, for a type of a compile-time schema of the payload -/
def isMatching {n m : Nat} : TypeDef n → CppType m → Bool
  | .basic T, .basic X => isMatchingBasic T X
  | .struct _ _, X => X.isBondType
  | .list T, .list X | .list T, .nullable X => isMatching T X
  | .list T, .blob => isMatching T (.basic .int8 : CppType m)
  | .set T, .set X => isMatching T (.basic X : CppType m)
  | .map K T, .map Y X => isMatching K (.basic Y : CppType m) && isMatching T X
  | _, _ => false

/-! ## Values -/

/-- The value of a variable. An object is what has been assigned to its fields, those of its bases
    among them; the other fields have their default values. What a `bonded` will be read as is left
    open. -/
inductive CppValue (m : Nat) where
  | basic (v : BasicValue)
  | struct (fields : List ((Fin m × UInt16) × CppValue m))
  | bonded
  | list (items : List (CppValue m))
  | nullable (item : Option (CppValue m))
  | blob (bytes : List UInt8)
  | set (items : List BasicValue)
  | map (entries : List (BasicValue × CppValue m))

/-- The value of a default-constructed variable -/
def CppType.fresh {m : Nat} : CppType m → CppValue m
  | .basic type => .basic (type.ofBits 0)
  | .struct _ => .struct []
  | .bonded _ => .bonded
  | .list _ => .list []
  | .nullable _ => .nullable none
  | .blob => .blob []
  | .set _ => .set []
  | .map _ _ => .map []

namespace CppValue

variable {m : Nat}

def items : CppValue m → List (CppValue m)
  | .list items => items
  | _ => []

def item : CppValue m → Option (CppValue m)
  | .nullable item => item
  | _ => none

def fields : CppValue m → List ((Fin m × UInt16) × CppValue m)
  | .struct fields => fields
  | _ => []

end CppValue

/-- Assign to the entry of a key, or add an entry for it. -/
def assocSet {K V : Type} (same : K → K → Bool) (key : K) (v : V) : List (K × V) → List (K × V)
  | [] => [(key, v)]
  | entry :: entries =>
      if same key entry.1 then (entry.1, v) :: entries else entry :: assocSet same key v entries

/-- The value of the entry of a key. -/
def assocGet {K V : Type} (same : K → K → Bool) (key : K) (entries : List (K × V)) : Option V :=
  (entries.find? fun entry => same key entry.1).map Prod.snd

theorem assocSet_keys {K V : Type} {same : K → K → Bool} {p : K → Prop} {key : K} {v : V}
    {entries : List (K × V)} (hkey : p key) (h : ∀ e ∈ entries, p e.1) :
    ∀ e ∈ assocSet same key v entries, p e.1 := by
  induction entries with
  | nil =>
      intro e he
      obtain rfl := List.mem_singleton.1 he
      exact hkey
  | cons entry entries ih =>
      obtain ⟨hhead, htail⟩ := List.forall_mem_cons.1 h
      rw [assocSet]
      split_ifs
      · exact List.forall_mem_cons.2 ⟨hhead, htail⟩
      · exact List.forall_mem_cons.2 ⟨hhead, ih htail⟩

section

variable {K V : Type} {same : K → K → Bool} (hsame : Equivalence fun a b => same a b = true)
include hsame

/-- After an assignment the entries of all keys equivalent to the one that was assigned to have the
    new value, and the others the old one. -/
theorem assocGet_assocSet (k key : K) (v : V) (entries : List (K × V)) :
    assocGet same k (assocSet same key v entries) =
      if same k key then some v else assocGet same k entries := by
  induction entries with
  | nil => by_cases hk : same k key <;> simp [assocSet, assocGet, hk]
  | cons entry entries ih =>
      rw [assocSet]
      by_cases hkey : same key entry.1 = true
      · have hiff : same k entry.1 = same k key := Bool.eq_iff_iff.2
          ⟨fun h => hsame.trans h (hsame.symm hkey), fun h => hsame.trans h hkey⟩
        rw [if_pos hkey]
        by_cases hk : same k key = true <;> simp [assocGet, hiff, hk]
      · have hnot : same k entry.1 = true → ¬ same k key = true := fun h h' =>
          hkey (hsame.trans (hsame.symm h') h)
        rw [if_neg hkey]
        by_cases hk : same k entry.1 = true
        · simp [assocGet, hk, hnot hk]
        · simpa [assocGet, hk] using ih

end

section

variable {m : Nat}

/-- The variable of a field -/
def CppValue.getField (obj : CppValue m) (key : Fin m × UInt16) (type : CppType m) : CppValue m :=
  (assocGet (· == ·) key obj.fields).getD type.fresh

def CppValue.setField (obj : CppValue m) (key : Fin m × UInt16) (v : CppValue m) : CppValue m :=
  .struct (assocSet (· == ·) key v obj.fields)

theorem CppValue.getField_setField_of_ne (obj : CppValue m) {k key : Fin m × UInt16} (h : k ≠ key)
    (v : CppValue m) (type : CppType m) :
    (obj.setField key v).getField k type = obj.getField k type := by
  have hsame : Equivalence fun a b : Fin m × UInt16 => (a == b) = true :=
    ⟨fun a => beq_self_eq_true a, fun h => beq_iff_eq.2 (beq_iff_eq.1 h).symm,
      fun h h' => beq_iff_eq.2 ((beq_iff_eq.1 h).trans (beq_iff_eq.1 h'))⟩
  have hget := assocGet_assocSet hsame k key v obj.fields
  rw [if_neg (by simpa using h)] at hget
  unfold getField setField fields
  exact congrArg (Option.getD · type.fresh) hget

theorem CppType.fresh_getField (X type : CppType m) (key : Fin m × UInt16) :
    X.fresh.getField key type = type.fresh := by
  cases X <;> rfl

end

/-! ## Promotion -/

/-- A signed value of a type -/
def BasicType.ofInt : BasicType → Int → BasicValue
  | .int8, i => .int8 (Int8.ofInt i)
  | .int16, i => .int16 (Int16.ofInt i)
  | .int32, i => .int32 (Int32.ofInt i)
  | .int64, i => .int64 (Int64.ofInt i)
  | type, _ => type.ofBits 0

/-- `static_cast<X>(value)`, for a value of a matching type -/
def BasicValue.promote (X : BasicType) : BasicValue → BasicValue
  | .bool v => .bool v
  | .string units => .string units
  | .wstring units => .wstring units
  | .double bits => .double bits
  | .float bits =>
      if X = .double then .double (Float32.ofBits bits).toFloat.toBits else .float bits
  | .int8 v => X.ofInt v.toInt
  | .int16 v => X.ofInt v.toInt
  | .int32 v => X.ofInt v.toInt
  | .int64 v => X.ofInt v.toInt
  | .uint8 v => X.ofBits v.toNat
  | .uint16 v => X.ofBits v.toNat
  | .uint32 v => X.ofBits v.toNat
  | .uint64 v => X.ofBits v.toNat

/-- The mathematical value of an integer -/
def BasicValue.toInt : BasicValue → Option Int
  | .int8 v => some v.toInt
  | .int16 v => some v.toInt
  | .int32 v => some v.toInt
  | .int64 v => some v.toInt
  | .uint8 v => some v.toNat
  | .uint16 v => some v.toNat
  | .uint32 v => some v.toNat
  | .uint64 v => some v.toNat
  | _ => none

/-- Promotion gives a value of the destination's type. -/
theorem BasicValue.promote_type {X : BasicType} {v : BasicValue}
    (h : isMatchingBasic v.type X = true) : (v.promote X).type = X := by
  cases v <;> simp only [BasicValue.type] at h <;> cases X <;>
    first | rfl | exact absurd h (by decide)

theorem BasicType.ofInt_toInt {X : BasicType} (hX : X.isSigned = true) {i : Int}
    (hle : -(256 ^ X.sizeof / 2 : Int) ≤ i) (hlt : i < 256 ^ X.sizeof / 2) :
    (X.ofInt i).toInt = some i := by
  cases X <;> simp only [isSigned, Bool.false_eq_true] at hX <;> simp only [sizeof] at hle hlt
  · rw [ofInt, BasicValue.toInt, Int8.toInt_ofInt, Int.bmod_eq_of_le] <;> simp [Int8.size] <;> omega
  · rw [ofInt, BasicValue.toInt, Int16.toInt_ofInt, Int.bmod_eq_of_le] <;> simp [Int16.size] <;> omega
  · rw [ofInt, BasicValue.toInt, Int32.toInt_ofInt, Int.bmod_eq_of_le] <;> simp [Int32.size] <;> omega
  · rw [ofInt, BasicValue.toInt, Int64.toInt_ofInt, Int.bmod_eq_of_le] <;> simp [Int64.size] <;> omega

theorem BasicType.ofBits_toInt {X : BasicType} (hX : X.isUnsigned = true) {k : Nat}
    (hlt : k < 256 ^ X.sizeof) : (X.ofBits k).toInt = some (k : Int) := by
  cases X <;> simp only [isUnsigned, Bool.false_eq_true] at hX <;> simp only [sizeof] at hlt
  · show some ((UInt8.ofNat k).toNat : Int) = some (k : Int)
    rw [UInt8.toNat_ofNat_of_lt' hlt]
  · show some ((UInt16.ofNat k).toNat : Int) = some (k : Int)
    rw [UInt16.toNat_ofNat_of_lt' hlt]
  · show some ((UInt32.ofNat k).toNat : Int) = some (k : Int)
    rw [UInt32.toNat_ofNat_of_lt' hlt]
  · show some ((UInt64.ofNat k).toNat : Int) = some (k : Int)
    rw [UInt64.toNat_ofNat_of_lt' hlt]

/-- Signed values fit their size. -/
theorem BasicValue.exists_toInt {v : BasicValue} (hv : v.type.isSigned = true) :
    ∃ i : Int, v.toInt = some i ∧ -(256 ^ v.type.sizeof / 2 : Int) ≤ i ∧
      i < 256 ^ v.type.sizeof / 2 ∧ ∀ X : BasicType, v.promote X = X.ofInt i := by
  cases v with
  | int8 v =>
    have hsize : (256 ^ BasicType.int8.sizeof / 2 : Int) = 2 ^ 7 := by
      simp only [BasicType.sizeof]; omega
    exact ⟨v.toInt, rfl, hsize ▸ v.le_toInt, hsize ▸ v.toInt_lt, fun _ => rfl⟩
  | int16 v =>
    have hsize : (256 ^ BasicType.int16.sizeof / 2 : Int) = 2 ^ 15 := by
      simp only [BasicType.sizeof]; omega
    exact ⟨v.toInt, rfl, hsize ▸ v.le_toInt, hsize ▸ v.toInt_lt, fun _ => rfl⟩
  | int32 v =>
    have hsize : (256 ^ BasicType.int32.sizeof / 2 : Int) = 2 ^ 31 := by
      simp only [BasicType.sizeof]; omega
    exact ⟨v.toInt, rfl, hsize ▸ v.le_toInt, hsize ▸ v.toInt_lt, fun _ => rfl⟩
  | int64 v =>
    have hsize : (256 ^ BasicType.int64.sizeof / 2 : Int) = 2 ^ 63 := by
      simp only [BasicType.sizeof]; omega
    exact ⟨v.toInt, rfl, hsize ▸ v.le_toInt, hsize ▸ v.toInt_lt, fun _ => rfl⟩
  | _ => simp [BasicValue.type, BasicType.isSigned] at hv

theorem BasicValue.toInt_of_isUnsigned {v : BasicValue} (hv : v.type.isUnsigned = true) :
    v.toInt = some (v.bits : Int) ∧ ∀ X : BasicType, v.promote X = X.ofBits v.bits := by
  cases v with
  | uint8 v => exact ⟨rfl, fun _ => rfl⟩
  | uint16 v => exact ⟨rfl, fun _ => rfl⟩
  | uint32 v => exact ⟨rfl, fun _ => rfl⟩
  | uint64 v => exact ⟨rfl, fun _ => rfl⟩
  | _ => simp [BasicValue.type, BasicType.isUnsigned] at hv

theorem isMatchingBasic_signed {T X : BasicType} (h : isMatchingBasic T X = true)
    (hT : T.isSigned = true) : X.isSigned = true ∧ T.sizeof ≤ X.sizeof := by
  revert h hT
  cases T <;> cases X <;> decide

theorem isMatchingBasic_unsigned {T X : BasicType} (h : isMatchingBasic T X = true)
    (hT : T.isUnsigned = true) : X.isUnsigned = true ∧ T.sizeof ≤ X.sizeof := by
  revert h hT
  cases T <;> cases X <;> decide

/-- Promotion keeps integers. -/
theorem BasicValue.promote_toInt {X : BasicType} {v : BasicValue}
    (h : isMatchingBasic v.type X = true) : (v.promote X).toInt = v.toInt := by
  by_cases hsigned : v.type.isSigned = true
  · obtain ⟨i, hi, hle, hlt, hpromote⟩ := v.exists_toInt hsigned
    obtain ⟨hX, hsize⟩ := isMatchingBasic_signed h hsigned
    have hpow : (256 : Int) ^ v.type.sizeof ≤ 256 ^ X.sizeof :=
      pow_le_pow_right₀ (by norm_num) hsize
    rw [hpromote, hi]
    exact BasicType.ofInt_toInt hX (by omega) (by omega)
  · by_cases hunsigned : v.type.isUnsigned = true
    · obtain ⟨hbits, hpromote⟩ := v.toInt_of_isUnsigned hunsigned
      obtain ⟨hX, hsize⟩ := isMatchingBasic_unsigned h hunsigned
      rw [hpromote, hbits]
      exact BasicType.ofBits_toInt hX
        (Nat.lt_of_lt_of_le v.bits_lt (Nat.pow_le_pow_right (by norm_num) hsize))
    · cases v with
      | float bits => cases X <;> rfl
      | _ => first | rfl | simp [BasicValue.type, BasicType.isSigned, BasicType.isUnsigned] at *

/-- Equivalence of the keys of a `std::map` or `std::set`: the zeros of a floating point type are
    one key. -/
def BasicValue.sameKey : BasicValue → BasicValue → Bool
  | .float a, .float b => a = b || (a.toNat % 2 ^ 31 = 0 && b.toNat % 2 ^ 31 = 0)
  | .double a, .double b => a = b || (a.toNat % 2 ^ 63 = 0 && b.toNat % 2 ^ 63 = 0)
  | v, w => v = w

/-- `set_insert` -/
def setInsert (items : List BasicValue) (v : BasicValue) : List BasicValue :=
  if items.any v.sameKey then items else items ++ [v]

end Bond.Cpp

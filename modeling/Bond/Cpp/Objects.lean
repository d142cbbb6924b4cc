import Bond.Cpp.StaticSkip
import Bond.Cpp.Variables

set_option autoImplicit false

/-! # C++ objects

Objects of the structs that `gbc` generates for C++, and what the transform `Serializer`
(cpp/inc/bond/core/transforms.h) hands to a `SimpleBinaryWriter` for them. -/

namespace Bond.Cpp

open Decoder InputBuffer

/-! ## Objects -/

mutual

/-- The value of a variable with all that is in it. A `bonded` is given by what it is marshaled to,
    and the items of a set or a map stand in the order in which they are iterated. -/
inductive CppObject where
  | basic (v : BasicValue)
  | struct (s : CppStructObject)
  | bonded (marshaled : List UInt8)
  | list (items : List CppObject)
  | nullable (item : Option CppObject)
  | blob (bytes : List UInt8)
  | set (items : List BasicValue)
  | map (entries : List (BasicValue × CppObject))

/-- An object of a class with its base subobject, and its members by their field ids. A `maybe` with
    nothing in it is `none`. -/
inductive CppStructObject where
  | root (members : List (UInt16 × Option CppObject))
  | derived (base : CppStructObject) (members : List (UInt16 × Option CppObject))

end

/-- The members of a class -/
abbrev Members := List (UInt16 × Option CppObject)

variable {m : Nat}

mutual

/-- The objects of a type, nested no deeper than `d`. The sizes of strings and containers fit a
    `uint32_t`, and the keys of a set or a map are different. -/
inductive CppSchema.HasType (C : CppSchema m) : Nat → CppType m → CppObject → Prop
  | basic {d} (v : BasicValue) (h : v.wellFormed = true) :
      HasType C (d + 1) (.basic v.type) (.basic v)
  | struct {d x s} (h : HasStruct C d x s) : HasType C (d + 1) (.struct x) (.struct s)
  /-- a `bonded` may hold any struct, marshaled as Compact Binary -/
  | bonded {d x xs} (hx : C.schemaDef.Hierarchy x xs) (version : CompactBinary.Version)
      (s : StructValue) (hs : ∀ fs ∈ s.levels, PayloadIncreasing fs) (hwf : s.wellFormed = true)
      (hlen : (marshal version s).length < 2 ^ 32) :
      HasType C (d + 1) (.bonded x) (.bonded (marshal version s))
  | list {d element items} (hlen : items.length < 2 ^ 32)
      (h : ∀ o ∈ items, HasType C d element o) : HasType C (d + 1) (.list element) (.list items)
  | nullable {d element item} (h : ∀ o, item = some o → HasType C d element o) :
      HasType C (d + 1) (.nullable element) (.nullable item)
  | blob {d bytes} (hlen : bytes.length < 2 ^ 32) : HasType C (d + 1) .blob (.blob bytes)
  | set {d T items} (hlen : items.length < 2 ^ 32)
      (h : ∀ v ∈ items, v.type = T ∧ v.wellFormed = true)
      (hdistinct : items.Pairwise fun v w => w.sameKey v = false) :
      HasType C (d + 1) (.set T) (.set items)
  | map {d K element entries} (hlen : entries.length < 2 ^ 32)
      (hkeys : ∀ entry ∈ entries, entry.1.type = K ∧ entry.1.wellFormed = true)
      (hdistinct : (entries.map Prod.fst).Pairwise fun v w => w.sameKey v = false)
      (h : ∀ entry ∈ entries, HasType C d element entry.2) :
      HasType C (d + 1) (.map K element) (.map entries)

/-- The objects of a class: its members, in the order of the fields. -/
inductive CppSchema.HasStruct (C : CppSchema m) : Nat → Fin m → CppStructObject → Prop
  | root {d x members} (hbase : (C.structs x).base = none)
      (hids : members.map Prod.fst = (C.structs x).fields.map CppField.id)
      (h : ∀ p ∈ (C.structs x).fields.zip members, ∀ o, p.2.2 = some o →
        HasType C d p.1.type o) :
      HasStruct C (d + 1) x (.root members)
  | derived {d x y base members} (hbase : (C.structs x).base = some y)
      (hy : HasStruct C d y base)
      (hids : members.map Prod.fst = (C.structs x).fields.map CppField.id)
      (h : ∀ p ∈ (C.structs x).fields.zip members, ∀ o, p.2.2 = some o →
        HasType C d p.1.type o) :
      HasStruct C (d + 1) x (.derived base members)

end

/-! ## Serialization -/

section

variable (version : SimpleBinary.Version)

mutual

/-- `Serializer::Write` to a `SimpleBinaryWriter`. There are no bytes where `maybe::value` throws
    since there is nothing in it: this protocol does not omit fields. -/
def CppObject.serialize : CppObject → Option (List UInt8)
  | .basic v => some (outputBytes (SimpleBinary.write version v))
  | .struct s => s.serialize
  | .bonded marshaled => some (outputBytes (SimpleBinary.writeBlob marshaled))
  | .list items => do
      let bytes ← serializeItems items
      return outputBytes (SimpleBinary.writeSize version (UInt32.ofNat items.length)) ++ bytes
  | .nullable none => some (outputBytes (SimpleBinary.writeSize version 0))
  | .nullable (some o) => do
      let bytes ← o.serialize
      return outputBytes (SimpleBinary.writeSize version 1) ++ bytes
  | .blob bytes =>
      some (outputBytes (SimpleBinary.writeSize version (UInt32.ofNat bytes.length))
        ++ outputBytes [.write bytes])
  | .set items =>
      some (outputBytes (SimpleBinary.writeSize version (UInt32.ofNat items.length))
        ++ items.flatMap fun v => outputBytes (SimpleBinary.write version v))
  | .map entries => do
      let bytes ← serializeEntries entries
      return outputBytes (SimpleBinary.writeSize version (UInt32.ofNat entries.length)) ++ bytes

def serializeItems : List CppObject → Option (List UInt8)
  | [] => some []
  | o :: os => do
      let bytes ← o.serialize
      return bytes ++ (← serializeItems os)

def serializeEntries : List (BasicValue × CppObject) → Option (List UInt8)
  | [] => some []
  | (k, o) :: entries => do
      let bytes ← o.serialize
      return outputBytes (SimpleBinary.write version k) ++ bytes ++ (← serializeEntries entries)

/-- `Serializer::Field` for each of the fields -/
def serializeMembers : List (UInt16 × Option CppObject) → Option (List UInt8)
  | [] => some []
  | (_, none) :: _ => none
  | (_, some o) :: members => do
      let bytes ← o.serialize
      return bytes ++ (← serializeMembers members)

/-- `ParserInheritance::Read` of an object: `Serializer::Base` for its base, then the fields. -/
def CppStructObject.serialize : CppStructObject → Option (List UInt8)
  | .root members => serializeMembers members
  | .derived base members => do
      let bytes ← base.serialize
      return bytes ++ (← serializeMembers members)

end

end

/-! ### Objects that can be serialized -/

mutual

/-- There is something in every `maybe`. -/
def CppObject.filled : CppObject → Bool
  | .struct s => s.filled
  | .list items => itemsFilled items
  | .nullable (some o) => o.filled
  | .map entries => entriesFilled entries
  | _ => true

def itemsFilled : List CppObject → Bool
  | [] => true
  | o :: os => o.filled && itemsFilled os

def entriesFilled : List (BasicValue × CppObject) → Bool
  | [] => true
  | (_, o) :: entries => o.filled && entriesFilled entries

def membersFilled : List (UInt16 × Option CppObject) → Bool
  | [] => true
  | (_, none) :: _ => false
  | (_, some o) :: members => o.filled && membersFilled members

def CppStructObject.filled : CppStructObject → Bool
  | .root members => membersFilled members
  | .derived base members => base.filled && membersFilled members

end

section

variable (version : SimpleBinary.Version)

mutual

/-- Nothing else but a `maybe` with nothing in it keeps an object from being serialized. -/
theorem CppObject.serialize_isSome : ∀ o : CppObject, (o.serialize version).isSome = o.filled
  | .basic _ | .bonded _ | .blob _ | .set _ | .nullable none => rfl
  | .struct s => s.serialize_isSome
  | .list items => by
      rw [CppObject.serialize, CppObject.filled, ← serializeItems_isSome items]
      cases serializeItems version items <;> rfl
  | .nullable (some o) => by
      rw [CppObject.serialize, CppObject.filled, ← o.serialize_isSome]
      cases o.serialize version <;> rfl
  | .map entries => by
      rw [CppObject.serialize, CppObject.filled, ← serializeEntries_isSome entries]
      cases serializeEntries version entries <;> rfl

theorem serializeItems_isSome : ∀ os : List CppObject,
    (serializeItems version os).isSome = itemsFilled os
  | [] => rfl
  | o :: os => by
      rw [serializeItems, itemsFilled, ← o.serialize_isSome, ← serializeItems_isSome os]
      cases o.serialize version <;> cases serializeItems version os <;> rfl

theorem serializeEntries_isSome : ∀ entries : List (BasicValue × CppObject),
    (serializeEntries version entries).isSome = entriesFilled entries
  | [] => rfl
  | (_, o) :: entries => by
      rw [serializeEntries, entriesFilled, ← o.serialize_isSome, ← serializeEntries_isSome entries]
      cases o.serialize version <;> cases serializeEntries version entries <;> rfl

theorem serializeMembers_isSome : ∀ members : List (UInt16 × Option CppObject),
    (serializeMembers version members).isSome = membersFilled members
  | [] | (_, none) :: _ => rfl
  | (_, some o) :: members => by
      rw [serializeMembers, membersFilled, ← o.serialize_isSome, ← serializeMembers_isSome members]
      cases o.serialize version <;> cases serializeMembers version members <;> rfl

theorem CppStructObject.serialize_isSome : ∀ s : CppStructObject,
    (s.serialize version).isSome = s.filled
  | .root members => serializeMembers_isSome members
  | .derived base members => by
      rw [CppStructObject.serialize, CppStructObject.filled, ← base.serialize_isSome,
        ← serializeMembers_isSome members]
      cases base.serialize version <;> cases serializeMembers version members <;> rfl

end

end

end Bond.Cpp

import Bond.Lib.Consumes
import Bond.Java.Slicing

set_option autoImplicit false

/-! # Element types in Java

A reader compares the type of the elements of a container with the one that it expects, and rejects
the payload if they differ. It does so for containers within containers and structs as well, since no
exception is caught on the way: a payload is read only if all containers in it that are read have the
element types of their type descriptors. -/

namespace Bond.Java

open Bond.Cpp (BondDataType BasicType ListKind)
open Bond.Lib Bond.Managed
open Decoder Hereditary
open StringHelper

/-- The elements of a container that is read have the types that are expected. -/
def Task.Matches : Task → Prop
  | .read .blob (.list _ element _) => element = .basic .int8
  | .read .blob (.blob element _) => element = .basic .int8
  | .read (.vector e) (.list _ element _) => element = e.getBondDataType
  | .read (.vector e) (.blob element _) => element = e.getBondDataType
  | .read (.list e) (.list _ element _) => element = e.getBondDataType
  | .read (.list e) (.blob element _) => element = e.getBondDataType
  | .read (.set e) (.list _ element _) => element = e.getBondDataType
  | .read (.nullable e) (.list _ element _) => element = e.getBondDataType
  | .read (.nullable e) (.blob element _) => element = e.getBondDataType
  | .read (.map k e) (.map key element _) => key = k.getBondDataType ∧ element = e.getBondDataType
  | _ => True

theorem throws_throwException {α : Type} (e : Exception) (symbols : List UInt8) :
    Throws (throwException e : Reader α) symbols :=
  fun _ _ => ⟨e, rfl⟩

theorem consumes_throwException {α : Type} {e : Exception} {enc : List UInt8} {Q : α → Prop} :
    Consumes (throwException e : Reader α) enc Q :=
  .of_throws (throws_throwException e)

section

variable {reader : TaggedProtocolReader} {F : TwoPass.Format WriterCall Int32}
  (G : Grammar reader F)

include G

/-! ## Containers -/

end

/-! ## Tasks -/

section

variable {p : Protocol} {types : Nat → StructBondType}

/-- All containers that are read with a task have the element types that are expected. -/
def Task.MatchesAll (p : Protocol) (types : Nat → StructBondType) : Task → Prop :=
  Everywhere (Task.children p types) Task.Matches

/-- A task is done only if all containers that are read match, however the depth is bounded. -/
def Task.DoneIfMatching (p : Protocol) (types : Nat → StructBondType) : Task → Prop
  | .read type v => v.wellFormed encodeString = true → v.typeId = type.getBondDataType →
      ∀ fuel, (v.encode p.format).length < fuel →
        Consumes (deserializeWithin p.reader types fuel type) (v.encode p.format)
          fun _ => Task.MatchesAll p types (.read type v)
  | .skip v => v.wellFormed encodeString = true →
      Decodes (p.reader.skip v.typeId) (v.encode p.format) (pure ())

/-- The same for a task on a field, with the methods that read a field. -/
def Task.FieldDoneIfMatching (p : Protocol) (types : Nat → StructBondType)
    (onField : BondType → BondDataType → Reader Object) : Task → Prop
  | .read type v => Consumes (onField type v.typeId) (v.encode p.format)
      fun _ => Task.MatchesAll p types (.read type v)
  | .skip v => v.wellFormed encodeString = true ∧
      Decodes (p.reader.skip v.typeId) (v.encode p.format) (pure ())

/-- A primitive is read as what it is, or as what is widened to the type of the field. -/
theorem consumes_deserializePrimitiveField {type : BasicType} {v : Value}
    (hwf : v.wellFormed encodeString = true) :
    Consumes (deserializePrimitiveField p.reader type v.typeId) (v.encode p.format)
      fun _ => Task.MatchesAll p types (.read (.primitive type) v) := by
  have G := p.skipRules.grammar
  have hall : Task.MatchesAll p types (.read (.primitive type) v) :=
    .intro trivial fun c hc => by cases hc
  unfold deserializePrimitiveField
  split
  · next b hb =>
      obtain ⟨x, rfl, rfl⟩ := Value.eq_basic_of_typeId hb
      have hread := G.read x hwf
      split_ifs with htype
      · exact .of_decodes ((htype ▸ hread).map Object.primitive) hall
      · exact .of_decodes (hread.map fun v => Object.primitive (widen type v)) hall
      · exact consumes_throwException
  · exact consumes_throwException

theorem Task.DoneIfMatching.asField {c : Task} (h : c.DoneIfMatching p types)
    (hwf : ∀ v, (c = .skip v ∨ ∃ type, c = .read type v) → v.wellFormed encodeString = true)
    {fuel : Nat} (hfuel : ∀ type v, c = .read type v → (v.encode p.format).length < fuel) :
    c.FieldDoneIfMatching p types
      (deserializeField p.reader (deserializeWithin p.reader types fuel)) := by
  cases c with
  | skip v => exact ⟨hwf v (.inl rfl), h (hwf v (.inl rfl))⟩
  | read type v =>
      have hv := hwf v (.inr ⟨type, rfl⟩)
      cases type with
      | primitive b => exact consumes_deserializePrimitiveField hv
      | _ =>
          show Consumes (if _ then _ else _) _ _
          split_ifs with htype
          · exact consumes_throwException
          · exact h hv (not_not.1 htype) fuel (hfuel _ v rfl)

/-! ## Structs -/

end

end Bond.Java

import Bond.Cpp.TranscodedBytes
import Bond.Lib.Handle

set_option autoImplicit false

/-! # What a parser hands to a transform

A parser hands each value to the transform as a `value` or a `bonded` that refers to the parser's own
reader (cpp/inc/bond/core/value.h, bonded.h). The flag `_skip` says that the value is still unread; if
it is when the handle ends, the destructor skips it. -/

namespace Bond.Cpp

open Decoder Handle

variable {n m : Nat}

/-! ## Uses -/

/-- What a transform does with a `value`. -/
inductive ValueUse (m : Nat) where
  /-- nothing -/
  | ignore
  /-- `Skip()` -/
  | skip
  /-- `Deserialize(var)`, for a variable of any type -/
  | deserialize (X : CppType m) (var : CppValue m)
  /-- `Serializer::Write`; with `pass` to a writer of the same protocol and version as the reader -/
  | serialize (pass : Bool)

/-- What a transform does with a `bonded`. -/
inductive BondedUse (m : Nat) where
  /-- nothing -/
  | ignore
  /-- `Skip()` -/
  | skip
  /-- `Deserialize` to a `bonded<U>`, which gets a copy of the reader -/
  | keep
  /-- `Deserialize(var)`, for an object of any type -/
  | deserialize (x : Fin m) (var : CppValue m)
  /-- `Apply` of a `Serializer`, where `firstPass` is `NeedPass0` -/
  | serialize (pass firstPass : Bool)
  /-- `Apply` of a transform that is handed the fields in the same way -/
  | apply

/-- A transform: what it does with each handle. A place is the number of the handle among all that the
    transform is handed, in front of the place of the handle it is applied to. -/
structure Uses (m : Nat) where
  value : List Nat → ValueUse m
  bonded : List Nat → BondedUse m

/-- What has become of a handle when it has ended: the bytes that the parser's reader has moved over
    since it was made, and what has become of the handles of a transform that was applied to it. -/
inductive Entry where
  | mk (bytes : List UInt8) (nested : List Entry)

def Entry.bytes : Entry → List UInt8
  | mk bytes _ => bytes

/-! ## Handles -/

section

variable (R : ProtocolReader) (debug : Bool) (C : CppSchema m) (S : SchemaDef n) (time : SchemaTime)

/-- A `value` in the hands of a transform -/
def useValue (type : TypeDef n) : ValueUse m → StateT Bool Reader (List Entry)
  | .ignore => leave []
  | .skip => pay do
      R.skip type.id
      return []
  | .deserialize X var => pay do
      let _ ← deserializeVar R debug S C time type X var
      return []
  | .serialize pass => pay do
      let _ ← serializeValue R pass S time type
      return []

/-- `bonded::Deserialize(var)`: `Apply` of `To` -/
def deserializeBonded (base : Bool) (i : Fin n) (x : Fin m) (var : CppValue m) :
    Reader (CppValue m) := do
  let left ← InputBuffer.remainingLength
  let transform := toTransform R C (deserializeWithin R debug S C left) S time m x
  let (_, state) ← (applyParser R transform S time base i).run (var, none)
  return state.1

/-- `Apply` of a `Serializer` to a `bonded` -/
def serializeBonded (pass base : Bool) (i : Fin n) : Reader (List WriterCall) := do
  let left ← InputBuffer.remainingLength
  serializeStruct R pass (serializeWithin R pass left) S time base i

/-- A `bonded` in the hands of a transform. A copy of the reader leaves the reader where it is, and the
    flag as well. -/
def useBonded (base : Bool) (i : Fin n) (nested : Reader (List Entry)) :
    BondedUse m → StateT Bool Reader (List Entry)
  | .ignore | .keep => leave []
  | .skip => pay do
      R.skip .struct
      return []
  | .deserialize x var => pay do
      let _ ← deserializeBonded R debug C S time base i x var
      return []
  | .serialize pass firstPass => pay do
      if firstPass then
        -- `DoublePassApply` applies twice to the same `bonded`
        let _ ← serializeBonded R S time pass base i
      let _ ← serializeBonded R S time pass base i
      return []
  | .apply => pay nested

end

/-- A handle from its construction to its end. The destructor skips what is still to be skipped, and
    looks neither at the kind of the handle nor at exceptions. -/
def hand (skip : Reader Unit) (path : List Nat)
    (use : List Nat → StateT Bool Reader (List Entry)) : ParserM (List Entry) Unit := do
  let entries ← get
  let before ← onInput get
  let nested ← onInput (settle (nothrow skip) (use (entries.length :: path)))
  let after ← onInput get
  set (entries ++ [.mk (before.remaining.take (after.pointer - before.pointer)) nested])

section

variable (R : ProtocolReader) (debug : Bool) (C : CppSchema m) (uses : Uses m)
  (nested : ∀ n, SchemaDef n → SchemaTime → Bool → Fin n → List Nat → Reader (List Entry))

/-- A field, with the type that the parser has for it -/
def handField (path : List Nat) (S : SchemaDef n) (time : SchemaTime) (type : TypeDef n) :
    ParserM (List Entry) Unit :=
  hand (R.skip type.id) path fun place =>
    match type with
    | .struct i _ =>
        useBonded R debug C S time false i (nested n S time false i place) (uses.bonded place)
    | type => useValue R debug C S time type (uses.value place)

/-- The transform, as the parser sees it. The handle of a base is a `bonded` too; `Skip` of a reader of
    a tagged protocol does not ask whether it is one of a base. -/
def handing (path : List Nat) (S : SchemaDef n) (time : SchemaTime) :
    Transform n (List Entry) where
  expectedDepth := 0xffff
  begin_ _ := return ()
  end_ := return ()
  unknownEnd := return ()
  base j := do
    hand (R.skip .struct) path fun place =>
      useBonded R debug C S time true j (nested n S time true j place) (uses.bonded place)
    return false
  nonBasicTypeField f := handField R debug C uses nested path S time f.type
  basicTypeField _ _ T := handField R debug C uses nested path S .compileTime (.basic T)
  unknownField _ type := handField R debug C uses nested path unknownSchema .runtime (unknownType type)
  omittedField _ := return ()

end

/-- `Apply` of the transform to a struct or a base. `fuel` bounds the depth of the applications. -/
def applyHanding (R : ProtocolReader) (debug : Bool) (C : CppSchema m) (uses : Uses m) :
    Nat → ∀ n, SchemaDef n → SchemaTime → Bool → Fin n → List Nat → Reader (List Entry)
  | 0, _, _, _, _, _, _ => InputBuffer.bondThrow .undefinedBehavior
  | fuel + 1, _, S, time, base, i, path => do
      let transform := handing R debug C uses (applyHanding R debug C uses fuel) path S time
      let (_, entries) ← (applyParser R transform S time base i).run []
      return entries

/-- A parsing run: `Apply` of the transform to a struct of the payload. Every nested application reads
    less, so the bytes left bound the depth. -/
def parseHanding (R : ProtocolReader) (debug : Bool) (C : CppSchema m) (uses : Uses m)
    (S : SchemaDef n) (time : SchemaTime) (i : Fin n) : Reader (List Entry) := do
  let left ← InputBuffer.remainingLength
  applyHanding R debug C uses (left + 1) n S time false i []

end Bond.Cpp

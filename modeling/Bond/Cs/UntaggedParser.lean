import Bond.Cpp.Schema
import Bond.Cs.SimpleBinary

set_option autoImplicit false

/-! # The untagged parser of C#

`UntaggedParser` (cs/src/core/expressions/UntaggedParser.cs) generates code from the schema of a
payload: there is nothing in the payload itself that says what a value is or where it ends. What the
generated code does to a payload is modelled.

A struct that is being skipped already is skipped by a lambda that is compiled for it; a lambda does
what is generated in place otherwise. The depth of the recursion is bounded by `fuel`. -/

namespace Bond.Cs

open Bond.Cpp (BondDataType BasicType FieldDef TypeDef)
open Bond.Managed
open Decoder

variable {n : Nat}

/-- The structs that a `RuntimeSchema` refers to. -/
structure RuntimeSchema (n : Nat) where
  baseDef : Fin n → Option (Fin n)
  fields : Fin n → List (FieldDef n)

namespace UntaggedParser

/-! ## Applying a transform -/

/-- A field that a transform handles. -/
structure KnownField (γ : Type) where
  value : Reader γ
  omitted : Reader Unit

/-- `ITransform`, as far as the parser looks at it; a base is given by its struct. -/
structure Transform (n : Nat) (β γ : Type) where
  base : Fin n → Reader β
  fields : FieldDef n → Option (KnownField γ)
  unknownField : FieldDef n → Option (Reader Unit)

section

variable {β γ : Type} (S : RuntimeSchema n) (skip : TypeDef n → Reader Unit)
  (transform : Transform n β γ)

/-- `Field` -/
def field (fieldDef : FieldDef n) : Reader (Option γ) := do
  if ← SimpleBinary.readFieldOmitted then
    match transform.fields fieldDef with
    | some field =>
        field.omitted
        return none
    | none => return none
  else
    match transform.fields fieldDef with
    | some field => return some (← field.value)
    | none =>
        match transform.unknownField fieldDef with
        | some unknownField =>
            unknownField
            return none
        | none =>
            skip fieldDef.type
            return none

/-- What a transform does for the base of a struct. -/
def applyBase (i : Fin n) : Reader (Option β) :=
  match S.baseDef i with
  | some base => return some (← transform.base base)
  | none => return none

/-- `Apply`; what the transform hands over for the base, and for each field. -/
def apply (i : Fin n) : Reader (Option β × List (Option γ)) := do
  let base ← applyBase S transform i
  let fields ← (S.fields i).mapM (field skip transform)
  return (base, fields)

end

/-! ## Skipping -/

section

variable (S : RuntimeSchema n) (version : UInt16)

/-- `skipStructTransform` -/
def skipStructTransform (skip : TypeDef n → Reader Unit) : Transform n Unit Unit where
  base i := skip (.struct i false)
  fields _ := none
  unknownField _ := none

/-- `while (count-- > 0)` -/
def while_ {β : Type} (count : Int32) (body : Reader β) : Reader (List β) :=
  repeatN count.toInt.toNat body

/-- `Skip`, with `SkipSet`, `SkipList`, `SkipMap` and `SkipStruct`. Nothing is made of the
    `bonded_type` of a struct. -/
def skip : Nat → TypeDef n → Reader Unit
  | 0, _ => InputBuffer.throwException .endOfStream
  | _ + 1, .basic type => SimpleBinary.skipBasic version type
  | fuel + 1, .set element => do
      let count ← SimpleBinary.readLength version
      let _ ← while_ count (skip fuel element)
      return ()
  | fuel + 1, .list element => do
      let count ← SimpleBinary.readLength version
      if element.id = .basic .uint8 ∨ element.id = .basic .int8 then
        InputBuffer.skipBytes count
      else
        let _ ← while_ count (skip fuel element)
        return ()
  | fuel + 1, .map key element => do
      let count ← SimpleBinary.readLength version
      let _ ← while_ count do
        skip fuel key
        skip fuel element
      return ()
  | fuel + 1, .struct i _ => do
      let _ ← apply S (skip fuel) (skipStructTransform (skip fuel)) i
      return ()

end

/-! ## Reading

What a transform that reads some of the fields is handed. Containers are read item by item, and a
`bonded` is unmarshaled from its payload later. -/

inductive Handed where
  | scalar (v : SimpleBinary.Scalar)
  | container (items : List Handed)
  | map (items : List (Handed × Handed))
  | struct (levels : List (List (UInt16 × Handed)))
  | bonded (payload : List UInt8)

/-- The levels of a struct that is read as a base. -/
def Handed.levels : Handed → List (List (UInt16 × Handed))
  | .struct levels => levels
  | _ => []

section

variable (S : RuntimeSchema n) (version : UInt16) (known : Fin n → UInt16 → Bool)

/-- The transform of a struct of which some fields are known. -/
def structTransform (read : TypeDef n → Reader Handed) (i : Fin n) :
    Transform n Handed (UInt16 × Handed) where
  base j := read (.struct j false)
  fields fieldDef :=
    if known i fieldDef.id then
      some { value := do return (fieldDef.id, ← read fieldDef.type), omitted := pure () }
    else none
  unknownField _ := none

/-- The struct of what is read for its base and for its fields. -/
def handedStruct (base : Option Handed) (fields : List (Option (UInt16 × Handed))) : Handed :=
  .struct ((base.map Handed.levels).getD [] ++ [fields.reduceOption])

/-- `ReadMarshaledBonded`, up to `Unmarshal.From` -/
def readMarshaledBonded : Reader (List UInt8) := do
  let count ← InputBuffer.readUInt32
  InputBuffer.readBytes count.toInt32

/-- `Scalar`, `Container`, `Map`, `Bonded` and `Apply` for a value that is read. -/
def read : Nat → TypeDef n → Reader Handed
  | 0, _ => InputBuffer.throwException .endOfStream
  | _ + 1, .basic type => do return .scalar (← SimpleBinary.read version type)
  | fuel + 1, .set element => do
      let count ← SimpleBinary.readLength version
      return .container (← while_ count (read fuel element))
  | fuel + 1, .list element => do
      let count ← SimpleBinary.readLength version
      return .container (← while_ count (read fuel element))
  | fuel + 1, .map key element => do
      let count ← SimpleBinary.readLength version
      return .map (← while_ count do
        let k ← read fuel key
        return (k, ← read fuel element))
  | _ + 1, .struct _ true => do return .bonded (← readMarshaledBonded)
  | fuel + 1, .struct i false => do
      let (base, fields) ← apply S (skip S version fuel)
        (structTransform known (read fuel) i) i
      return handedStruct base fields

end

end UntaggedParser

end Bond.Cs

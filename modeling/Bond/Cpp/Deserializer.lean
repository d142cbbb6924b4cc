import Bond.Cpp.MarshaledBonded
import Bond.Cpp.Variables

set_option autoImplicit false

/-! # Deserializing a variable

`value<T>::Deserialize` and `value<void>::Deserialize` (cpp/inc/bond/core/value.h), for a value of a
tagged payload: the containers of `value.h` and `detail/typeid_value.h`, and the transform `To`
(transforms.h) for structs. Which overload is taken depends on the C++ type of the variable, and on
the type that the payload's schema has for the value. -/

namespace Bond.Cpp

open Decoder InputBuffer

variable {n m : Nat}

/-! ## Overloads -/

/-- The schema of the elements of a container, and of the mapped values of a map -/
def TypeDef.element : TypeDef n → TypeDef n
  | .list element | .set element | .map _ element => element
  | type => type

/-- The schema of the keys of a map -/
def TypeDef.key : TypeDef n → TypeDef n
  | .map key _ => key
  | type => type

/-- `is_nested_container`, for the type of the elements -/
def CppType.isNested (X : CppType m) : Bool :=
  X.isBondType || X.isContainer

/-- `is_element_matching`: a `value<void>` matches every element that is not of a basic type. -/
def isElementMatching : SchemaTime → TypeDef n → CppType m → Bool
  | .compileTime, T, X => isMatching T X
  | .runtime, _, X => X.isNested

/-- `is_matching` of an element, which the overload for `nullable` asks for: a `value<void>` matches
    containers. -/
def isNullableMatching : SchemaTime → TypeDef n → CppType m → Bool
  | .compileTime, T, X => isMatching T X
  | .runtime, _, X => X.isContainer

/-- The overloads of `Deserialize` that do not skip the value -/
def isValueMatching : SchemaTime → TypeDef n → CppType m → Bool
  | .compileTime, T, X => isMatching T X
  | .runtime, T, X => X.isNested && decide (T.id = X.id)

/-- The fields that `To::Field` looks at: `nested_fields`, `matching_fields` and
    `container_fields` -/
def isFieldMatching : SchemaTime → TypeDef n → CppType m → Bool
  | .compileTime, T, X => isMatching T X
  | .runtime, .struct _ _, X => X.isBondType
  | .runtime, _, X => X.isContainer

/-! ## Containers -/

section

variable (R : ProtocolReader)

/-- `detail::SkipElements` -/
def skipElements (type : BondDataType) (size : Nat) : Reader Unit := do
  let _ ← repeatN size (R.skip type)
  return ()

/-- `detail::SkipElements` for the pairs of a map -/
def skipPairs (keyType elementType : BondDataType) (size : Nat) : Reader Unit := do
  let _ ← repeatN size do
    R.skip keyType
    R.skip elementType
  return ()

/-- `value<T>::Deserialize` for a basic type and a matching variable -/
def deserializeBasic (T X : BasicType) : Reader BasicValue :=
  BasicValue.promote X <$> R.read T

/-- The loop of `DeserializeElements` for a set -/
def insertElements (T X : BasicType) : Nat → List BasicValue → Reader (List BasicValue)
  | 0, items => return items
  | size + 1, items => do
      let e ← deserializeBasic R T X
      insertElements T X size (setInsert items e)

/-- `resize_list` -/
def resizeList (X : CppType m) (size : Nat) (items : List (CppValue m)) : List (CppValue m) :=
  items.take size ++ List.replicate (size - items.length) X.fresh

variable (debug : Bool)
  (deserialize : SchemaTime → TypeDef n → CppType m → CppValue m → Reader (CppValue m))

/-- `DeserializeElements`, for elements of which `element` is the type. The overload for `nullable` is
    not there for a struct and a `value<void>`; the one for lists is. -/
def deserializeElements (time : SchemaTime) (element : TypeDef n) (X : CppType m) (var : CppValue m)
    (size : Nat) : Reader (CppValue m) :=
  match X with
  | .list X =>
      if isElementMatching time element X then do
        let items ← (resizeList X size var.items).mapM (deserialize time element X)
        return .list items
      else do
        skipElements R element.id size
        return var
  | .nullable X =>
      if isNullableMatching time element X then
        if size = 0 then
          return .nullable none
        else do
          let item ← deserialize time element X (var.item.getD X.fresh)
          skipElements R element.id (size - 1)
          return .nullable (some item)
      else if isElementMatching time element X then
        if size = 0 then
          return .nullable none
        else do
          let item ← deserialize time element X (var.item.getD X.fresh)
          return .nullable (some item)
      else do
        skipElements R element.id size
        return var
  | .blob =>
      if element = .basic .int8 then do
        let bytes ← readBytes size
        return .blob bytes
      else do
        skipElements R element.id size
        return var
  | .set X =>
      match element with
      | .basic T =>
          if isMatchingBasic T X then do
            let items ← insertElements R T X size []
            return .set items
          else do
            skipElements R (.basic T) size
            return var
      | element => do
          skipElements R element.id size
          return var
  | _ => do
      skipElements R element.id size
      return var

/-- `DeserializeContainer`, for a container that is not a map. The elements of a type that
    `MatchingTypeContainer` does not list are skipped like those that `DeserializeElements` does not
    match. -/
def deserializeContainer (time : SchemaTime) (element : TypeDef n) (X : CppType m)
    (var : CppValue m) : Reader (CppValue m) := do
  let (size, type) ← R.readContainerBegin
  if X.element.isNested then
    if type = element.id then
      deserializeElements R deserialize time element X var size
    else do
      skipElements R type size
      return var
  else
    match type with
    | .basic T => deserializeElements R deserialize .compileTime (.basic T) X var size
    | type => do
        skipElements R type size
        return var

/-- The loop of `DeserializeMapElements`. A debug build starts with a new value for every key. -/
def deserializeMapElements (K Y : BasicType) (time : SchemaTime) (element : TypeDef n)
    (X : CppType m) :
    Nat → List (BasicValue × CppValue m) → Reader (List (BasicValue × CppValue m))
  | 0, entries => return entries
  | size + 1, entries => do
      let k ← deserializeBasic R K Y
      let old := if debug then X.fresh else (assocGet BasicValue.sameKey k entries).getD X.fresh
      let v ← deserialize time element X old
      deserializeMapElements K Y time element X size (assocSet BasicValue.sameKey k v entries)

/-- `detail::MapByKey` -/
def mapByKey (keyType : BondDataType) (time : SchemaTime) (element : TypeDef n) (Y : BasicType)
    (X : CppType m) (var : CppValue m) (size : Nat) : Reader (CppValue m) :=
  match keyType with
  | .basic K =>
      if isElementMatching time element X ∧ isMatchingBasic K Y then do
        let entries ← deserializeMapElements R debug deserialize K Y time element X size []
        return .map entries
      else do
        skipPairs R (.basic K) element.id size
        return var
  | keyType => do
      skipPairs R keyType element.id size
      return var

/-- `DeserializeMap` -/
def deserializeMap (time : SchemaTime) (element : TypeDef n) (Y : BasicType) (X : CppType m)
    (var : CppValue m) : Reader (CppValue m) := do
  let (size, keyType, type) ← R.readContainerBeginPair
  if X.isNested then
    if type = element.id then
      mapByKey R debug deserialize keyType time element Y X var size
    else do
      skipPairs R keyType type size
      return var
  else
    match type with
    | .basic T => mapByKey R debug deserialize keyType .compileTime (.basic T) Y X var size
    | type => do
        skipPairs R keyType type size
        return var

end

/-! ## Structs -/

/-- `next_required_field` -/
def nextRequired (fields : List (CppField m)) : Option UInt16 :=
  (fields.find? fun g => g.metadata.modifier = .required).map CppField.id

/-- The object that `To` refers to, and the `_required` of its `RequiredFieldValiadator`; there is no
    `invalid_field_id` here. -/
abbrev ToState (m : Nat) := CppValue m × Option UInt16

section

variable (R : ProtocolReader) (C : CppSchema m)
  (deserialize : SchemaTime → TypeDef n → CppType m → CppValue m → Reader (CppValue m))

/-- `MissingFieldException` -/
def missingFieldException (x : Fin m) (required : Option UInt16) : ParserM (ToState m) Unit :=
  onInput (bondThrow (.missingField (required.getD 0xffff) (C.structs x).metadata.qualifiedName))

/-- `Validate<Head>` -/
def validateField (x : Fin m) (head : CppField m) : ParserM (ToState m) Unit := do
  if head.metadata.modifier = .required then do
    let (var, required) ← get
    if required = some head.id then
      set (var, nextRequired ((C.structs x).fields.dropWhile fun g => g.id ≤ head.id))
    else
      missingFieldException C x required
  else
    return ()

/-- `Validate<Schema>` -/
def validateSchema (x : Fin m) : ParserM (ToState m) Unit := do
  let (_, required) ← get
  if required.isSome then missingFieldException C x required else return ()

/-- The field of a struct that a value is assigned to. -/
def findField (x : Fin m) (time : SchemaTime) (id : UInt16) (type : TypeDef n) :
    Option (CppField m) :=
  (C.structs x).fields.find? fun g => g.id = id && isFieldMatching time type g.type

/-- `To::Field`, with a value of the type `type`. A value without a field skips itself. -/
def assignToField (x : Fin m) (time : SchemaTime) (id : UInt16) (type : TypeDef n) :
    ParserM (ToState m) Unit :=
  match findField C x time id type with
  | none => onInput (nothrow (R.skip type.id))
  | some head => do
      validateField C x head
      let (var, required) ← get
      let v ← onInput (deserialize time type head.type (var.getField (x, id) head.type))
      set (var.setField (x, id) v, required)

/-- `To` for the fields of one level -/
def toFields (time : SchemaTime) (x : Fin m) : Transform n (ToState m) where
  expectedDepth := (C.schemaDef.schemaDepth x).getD 0
  begin_ _ := modify fun state => (state.1, nextRequired (C.structs x).fields)
  end_ := validateSchema C x
  unknownEnd := return ()
  base _ := return false
  nonBasicTypeField field := assignToField R C deserialize x time field.id field.type
  basicTypeField id _ type := assignToField R C deserialize x .compileTime id (.basic type)
  unknownField _ type := onInput (R.skip type)
  omittedField _ := return ()

/-- `To::AssignToBase`, given what `Apply` does with the transform for the base class. That transform
    has a validator of its own. -/
def assignToBase (x : Fin m) (apply : ParserM (ToState m) Bool) : ParserM (ToState m) Bool := do
  let (var, required) ← get
  let (done, base) ← onInput (apply.run (var, none))
  set (base.1, required)
  if done then
    onInput (bondThrow (.unexpectedStructStop (C.structs x).metadata.qualifiedName))
  else
    return false

variable (S : SchemaDef n)

/-- `To`. The levels of the hierarchy are bounded. -/
def toTransform (time : SchemaTime) : Nat → Fin m → Transform n (ToState m)
  | 0, x => (toFields R C deserialize time x).withBase fun _ => onInput (bondThrow .undefinedBehavior)
  | k + 1, x => (toFields R C deserialize time x).withBase fun j =>
      match (C.structs x).base with
      | none => do
          onInput (nothrow (R.skip .struct))
          return false
      | some y => assignToBase C x (applyParser R (toTransform time k y) S time true j)

/-- `Apply` of `To` on a struct -/
def applyToVar (time : SchemaTime) (i : Fin n) (x : Fin m) (var : CppValue m) : Reader (CppValue m) := do
  let (_, state) ← (applyParser R (toTransform R C deserialize S time m x) S time false i).run
    (var, none)
  return state.1

end

/-! ## Values -/

section

variable (R : ProtocolReader) (debug : Bool) (S : SchemaDef n) (C : CppSchema m)

/-- `Deserialize` of a value, given the same for the values in it. A `bonded` keeps the position in the
    input, and the struct is skipped. -/
def deserializeValue
    (deserialize : SchemaTime → TypeDef n → CppType m → CppValue m → Reader (CppValue m))
    (time : SchemaTime) (type : TypeDef n) (X : CppType m) (var : CppValue m) :
    Reader (CppValue m) :=
  if isValueMatching time type X then
    match X, type with
    | .basic X, .basic T => .basic <$> deserializeBasic R T X
    | .struct x, .struct i _ => applyToVar R C deserialize S time i x var
    | .bonded _, type => do
        nothrow (R.skip type.id)
        return .bonded
    | .map Y X, type => deserializeMap R debug deserialize time type.element Y X var
    | X, type => deserializeContainer R deserialize time type.element X var
  else do
    R.skip type.id
    return var

/-- `Deserialize`. `fuel` bounds the depth of the calls. -/
def deserializeWithin : Nat → SchemaTime → TypeDef n → CppType m → CppValue m → Reader (CppValue m)
  | 0 => fun _ _ _ _ => bondThrow .undefinedBehavior
  | fuel + 1 => deserializeValue R debug S C (deserializeWithin fuel)

/-- `Deserialize`. Every nested value takes at least a byte more, so the bytes left bound the
    depth. -/
def deserializeVar (time : SchemaTime) (type : TypeDef n) (X : CppType m) (var : CppValue m) :
    Reader (CppValue m) := do
  let left ← remainingLength
  deserializeWithin R debug S C (left + 1) time type X var

end

end Bond.Cpp

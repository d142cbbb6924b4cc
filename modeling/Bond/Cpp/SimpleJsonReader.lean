import Bond.Cpp.DynamicParser
import Bond.Cpp.RapidJson

set_option autoImplicit false

/-! # Reading Simple JSON

`SimpleJsonReader` (cpp/inc/bond/protocol/simple_json_reader.h, simple_json_reader_impl.h) with the
`DOMParser` (core/parser.h), `value<T>` and `value<void>` (core/value.h) and the transform `To`
(core/transforms.h): a JSON value is read into a variable of a C++ type, with a schema that is
given at compile time or at run time. -/

namespace Bond.Cpp.SimpleJson

/-! ## Types -/

variable {n m : Nat}

/-- The type of a variable, over `m` generated structs. `vector<bool>` has an overload of its
    own. -/
inductive VarType (m : Nat) where
  | scalar (type : Scalar)
  | struct (index : Fin m)
  | bonded (index : Fin m)
  | list (element : VarType m)
  | vectorBool
  | nullable (element : VarType m)
  | blob
  | set (element : Scalar)
  | map (key : Scalar) (element : VarType m)
deriving DecidableEq, Repr

/-- The type of a value in a schema, over `n` structs: a C++ type, or the `TypeDef` of a runtime
    schema, in which an `enum` is not told from an `int32`. -/
inductive SchemaType (n : Nat) where
  | scalar (type : Scalar)
  | struct (index : Fin n)
  | list (element : SchemaType n)
  | set (element : SchemaType n)
  | map (key element : SchemaType n)
deriving DecidableEq, Repr

namespace VarType

/-- `get_type_id` -/
def id : VarType m → BondDataType
  | .scalar type => .basic type.type
  | .struct _ | .bonded _ => .struct
  | .list _ | .vectorBool | .nullable _ | .blob => .list
  | .set _ => .set
  | .map _ _ => .map

/-- `std::is_enum` -/
def isEnum : VarType m → Bool
  | .scalar type => type.isEnum
  | _ => false

/-- `is_bond_type` -/
def isBondType : VarType m → Bool
  | .struct _ | .bonded _ => true
  | _ => false

/-- `is_container` -/
def isContainer : VarType m → Bool
  | .list _ | .vectorBool | .nullable _ | .blob | .set _ | .map _ _ => true
  | _ => false

/-- The schema of a type that is given at compile time -/
def schemaType : VarType m → SchemaType m
  | .scalar type => .scalar type
  | .struct index | .bonded index => .struct index
  | .list element | .nullable element => .list element.schemaType
  | .vectorBool => .list (.scalar (.basic .bool))
  | .blob => .list (.scalar (.basic .int8))
  | .set element => .set (.scalar element)
  | .map key element => .map (.scalar key) element.schemaType

/-- The value of a default-constructed variable -/
def fresh : VarType m → CppValue m
  | .scalar type => .basic (type.type.ofBits 0)
  | .struct _ => .struct []
  | .bonded _ => .bonded
  | .list _ | .vectorBool => .list []
  | .nullable _ => .nullable none
  | .blob => .blob []
  | .set _ => .set []
  | .map _ _ => .map []

end VarType

namespace SchemaType

/-- `GetTypeId` -/
def id : SchemaType n → BondDataType
  | .scalar type => .basic type.type
  | .struct _ => .struct
  | .list _ => .list
  | .set _ => .set
  | .map _ _ => .map

def isEnum : SchemaType n → Bool
  | .scalar type => type.isEnum
  | _ => false

/-- The type of the elements of a container, and of the mapped values of a map -/
def element : SchemaType n → SchemaType n
  | .list element | .set element | .map _ element => element
  | type => type

/-- The type of the keys of a map -/
def key : SchemaType n → SchemaType n
  | .map key _ => key
  | type => type

end SchemaType

/-! ## Schemas -/

/-- A field of a schema. `jsonName` is the attribute `JsonName` of its metadata. -/
structure SchemaField (n : Nat) where
  name : List UInt8
  jsonName : Option (List UInt8)
  id : UInt16
  type : SchemaType n

/-- `detail::FieldName` -/
def SchemaField.fieldName (field : SchemaField n) : List UInt8 :=
  field.jsonName.getD field.name

structure SchemaStruct (n : Nat) where
  /-- the index of the base struct -/
  base : Option (Fin n)
  fields : List (SchemaField n)
  increasing : fields.Pairwise fun f g => f.id < g.id

/-- A `RuntimeSchema`, or the structs of a schema that is given at compile time. -/
structure Schema (n : Nat) where
  structs : Fin n → SchemaStruct n
  root : Fin n
  size_le : n ≤ 2 ^ 16

/-- A field of a generated struct -/
structure VarField (m : Nat) where
  name : List UInt8
  jsonName : Option (List UInt8)
  modifier : Modifier
  id : UInt16
  type : VarType m

structure VarStruct (m : Nat) where
  qualifiedName : String
  base : Option (Fin m)
  fields : List (VarField m)
  increasing : fields.Pairwise fun f g => f.id < g.id

structure VarSchema (m : Nat) where
  structs : Fin m → VarStruct m
  root : Fin m
  size_le : m ≤ 2 ^ 16

def VarField.schemaField (field : VarField m) : SchemaField m where
  name := field.name
  jsonName := field.jsonName
  id := field.id
  type := field.type.schemaType

/-- `schema<T>::type` of the generated structs -/
def VarSchema.schema (C : VarSchema m) : Schema m where
  structs x :=
    { base := (C.structs x).base
      fields := (C.structs x).fields.map VarField.schemaField
      increasing := List.pairwise_map.2 (C.structs x).increasing }
  root := C.root
  size_le := C.size_le

/-- The number of structs on the way to the root of a hierarchy, if there are no more than `k`. -/
def depthWithin (base : Fin n → Option (Fin n)) : Nat → Fin n → Option Nat
  | 0, _ => none
  | k + 1, i =>
      match base i with
      | none => some 1
      | some j => (depthWithin base k j).map (1 + ·)

/-- `schema_depth`, a `uint16_t`; a recursion without an end if the bases go round in a circle -/
def Schema.schemaDepth (S : Schema n) (i : Fin n) : Option UInt16 :=
  (depthWithin (fun i => (S.structs i).base) n i).map UInt16.ofNat

/-! ## The schema of a value -/

/-- What `value<T>` and `value<void>` know of the type of a value. All structs that are generated
    for C++ are in one table, so that a variable may also be read with the schema of another
    type. -/
inductive TypeSchema (n m : Nat) where
  | compileTime (type : SchemaType m)
  | runtime (type : SchemaType n)

namespace TypeSchema

/-- `GetTypeId` -/
def id : TypeSchema n m → BondDataType
  | .compileTime type => type.id
  | .runtime type => type.id

/-- What `FindField` is told for a field: an `int32` of a runtime schema may be an `enum`. -/
def isEnum : TypeSchema n m → Bool
  | .compileTime type => type.isEnum
  | .runtime type => type.id = .basic .int32

/-- The schema of the elements of a container, and of the mapped values of a map -/
def element : TypeSchema n m → TypeSchema n m
  | .compileTime type => .compileTime type.element
  | .runtime type => .runtime type.element

/-- The schema of the keys of a map -/
def key : TypeSchema n m → TypeSchema n m
  | .compileTime type => .compileTime type.key
  | .runtime type => .runtime type.key

/-- The schema with which the value of a field comes: `BasicTypeField` has a `value<T>` for each
    basic type. -/
def fieldValue : TypeSchema n m → TypeSchema n m
  | .runtime (.scalar T) => .compileTime (.scalar T)
  | schema => schema

end TypeSchema

/-- `is_matching<T, X>` -/
def isMatching : SchemaType n → VarType m → Bool
  | .scalar T, .scalar X => isMatchingBasic T.type X.type
  | .struct _, X => X.isBondType
  | .list T, .list X | .list T, .nullable X => isMatching T X
  | .list T, .vectorBool => isMatching T (.scalar (.basic .bool) : VarType m)
  | .list T, .blob => isMatching T (.scalar (.basic .int8) : VarType m)
  | .set T, .set X => isMatching T (.scalar X : VarType m)
  | .map K T, .map Y X => isMatching K (.scalar Y : VarType m) && isMatching T X
  | _, _ => false

/-- The overloads of `Deserialize` of `value<T>`, `value<void>` and `bonded` that do not skip -/
def isValueMatching : TypeSchema n m → VarType m → Bool
  | .compileTime T, X => isMatching T X
  | .runtime T, X => (X.isBondType || X.isContainer) && decide (T.id = X.id)

/-- The fields that `To::Field` looks at: `nested_fields`, `matching_fields` and
    `container_fields` -/
def isFieldMatching : TypeSchema n m → VarType m → Bool
  | .compileTime T, X => isMatching T X
  | .runtime (.struct _), X => X.isBondType
  | .runtime _, X => X.isContainer

/-- The type as which `value<T>::Deserialize` reads a matching variable -/
def dataType (T X : Scalar) : Scalar :=
  if X.isEnum && X.type.sizeof = T.type.sizeof then X else T

/-! ## Readers -/

/-- `Deserialize` of a value that has a reader -/
abbrev Deserialize (n m : Nat) :=
  TypeSchema n m → VarType m → CppValue m → Except JsonError (CppValue m)

/-- `SimpleJsonReader`: the value that it reads, and the readers of the elements between
    `ArrayBegin` and `ArrayEnd` and of the members between `MemberBegin` and `MemberEnd`. -/
structure JsonReader (n m : Nat) where
  value : Json
  elements : List (Json × Deserialize n m)
  members : List (List UInt8 × Json × Deserialize n m)

section

variable (conversions : Conversions)

/-- The condition of `FindField` on a member -/
def isField (id : UInt16) (fieldName : List UInt8) (schema : TypeSchema n m) (name : List UInt8)
    (value : Json) : Bool :=
  (JsonTypeMatching.ofType schema.id schema.id schema.isEnum).typeMatch value
    && (cString name = cString fieldName
      || conversions.tryLexicalConvert (cString name) = some id)

/-- `SimpleJsonReader::FindField` -/
def findField (id : UInt16) (fieldName : List UInt8) (schema : TypeSchema n m)
    (members : List (List UInt8 × Json × Deserialize n m)) : Option (Json × Deserialize n m) :=
  (members.find? fun member => isField conversions id fieldName schema member.1 member.2.1).map
    Prod.snd

/-! ## Containers -/

/-- `JsonTypeMatching` for the elements of a container with a schema for the elements -/
def elementMatching (element : TypeSchema n m) (X : VarType m) : JsonTypeMatching :=
  .ofType X.id element.id X.isEnum

/-- One round of the loop over a list -/
def deserializeElement (element : TypeSchema n m) (X : VarType m) (reader : Json × Deserialize n m)
    (item : CppValue m) : Except JsonError (CppValue m) :=
  if (elementMatching element X).complexTypeMatch reader.1 then
    reader.2 element X item
  else if (elementMatching element X).basicTypeMatch reader.1 then
    reader.2 (.compileTime X.schemaType) X item
  else
    return item

/-- The loop over a list, which has as many items as the array has elements -/
def deserializeItems (element : TypeSchema n m) (X : VarType m) :
    List (Json × Deserialize n m) → List (CppValue m) → Except JsonError (List (CppValue m))
  | [], _ => return []
  | reader :: readers, items => do
      let item ← deserializeElement element X reader (items.headD X.fresh)
      let rest ← deserializeItems element X readers items.tail
      return item :: rest

/-- The loop over a set -/
def insertElements (element : TypeSchema n m) (X : Scalar) :
    List (Json × Deserialize n m) → List BasicValue → Except JsonError (List BasicValue)
  | [], items => return items
  | reader :: readers, items =>
      if (elementMatching element (.scalar X)).basicTypeMatch reader.1 then do
        let e ← X.read conversions reader.1
        insertElements element X readers (setInsert items e)
      else
        insertElements element X readers items

/-- The loop over a blob -/
def blobBytes : List (Json × Deserialize n m) → Except JsonError (List UInt8)
  | [] => return []
  | reader :: readers =>
      if reader.1.isInt then do
        let n ← reader.1.getInt
        let bytes ← blobBytes readers
        return (Int8.ofInt n).toUInt8 :: bytes
      else
        blobBytes readers

/-- The key of a pair of a map -/
def readKey (keyType : BondDataType) (Y : Scalar) (key : Json) : Except JsonError BasicValue :=
  if (JsonTypeMatching.ofType (.basic Y.type) keyType Y.isEnum).basicTypeMatch key then
    Y.read conversions key
  else
    throw .invalidKeyType

/-- The mapped value of a pair of a map. A value that is neither an object, an array nor a `null` of
    the right type is read without looking at it. -/
def readMapped (element : TypeSchema n m) (X : VarType m) (reader : Json × Deserialize n m)
    (item : CppValue m) : Except JsonError (CppValue m) :=
  if (elementMatching element X).complexTypeMatch reader.1 then
    reader.2 element X item
  else
    reader.2 (.compileTime X.schemaType) X item

/-- The loop of `DeserializeMap` -/
def deserializeMapElements (keyType : BondDataType) (element : TypeSchema n m) (Y : Scalar)
    (X : VarType m) :
    List (Json × Deserialize n m) → List (BasicValue × CppValue m) →
      Except JsonError (List (BasicValue × CppValue m))
  | [], entries => return entries
  | [key], _ => do
      let k ← readKey conversions keyType Y key.1
      throw (.elementNotFound k)
  | key :: reader :: readers, entries => do
      let k ← readKey conversions keyType Y key.1
      let v ← readMapped element X reader ((assocGet BasicValue.sameKey k entries).getD X.fresh)
      deserializeMapElements keyType element Y X readers (assocSet BasicValue.sameKey k v entries)

/-- `DeserializeContainer` and `DeserializeMap` -/
def deserializeContainer (schema : TypeSchema n m) (X : VarType m) (var : CppValue m)
    (readers : List (Json × Deserialize n m)) : Except JsonError (CppValue m) :=
  match X with
  | .list X => do
      let items ← deserializeItems schema.element X readers var.items
      return .list items
  | .vectorBool => return .list (readers.map fun reader => .basic (.bool reader.1.isTrue))
  | .nullable X =>
      match readers with
      | [] => return .nullable none
      | reader :: _ => do
          let item ← deserializeElement schema.element X reader (var.item.getD X.fresh)
          return .nullable (some item)
  | .blob => do
      let bytes ← blobBytes readers
      return .blob bytes
  | .set X => do
      let items ← insertElements conversions schema.element X readers []
      return .set items
  | .map Y X => do
      let entries ← deserializeMapElements conversions schema.key.id schema.element Y X readers []
      return .map entries
  | _ => return var

/-! ## Structs -/

/-- `next_required_field` -/
def nextRequired (fields : List (VarField m)) : Option UInt16 :=
  (fields.find? fun g => g.modifier = .required).map VarField.id

variable (C : VarSchema m)

/-- `MissingFieldException` -/
def missingFieldException (x : Fin m) (required : Option UInt16) : JsonError :=
  .missingField (required.getD 0xffff) (C.structs x).qualifiedName

/-- `Validate<Head>`, with `_required` as the state of the validator -/
def validateField (x : Fin m) (head : VarField m) (required : Option UInt16) :
    Except JsonError (Option UInt16) :=
  if head.modifier = .required then
    if required = some head.id then
      return nextRequired ((C.structs x).fields.dropWhile fun g => g.id ≤ head.id)
    else
      throw (missingFieldException C x required)
  else
    return required

/-- `Validate<Schema>` -/
def validateSchema (x : Fin m) (required : Option UInt16) : Except JsonError Unit :=
  if required.isSome then throw (missingFieldException C x required) else return ()

/-- The field of a struct that a value is assigned to. -/
def findMatchingField (x : Fin m) (schema : TypeSchema n m) (id : UInt16) : Option (VarField m) :=
  (C.structs x).fields.find? fun g => g.id = id && isFieldMatching schema g.type

/-- The variable that `To` refers to, and `_required` -/
abbrev ToState (m : Nat) := CppValue m × Option UInt16

/-- `To::Field`. A value without a field skips itself, which reads nothing. -/
def assignToField (x : Fin m) (schema : TypeSchema n m) (id : UInt16)
    (deserialize : Deserialize n m) (state : ToState m) : Except JsonError (ToState m) :=
  match findMatchingField C x schema id with
  | none => return state
  | some head => do
      let required ← validateField C x head state.2
      let var := (assocGet (· == ·) (x, id) state.1.fields).getD head.type.fresh
      let v ← deserialize schema head.type var
      return (state.1.setField (x, id) v, required)

variable {k : Nat} (S : Schema k) (typeSchema : SchemaType k → TypeSchema n m)

/-- `DOMParser::ReadFields` -/
def readFields (x : Fin m) (members : List (List UInt8 × Json × Deserialize n m)) :
    List (SchemaField k) → ToState m → Except JsonError (ToState m)
  | [], state => return state
  | field :: fields, state =>
      match findField conversions field.id field.fieldName (typeSchema field.type) members with
      | none => readFields x members fields state
      | some reader => do
          let state ← assignToField C x (typeSchema field.type).fieldValue field.id reader.2 state
          readFields x members fields state

/-- `ParserInheritance::Read` with `To`. The bases are read from the same object; the number of
    structs bounds the number of levels. -/
def readSchema (members : List (List UInt8 × Json × Deserialize n m)) :
    Nat → Fin k → Fin m → CppValue m → Except JsonError (CppValue m)
  | 0, _, _, _ => throw .undefinedBehavior
  | fuel + 1, i, x, var =>
      match S.schemaDepth i with
      | none => throw .undefinedBehavior
      | some depth =>
          if depth > (C.schema.schemaDepth x).getD 0 then
            match (S.structs i).base with
            | none => throw .undefinedBehavior
            | some j => readSchema members fuel j x var
          else do
            let var ← (match (S.structs i).base, (C.structs x).base with
              | some j, some y => readSchema members fuel j y var
              | _, _ => .ok var)
            let state ← readFields conversions C typeSchema x members (S.structs i).fields
              (var, nextRequired (C.structs x).fields)
            validateSchema C x state.2
            return state.1

end

/-! ## Values -/

section

variable (conversions : Conversions) (S : Schema n) (C : VarSchema m)

/-- `Deserialize` of `value<T>`, `value<void>` and `bonded`. A `bonded` keeps the reader. -/
def deserializeValue (reader : JsonReader n m) : Deserialize n m := fun schema X var =>
  if isValueMatching schema X then
    match X, schema with
    | .scalar X, .compileTime (.scalar T) => do
        let v ← (dataType T X).read conversions reader.value
        return .basic (v.promote X.type)
    | .struct x, .compileTime (.struct i) =>
        readSchema conversions C C.schema .compileTime reader.members m i x var
    | .struct x, .runtime (.struct i) =>
        readSchema conversions C S .runtime reader.members n i x var
    | .bonded _, _ => return .bonded
    | X, schema => deserializeContainer conversions schema X var reader.elements
  else
    return var

mutual

/-- `Deserialize`, with a reader of a JSON value -/
def deserialize : Json → Deserialize n m
  | .array elements =>
      deserializeValue conversions S C ⟨.array elements, elementReaders elements, []⟩
  | .object members =>
      deserializeValue conversions S C ⟨.object members, [], memberReaders members⟩
  | value => deserializeValue conversions S C ⟨value, [], []⟩

def elementReaders : List Json → List (Json × Deserialize n m)
  | [] => []
  | element :: elements => (element, deserialize element) :: elementReaders elements

def memberReaders : List (List UInt8 × Json) → List (List UInt8 × Json × Deserialize n m)
  | [] => []
  | (name, value) :: members => (name, value, deserialize value) :: memberReaders members

end

end

end Bond.Cpp.SimpleJson

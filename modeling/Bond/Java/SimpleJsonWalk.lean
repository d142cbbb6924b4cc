import Bond.Java.SimpleJson

set_option autoImplicit false

/-! # Walking Simple JSON in Java

What a client gets that calls a `SimpleJsonReader` in the shape of a type, on the tokens that were
written for a value of that type. -/

namespace Bond.Java.SimpleJson

open Bond.Cpp (BondDataType BasicType)
open Bond.Lib Bond.Managed

/-! ## Walk -/

/-- What a walk finds: scalars, arrays of items, arrays of alternating keys and values, and objects
    of named fields. -/
inductive Tree where
  | scalar (v : BasicValue)
  | array (items : List Tree)
  | map (entries : List (Tree × Tree))
  | struct (fields : List (String × Tree))

/-- A client with the types that it reads the values of fields with, in the order in which it comes
    upon the fields: two fields of a hierarchy may have the same name. -/
structure Client where
  reader : SimpleJsonReader
  fieldTypes : List BondType

abbrev Walk := StateT Client (Except Exception)

def throwWalk {α : Type} (e : Exception) : Walk α :=
  fun _ => .error e

/-- A call of a method of the reader. -/
def call {α : Type} (op : TextReader α) : Walk α := fun client =>
  match op client.reader with
  | .ok (a, reader) => .ok (a, { client with reader })
  | .error e => .error e

def nextFieldType : Walk BondType := fun client =>
  match client.fieldTypes with
  | type :: fieldTypes => .ok (type, { client with fieldTypes })
  | [] => .error .illegalArgument

/-- The items of an array. Every turn takes a token at least. -/
def walkItems (walkItem : Walk Tree) : Nat → Walk (List Tree)
  | 0 => throwWalk .endOfFile
  | bound + 1 => do
      if ← call readContainerItemBegin then
        let item ← walkItem
        call readContainerItemEnd
        return item :: (← walkItems walkItem bound)
      else
        return []

/-- The keys of an array, each with the value behind it -/
def walkEntries (walkKey walkValue : Walk Tree) : Nat → Walk (List (Tree × Tree))
  | 0 => throwWalk .endOfFile
  | bound + 1 => do
      if ← call readContainerItemBegin then
        let key ← walkKey
        call readContainerItemEnd
        if ← call readContainerItemBegin then
          let value ← walkValue
          call readContainerItemEnd
          return (key, value) :: (← walkEntries walkKey walkValue bound)
        else
          throwWalk .invalidBondData
      else
        return []

/-- The fields of an object -/
def walkFields (walkValue : BondType → Walk Tree) : Nat → Walk (List (String × Tree))
  | 0 => throwWalk .endOfFile
  | bound + 1 => do
      match ← call readFieldBegin with
      | some name =>
          let value ← walkValue (← nextFieldType)
          call readFieldEnd
          return (name, value) :: (← walkFields walkValue bound)
      | none => return []

variable (jackson : Jackson)

/-- The calls in the shape of a type; those for a blob are the ones for a list of `int8`. `fuel`
    bounds the depth. -/
def walkWithin : Nat → BondType → Walk Tree
  | 0, _ => throwWalk .endOfFile
  | fuel + 1, type =>
      match type with
      | .primitive b => Tree.scalar <$> call (read jackson b)
      | .blob => do
          call readContainerBegin
          let items ← walkItems (Tree.scalar <$> call (read jackson .int8)) fuel
          call readContainerEnd
          return .array items
      | .vector e | .list e | .set e | .nullable e => do
          call readContainerBegin
          let items ← walkItems (walkWithin fuel e) fuel
          call readContainerEnd
          return .array items
      | .map k e => do
          call readContainerBegin
          let entries ← walkEntries (walkWithin fuel k) (walkWithin fuel e) fuel
          call readContainerEnd
          return .map entries
      | .struct _ | .bonded _ => do
          call readStructBegin
          let fields ← walkFields (walkWithin fuel) fuel
          call readStructEnd
          return .struct fields

/-- Every nested call comes behind a token at least. -/
def walk (type : BondType) : Walk Tree := do
  let client ← get
  walkWithin jackson (client.reader.parser.tokens.length + 1) type

/-- A reader in front of the first token -/
def SimpleJsonReader.ofTokens (tokens : List JsonToken) : SimpleJsonReader where
  parser := { tokens, currentToken := none }
  hasPeekedParserForNextToken := false

/-! ## What is to be found -/

/-- The array that a nullable value is written as, for each level of nullability. -/
def nest : BondType → Tree → Tree
  | .nullable valueType, tree => .array [nest valueType tree]
  | _, tree => tree

/-- The struct of a value or of the object of a `bonded`. -/
def structIndex : BondType → Option Nat
  | .struct index => some index
  | .bonded index => some index
  | _ => none

section

variable (types : Nat → List (List NamedField))

mutual

/-- The structure of a value of a type. -/
def mirror : Datum → BondType → Tree
  | .null, _ => .array []
  | .primitive v, type => nest type (.scalar v)
  | .blob data, type => nest type (.array (data.map fun b => .scalar (.int8 b.toInt8)))
  | .collection elements, type =>
      match type.core.elementType with
      | some e => nest type (.array (mirrorElements elements e))
      | none => .array []
  | .map entries, type =>
      match type.core with
      | .map k e => nest type (.map (mirrorEntries entries k e))
      | _ => .array []
  | .something _, _ => .array []
  | .struct fields, type =>
      match structIndex type.core with
      | some index => nest type (.struct (mirrorFields fields (types index).flatten))
      | none => .array []
  | .bonded _, _ => .array []

def mirrorElements : List Datum → BondType → List Tree
  | [], _ => []
  | d :: ds, e => mirror d e :: mirrorElements ds e

def mirrorEntries : List (Datum × Datum) → BondType → BondType → List (Tree × Tree)
  | [], _, _ => []
  | (key, value) :: entries, k, e => (mirror key k, mirror value e) :: mirrorEntries entries k e

/-- The fields that are not omitted. -/
def mirrorFields : List Datum → List NamedField → List (String × Tree)
  | .something value :: ds, field :: fields =>
      (if field.omits value then [] else [(field.name, mirror value field.fieldType)])
        ++ mirrorFields ds fields
  | d :: ds, field :: fields =>
      (if field.isDefaultNothing || field.omits d then []
        else [(field.name, mirror d field.fieldType)]) ++ mirrorFields ds fields
  | _, _ => []

end

mutual

/-- The types of the fields in a value, in the order in which they are written. -/
def fieldTypesIn : Datum → BondType → List BondType
  | .collection elements, type =>
      match type.core.elementType with
      | some e => fieldTypesInElements elements e
      | none => []
  | .map entries, type =>
      match type.core with
      | .map k e => fieldTypesInEntries entries k e
      | _ => []
  | .struct fields, type =>
      match structIndex type.core with
      | some index => fieldTypesInFields fields (types index).flatten
      | none => []
  | _, _ => []

def fieldTypesInElements : List Datum → BondType → List BondType
  | [], _ => []
  | d :: ds, e => fieldTypesIn d e ++ fieldTypesInElements ds e

def fieldTypesInEntries : List (Datum × Datum) → BondType → BondType → List BondType
  | [], _, _ => []
  | (key, value) :: entries, k, e =>
      fieldTypesIn key k ++ fieldTypesIn value e ++ fieldTypesInEntries entries k e

def fieldTypesInFields : List Datum → List NamedField → List BondType
  | .something value :: ds, field :: fields =>
      (if field.omits value then [] else field.fieldType :: fieldTypesIn value field.fieldType)
        ++ fieldTypesInFields ds fields
  | d :: ds, field :: fields =>
      (if field.isDefaultNothing || field.omits d then []
        else field.fieldType :: fieldTypesIn d field.fieldType) ++ fieldTypesInFields ds fields
  | _, _ => []

end

/-- A number is written as a string. -/
def quoted : BasicValue → Bool
  | .float bits => jackson.quoteNonNumericNumbers && isNonNumericFloat bits
  | .double bits => jackson.quoteNonNumericNumbers && isNonNumericDouble bits
  | _ => false

mutual

/-- No blob is written for a value, and no number as a string. Only an omitted field may be a
    blob. -/
def plain : Datum → BondType → Bool
  | .primitive v, _ => !quoted jackson v
  | .blob _, _ => false
  | .collection elements, type =>
      match type.core.elementType with
      | some e => plainElements elements e
      | none => true
  | .map entries, type =>
      match type.core with
      | .map k e => plainEntries entries k e
      | _ => true
  | .struct fields, type =>
      match structIndex type.core with
      | some index => plainFields fields (types index).flatten
      | none => true
  | _, _ => true

def plainElements : List Datum → BondType → Bool
  | [], _ => true
  | d :: ds, e => plain d e && plainElements ds e

def plainEntries : List (Datum × Datum) → BondType → BondType → Bool
  | [], _, _ => true
  | (key, value) :: entries, k, e => plain key k && plain value e && plainEntries entries k e

def plainFields : List Datum → List NamedField → Bool
  | .something value :: ds, field :: fields =>
      (field.omits value || plain value field.fieldType) && plainFields ds fields
  | d :: ds, field :: fields =>
      (field.isDefaultNothing || field.omits d || plain d field.fieldType)
        && plainFields ds fields
  | _, _ => true

end

end

end Bond.Java.SimpleJson

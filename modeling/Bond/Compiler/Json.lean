import Bond.Compiler.Types

set_option autoImplicit false

/-! # The syntax tree as JSON

The `ToJSON` and `FromJSON` instances of `Language.Bond.Syntax.JSON`
(compiler/src/Language/Bond/Syntax/JSON.hs), on JSON values: those that are written out there, and
those that `deriveJSON defaultOptions` makes for `Modifier`, `Attribute`, `Constant`, `TypeParam`,
`Declaration`, `Import` and `Language`. -/

namespace Bond.Compiler

/-! ## JSON values -/

/-- `Data.Aeson.Value`. The first member with a key is the one that an object has. -/
inductive Json where
  | null
  | bool (value : Bool)
  | number (value : ℚ)
  | string (value : String)
  | array (items : List Json)
  | object (members : List (String × Json))

/-- What the instances need to know of the `scientific` package: numbers as doubles. -/
structure Scientific where
  fromFloatDigits : {v : ℚ // IsBinary64 v} → ℚ
  toRealFloat : ℚ → Double

/-- The digits of a double identify it. -/
def Scientific.Identifies (S : Scientific) : Prop :=
  ∀ v, S.toRealFloat (S.fromFloatDigits v) = .finite v

mutual

/-- The nesting of a value. -/
def Json.depth : Json → Nat
  | .null | .bool _ | .number _ | .string _ => 1
  | .array items => depthItems items + 1
  | .object members => depthMembers members + 1

def depthItems : List Json → Nat
  | [] => 0
  | item :: items => max item.depth (depthItems items)

def depthMembers : List (String × Json) → Nat
  | [] => 0
  | (_, value) :: members => max value.depth (depthMembers members)

end

/-- What a parser finds wrong. -/
inductive JsonError where
  | keyNotFound (key : String)
  /-- "Invalid value … for the `type` key." -/
  | invalidType (type_ : Json)
  /-- "Expected a representation of … but found: …" -/
  | expected (what : String) (found : Json)
  | unexpectedTag (tag : Json)
  /-- "Encountered Event with "methodStreaming" member. Events cannot have this member." -/
  | eventStreaming
  /-- "Method marked as …, but has void …" -/
  | invalidNothingCombo (dir : String) (streaming : String)
  /-- not an error of the source: the bound on the nesting was too small -/
  | tooDeep

abbrev JsonParser := Except JsonError

section

variable {α : Type} (o : List (String × Json)) (key : String) (p : Json → JsonParser α)

/-- `o .: key` -/
def member : JsonParser α :=
  match o.lookup key with
  | some value => p value
  | none => .error (.keyNotFound key)

/-- A value that may be `null` -/
def nullable : Json → JsonParser (Option α)
  | .null => .ok none
  | value => some <$> p value

/-- `o .:? key` -/
def optionalMember : JsonParser (Option α) :=
  match o.lookup key with
  | some value => nullable p value
  | none => .ok none

end

def parseArray {α : Type} (p : Json → JsonParser α) : Json → JsonParser (List α)
  | .array items => items.mapM p
  | json => .error (.expected "Array" json)

def parseString : Json → JsonParser String
  | .string value => .ok value
  | json => .error (.expected "String" json)

def parseBool : Json → JsonParser Bool
  | .bool value => .ok value
  | json => .error (.expected "Bool" json)

/-- A number that is an integer of a type with bounds. -/
def parseIntegral {α : Type} (what : String) (lower upper : Int) (ofInt : Int → α) :
    Json → JsonParser α
  | .number value =>
      if value.den = 1 ∧ lower ≤ value.num ∧ value.num ≤ upper then
        .ok (ofInt value.num)
      else
        .error (.expected what (.number value))
  | json => .error (.expected what json)

/-- `Int` -/
def parseInt : Json → JsonParser Int64 :=
  parseIntegral "Int" (-2 ^ 63) (2 ^ 63 - 1) Int64.ofInt

/-- `Word16` -/
def parseWord16 : Json → JsonParser UInt16 :=
  parseIntegral "Word16" 0 65535 fun n => UInt16.ofNat n.toNat

/-- `Integer` -/
def parseInteger : Json → JsonParser Int
  | .number value => if value.den = 1 then .ok value.num else .error (.expected "Integer" (.number value))
  | json => .error (.expected "Integer" json)

/-- `Double`: a value that is not finite is `null`, and `null` is not a number. -/
def Double.toJson (S : Scientific) : Double → Json
  | .finite v => .number (S.fromFloatDigits v)
  | .infinity _ | .nan => .null

def parseDouble (S : Scientific) : Json → JsonParser Double
  | .number value => .ok (S.toRealFloat value)
  | .null => .ok .nan
  | json => .error (.expected "double" json)

/-! ## The parts without types in them -/

/-- `Maybe a` -/
def optionToJson {α : Type} (toJson : α → Json) : Option α → Json
  | none => .null
  | some a => toJson a

def stringsToJson (names : List String) : Json :=
  .array (names.map .string)

def Modifier.toJson : Modifier → Json
  | .optional => .string "Optional"
  | .required => .string "Required"
  | .requiredOptional => .string "RequiredOptional"

def parseModifier : Json → JsonParser Modifier
  | .string "Optional" => .ok .optional
  | .string "Required" => .ok .required
  | .string "RequiredOptional" => .ok .requiredOptional
  | json => .error (.expected "Modifier" json)

def Language.toJson : Language → Json
  | .cpp => .string "Cpp"
  | .cs => .string "Cs"
  | .java => .string "Java"

def parseLanguage : Json → JsonParser Language
  | .string "Cpp" => .ok .cpp
  | .string "Cs" => .ok .cs
  | .string "Java" => .ok .java
  | json => .error (.expected "Language" json)

def Constraint.toJson : Constraint → Json
  | .value => .string "value"

def parseConstraint : Json → JsonParser Constraint
  | .string "value" => .ok .value
  | json => .error (.expected "Constraint" json)

def Attribute.toJson (a : Attribute) : Json :=
  .object [("attrName", stringsToJson a.attrName), ("attrValue", .string a.attrValue)]

def parseAttribute : Json → JsonParser Attribute
  | .object o =>
      return ⟨← member o "attrName" (parseArray parseString), ← member o "attrValue" parseString⟩
  | json => .error (.expected "Attribute" json)

def Constant.toJson (c : Constant) : Json :=
  .object [("constantName", .string c.constantName),
    ("constantValue", optionToJson (fun n => .number n.toInt) c.constantValue)]

def parseConstant : Json → JsonParser Constant
  | .object o =>
      return ⟨← member o "constantName" parseString, ← optionalMember o "constantValue" parseInt⟩
  | json => .error (.expected "Constant" json)

def TypeParam.toJson (p : TypeParam) : Json :=
  .object [("paramName", .string p.paramName),
    ("paramConstraint", optionToJson Constraint.toJson p.paramConstraint)]

def parseTypeParam : Json → JsonParser TypeParam
  | .object o =>
      return ⟨← member o "paramName" parseString,
        ← optionalMember o "paramConstraint" parseConstraint⟩
  | json => .error (.expected "TypeParam" json)

def Namespace.toJson : Namespace → Json
  | ⟨none, name⟩ => .object [("name", stringsToJson name)]
  | ⟨some language, name⟩ => .object [("language", language.toJson), ("name", stringsToJson name)]

def parseNamespace : Json → JsonParser Namespace
  | .object o =>
      return ⟨← optionalMember o "language" parseLanguage,
        ← member o "name" (parseArray parseString)⟩
  | json => .error (.expected "Namespace" json)

/-- A data type with one constructor and one argument is its argument. -/
def Import.toJson (i : Import) : Json :=
  .string i.path

def Default.toJson (S : Scientific) : Default → Json
  | .bool x => .object [("type", .string "bool"), ("value", .bool x)]
  | .integer x => .object [("type", .string "integer"), ("value", .number x)]
  | .float x => .object [("type", .string "float"), ("value", x.toJson S)]
  | .string x => .object [("type", .string "string"), ("value", .string x)]
  | .enum x => .object [("type", .string "enum"), ("value", .string x)]
  | .nothing => .object [("type", .string "nothing")]

def parseDefault (S : Scientific) : Json → JsonParser Default
  | .object o => do
      let type_ ← member o "type" pure
      match type_ with
      | .string "bool" => .bool <$> member o "value" parseBool
      | .string "integer" => .integer <$> member o "value" parseInteger
      | .string "float" => .float <$> member o "value" (parseDouble S)
      | .string "string" => .string <$> member o "value" parseString
      | .string "enum" => .enum <$> member o "value" parseString
      | .string "nothing" => return .nothing
      | type_ => .error (.invalidType type_)
  | json => .error (.expected "Default" json)

/-! ## Types and declarations -/

def BasicType.name : BasicType → String
  | .int8 => "int8" | .int16 => "int16" | .int32 => "int32" | .int64 => "int64"
  | .uint8 => "uint8" | .uint16 => "uint16" | .uint32 => "uint32" | .uint64 => "uint64"
  | .float => "float" | .double => "double"
  | .bool => "bool"
  | .string => "string" | .wstring => "wstring"
  | .metaName => "bond_meta::name" | .metaFullName => "bond_meta::full_name"
  | .blob => "blob"

def BasicType.ofName : String → Option BasicType
  | "int8" => some .int8 | "int16" => some .int16 | "int32" => some .int32 | "int64" => some .int64
  | "uint8" => some .uint8 | "uint16" => some .uint16 | "uint32" => some .uint32
  | "uint64" => some .uint64
  | "float" => some .float | "double" => some .double
  | "bool" => some .bool
  | "string" => some .string | "wstring" => some .wstring
  | "bond_meta::name" => some .metaName | "bond_meta::full_name" => some .metaFullName
  | "blob" => some .blob
  | _ => none

def ContainerKind.name : ContainerKind → String
  | .maybe => "maybe" | .list => "list" | .vector => "vector" | .nullable => "nullable"
  | .set => "set" | .bonded => "bonded"

def ContainerKind.ofName : String → Option ContainerKind
  | "maybe" => some .maybe | "list" => some .list | "vector" => some .vector
  | "nullable" => some .nullable | "set" => some .set | "bonded" => some .bonded
  | _ => none

inductive MethodStreamingTag where
  | unary | client | server | duplex
deriving DecidableEq, Repr

def MethodStreamingTag.name : MethodStreamingTag → String
  | .unary => "Unary" | .client => "Client" | .server => "Server" | .duplex => "Duplex"

def parseMethodStreamingTag : Json → JsonParser MethodStreamingTag
  | .string "Unary" => .ok .unary
  | .string "Client" => .ok .client
  | .string "Server" => .ok .server
  | .string "Duplex" => .ok .duplex
  | json => .error (.expected "MethodStreamingTag" json)

def methodStreamingTag : MethodType → MethodType → MethodStreamingTag
  | .streaming _, .streaming _ => .duplex
  | .streaming _, _ => .client
  | _, .streaming _ => .server
  | _, _ => .unary

section

variable (S : Scientific)

mutual

def BondType.toJson : BondType → Json
  | .basic t => .string t.name
  | .container kind t => .object [("type", .string kind.name), ("element", t.toJson)]
  | .map k t => .object [("type", .string "map"), ("key", k.toJson), ("element", t.toJson)]
  | .intTypeArg n => .object [("type", .string "constant"), ("value", .number n.toInt)]
  | .typeParam p => .object [("type", .string "parameter"), ("value", p.toJson)]
  | .userDefined decl [] => .object [("type", .string "user"), ("declaration", decl.toJson)]
  | .userDefined decl (arg :: args) =>
      .object [("type", .string "user"), ("declaration", decl.toJson),
        ("arguments", .array (arg.toJson :: typesToJson args))]

def typesToJson : List BondType → List Json
  | [] => []
  | t :: ts => t.toJson :: typesToJson ts

def optionTypeToJson : Option BondType → Json
  | none => .null
  | some t => t.toJson

def Field.toJson : Field → Json
  | .mk attributes ordinal modifier type name default =>
      .object [("fieldAttributes", .array (attributes.map Attribute.toJson)),
        ("fieldOrdinal", .number ordinal.toNat),
        ("fieldModifier", modifier.toJson),
        ("fieldType", type.toJson),
        ("fieldName", .string name),
        ("fieldDefault", optionToJson (Default.toJson S) default)]

def fieldsToJson : List Field → List Json
  | [] => []
  | f :: fs => f.toJson :: fieldsToJson fs

def MethodType.toJson : MethodType → Json
  | .void => .null
  | .unary t => t.toJson
  | .streaming t => t.toJson

def Method.toJson : Method → Json
  | .event attributes name input =>
      .object [("tag", .string "Event"),
        ("methodName", .string name),
        ("methodAttributes", .array (attributes.map Attribute.toJson)),
        ("methodInput", input.toJson)]
  | .function attributes result name input =>
      .object [("tag", .string "Function"),
        ("methodName", .string name),
        ("methodAttributes", .array (attributes.map Attribute.toJson)),
        ("methodResult", result.toJson),
        ("methodInput", input.toJson),
        ("methodStreaming", .string (methodStreamingTag input result).name)]

def methodsToJson : List Method → List Json
  | [] => []
  | m :: ms => m.toJson :: methodsToJson ms

def Declaration.toJson : Declaration → Json
  | .struct namespaces attributes name params base fields =>
      .object [("tag", .string "Struct"),
        ("declNamespaces", .array (namespaces.map Namespace.toJson)),
        ("declAttributes", .array (attributes.map Attribute.toJson)),
        ("declName", .string name),
        ("declParams", .array (params.map TypeParam.toJson)),
        ("structBase", optionTypeToJson base),
        ("structFields", .array (fieldsToJson fields))]
  | .enum namespaces attributes name constants =>
      .object [("tag", .string "Enum"),
        ("declNamespaces", .array (namespaces.map Namespace.toJson)),
        ("declAttributes", .array (attributes.map Attribute.toJson)),
        ("declName", .string name),
        ("enumConstants", .array (constants.map Constant.toJson))]
  | .forward namespaces name params =>
      .object [("tag", .string "Forward"),
        ("declNamespaces", .array (namespaces.map Namespace.toJson)),
        ("declName", .string name),
        ("declParams", .array (params.map TypeParam.toJson))]
  | .typeAlias namespaces name params type =>
      .object [("tag", .string "Alias"),
        ("declNamespaces", .array (namespaces.map Namespace.toJson)),
        ("declName", .string name),
        ("declParams", .array (params.map TypeParam.toJson)),
        ("aliasType", type.toJson)]
  | .service namespaces attributes name params base methods =>
      .object [("tag", .string "Service"),
        ("declNamespaces", .array (namespaces.map Namespace.toJson)),
        ("declAttributes", .array (attributes.map Attribute.toJson)),
        ("declName", .string name),
        ("declParams", .array (params.map TypeParam.toJson)),
        ("serviceBase", optionTypeToJson base),
        ("serviceMethods", .array (methodsToJson methods))]

end

def BondSchema.toJson (bond : BondSchema) : Json :=
  .object [("imports", .array (bond.bondImports.map Import.toJson)),
    ("namespaces", .array (bond.bondNamespaces.map Namespace.toJson)),
    ("declarations", .array (bond.bondDeclarations.map (Declaration.toJson S)))]

/-- The input of a function, from its type and the streaming tag. -/
def methodInputOf : Option BondType → MethodStreamingTag → JsonParser MethodType
  | none, .unary => .ok .void
  | none, .client => .error (.invalidNothingCombo "input" "Client")
  | none, .server => .ok .void
  | none, .duplex => .error (.invalidNothingCombo "input" "Duplex")
  | some t, .unary => .ok (.unary t)
  | some t, .client => .ok (.streaming t)
  | some t, .server => .ok (.unary t)
  | some t, .duplex => .ok (.streaming t)

/-- The result of a function, from its type and the streaming tag. -/
def methodResultOf : Option BondType → MethodStreamingTag → JsonParser MethodType
  | none, .unary => .ok .void
  | none, .client => .ok .void
  | none, .server => .error (.invalidNothingCombo "result" "Server")
  | none, .duplex => .error (.invalidNothingCombo "result" "Duplex")
  | some t, .unary => .ok (.unary t)
  | some t, .client => .ok (.unary t)
  | some t, .server => .ok (.streaming t)
  | some t, .duplex => .ok (.streaming t)

-- The number bounds the nesting of the value.
mutual

def parseType : Nat → Json → JsonParser BondType
  | 0, _ => .error .tooDeep
  | n + 1, json =>
      match json with
      | .string name =>
          match BasicType.ofName name with
          | some t => .ok (.basic t)
          | none => .error (.expected "Type" (.string name))
      | .object o => do
          let type_ ← member o "type" pure
          match type_ with
          | .string "map" =>
              return .map (← member o "key" (parseType n)) (← member o "element" (parseType n))
          | .string "constant" => .intTypeArg <$> member o "value" parseInt
          | .string "parameter" => .typeParam <$> member o "value" parseTypeParam
          | .string "user" => do
              let decl ← member o "declaration" (parseDeclaration n)
              let args ← optionalMember o "arguments" (parseArray (parseType n))
              return .userDefined decl (args.getD [])
          | .string name =>
              match ContainerKind.ofName name with
              | some kind => .container kind <$> member o "element" (parseType n)
              | none => .error (.invalidType (.string name))
          | type_ => .error (.invalidType type_)
      | json => .error (.expected "Type" json)

def parseField : Nat → Json → JsonParser Field
  | 0, _ => .error .tooDeep
  | n + 1, json =>
      match json with
      | .object o => do
          let attributes ← optionalMember o "fieldAttributes" (parseArray parseAttribute)
          let ordinal ← member o "fieldOrdinal" parseWord16
          let modifier ← optionalMember o "fieldModifier" parseModifier
          let type ← member o "fieldType" (parseType n)
          let name ← member o "fieldName" parseString
          let default ← optionalMember o "fieldDefault" (parseDefault S)
          return .mk (attributes.getD []) ordinal (modifier.getD .optional) type name default
      | json => .error (.expected "Field" json)

def parseMethod : Nat → Json → JsonParser Method
  | 0, _ => .error .tooDeep
  | n + 1, json =>
      match json with
      | .object o => do
          let tag ← member o "tag" pure
          match tag with
          | .string "Event" => do
              let attributes ← optionalMember o "methodAttributes" (parseArray parseAttribute)
              let name ← member o "methodName" parseString
              let input ← optionalMember o "methodInput" (parseType n)
              if (o.lookup "methodStreaming").isSome then
                .error .eventStreaming
              else
                return .event (attributes.getD []) name (input.elim .void .unary)
          | .string "Function" => do
              let attributes ← optionalMember o "methodAttributes" (parseArray parseAttribute)
              let result ← optionalMember o "methodResult" (parseType n)
              let streaming ← optionalMember o "methodStreaming" parseMethodStreamingTag
              let result ← methodResultOf result (streaming.getD .unary)
              let name ← member o "methodName" parseString
              let input ← optionalMember o "methodInput" (parseType n)
              let input ← methodInputOf input (streaming.getD .unary)
              return .function (attributes.getD []) result name input
          | tag => .error (.unexpectedTag tag)
      | json => .error (.expected "Method" json)

def parseDeclaration : Nat → Json → JsonParser Declaration
  | 0, _ => .error .tooDeep
  | n + 1, json =>
      match json with
      | .object o => do
          let tag ← member o "tag" parseString
          match tag with
          | "Struct" =>
              return .struct (← member o "declNamespaces" (parseArray parseNamespace))
                (← member o "declAttributes" (parseArray parseAttribute))
                (← member o "declName" parseString)
                (← member o "declParams" (parseArray parseTypeParam))
                (← optionalMember o "structBase" (parseType n))
                (← member o "structFields" (parseArray (parseField n)))
          | "Enum" =>
              return .enum (← member o "declNamespaces" (parseArray parseNamespace))
                (← member o "declAttributes" (parseArray parseAttribute))
                (← member o "declName" parseString)
                (← member o "enumConstants" (parseArray parseConstant))
          | "Forward" =>
              return .forward (← member o "declNamespaces" (parseArray parseNamespace))
                (← member o "declName" parseString)
                (← member o "declParams" (parseArray parseTypeParam))
          | "Alias" =>
              return .typeAlias (← member o "declNamespaces" (parseArray parseNamespace))
                (← member o "declName" parseString)
                (← member o "declParams" (parseArray parseTypeParam))
                (← member o "aliasType" (parseType n))
          | "Service" =>
              return .service (← member o "declNamespaces" (parseArray parseNamespace))
                (← member o "declAttributes" (parseArray parseAttribute))
                (← member o "declName" parseString)
                (← member o "declParams" (parseArray parseTypeParam))
                (← optionalMember o "serviceBase" (parseType n))
                (← member o "serviceMethods" (parseArray (parseMethod n)))
          | tag => .error (.unexpectedTag (.string tag))
      | json => .error (.expected "Declaration" json)

end

end

end Bond.Compiler

import Bond.Cpp.Variables

set_option autoImplicit false

/-! # JSON values

`rapidjson::Value` as far as the Simple JSON reader uses it: the kinds of values, the predicates that
tell them apart and the getters, each of which may only be called on values of its kind; and
`JsonTypeMatching` and `Read` (cpp/inc/bond/protocol/detail/rapidjson_helper.h), which decide by type
what may be read and read it. -/

namespace Bond.Cpp

/-! ## Values -/

/-- The integers that a `rapidjson::Value` holds. The parser makes a `double` of any other. -/
abbrev JsonInteger := {n : Int // -2 ^ 63 ≤ n ∧ n < 2 ^ 64}

/-- `rapidjson::Value`. Strings are bytes, and may have a NUL among them. -/
inductive Json where
  | null
  | bool (v : Bool)
  | integer (n : JsonInteger)
  | double (bits : UInt64)
  | string (units : List UInt8)
  | array (elements : List Json)
  | object (members : List (List UInt8 × Json))

/-- A `const char*` ends at the first NUL. -/
def cString (units : List UInt8) : List UInt8 :=
  units.takeWhile (· ≠ 0)

/-- The getters of `rapidjson::Value`. -/
inductive JsonGetter where
  | getBool | getInt | getInt64 | getUint64 | getDouble | getString
deriving DecidableEq, Repr

/-- How the deserialization of a JSON value ends if it does not give one. `assertion` is a getter that
    was called on a value of another kind: the assertion in it fails, and without assertions the
    behaviour is undefined. The other errors are exceptions. -/
inductive JsonError where
  | assertion (getter : JsonGetter)
  | invalidEnumValue (name : List UInt8)
  | unicodeConversion
  | invalidKeyType
  | elementNotFound (key : BasicValue)
  | missingField (id : UInt16) (qualifiedName : String)
  /-- a schema with bases that go round in a circle -/
  | undefinedBehavior
deriving DecidableEq, Repr

namespace Json

def isBool : Json → Bool
  | .bool _ => true
  | _ => false

def isTrue : Json → Bool
  | .bool v => v
  | _ => false

def isNull : Json → Bool
  | .null => true
  | _ => false

def isString : Json → Bool
  | .string _ => true
  | _ => false

def isArray : Json → Bool
  | .array _ => true
  | _ => false

def isObject : Json → Bool
  | .object _ => true
  | _ => false

def isInt : Json → Bool
  | .integer n => -2 ^ 31 ≤ n.val && n.val < 2 ^ 31
  | _ => false

def isUint : Json → Bool
  | .integer n => 0 ≤ n.val && n.val < 2 ^ 32
  | _ => false

def isInt64 : Json → Bool
  | .integer n => n.val < 2 ^ 63
  | _ => false

def isUint64 : Json → Bool
  | .integer n => 0 ≤ n.val
  | _ => false

def isNumber : Json → Bool
  | .integer _ | .double _ => true
  | _ => false

def getBool : Json → Except JsonError Bool
  | .bool v => return v
  | _ => throw (.assertion .getBool)

def getInt (value : Json) : Except JsonError Int :=
  match value with
  | .integer n => if value.isInt then return n.val else throw (.assertion .getInt)
  | _ => throw (.assertion .getInt)

def getInt64 (value : Json) : Except JsonError Int :=
  match value with
  | .integer n => if value.isInt64 then return n.val else throw (.assertion .getInt64)
  | _ => throw (.assertion .getInt64)

def getUint64 (value : Json) : Except JsonError Nat :=
  match value with
  | .integer n => if value.isUint64 then return n.val.toNat else throw (.assertion .getUint64)
  | _ => throw (.assertion .getUint64)

/-- An integer is converted to the nearest `double`. -/
def getDouble : Json → Except JsonError UInt64
  | .integer n =>
      if n.val < 0 then return (Int64.ofInt n.val).toFloat.toBits
      else return (UInt64.ofNat n.val.toNat).toFloat.toBits
  | .double bits => return bits
  | _ => throw (.assertion .getDouble)

/-- `GetString` and `GetStringLength` -/
def getString : Json → Except JsonError (List UInt8)
  | .string units => return units
  | _ => throw (.assertion .getString)

end Json

/-! ## Types -/

/-- The types that are neither containers nor structs, as the C++ code tells them apart: an `enum`
    comes with the names of its constants and is an `int32` in a schema. -/
inductive Scalar where
  | basic (type : BasicType)
  | enum (constants : List (List UInt8 × Int32))
deriving DecidableEq, Repr

/-- `get_type_id` -/
def Scalar.type : Scalar → BasicType
  | .basic type => type
  | .enum _ => .int32

/-- `std::is_enum` -/
def Scalar.isEnum : Scalar → Bool
  | .basic _ => false
  | .enum _ => true

/-- `JsonTypeMatching` -/
structure JsonTypeMatching where
  matchesObject : Bool
  matchesArray : Bool
  matchesNull : Bool
  matchesInt : Bool
  matchesInt64 : Bool
  matchesUint : Bool
  matchesUint64 : Bool
  matchesNumber : Bool
  matchesString : Bool
  matchesBool : Bool

namespace JsonTypeMatching

/-- The constructor of `JsonTypeMatching`; types are compared by their number. -/
def ofType (type schema : BondDataType) (isEnum : Bool) : JsonTypeMatching where
  matchesObject := type = .struct && type = schema
  matchesArray := (type = .map || type = .list || type = .set) && type = schema
  matchesNull := type = .list && type = schema
  matchesInt := BasicType.int8.toUInt8 ≤ type.toUInt8 && type.toUInt8 ≤ BasicType.int64.toUInt8
  matchesInt64 := type = .basic .int64
  matchesUint := BasicType.uint8.toUInt8 ≤ type.toUInt8 && type.toUInt8 ≤ BasicType.uint64.toUInt8
  matchesUint64 := type = .basic .uint64
  matchesNumber :=
    BasicType.float.toUInt8 ≤ type.toUInt8 && type.toUInt8 ≤ BasicType.double.toUInt8
  matchesString := type = .basic .string || type = .basic .wstring || isEnum
  matchesBool := type = .basic .bool

variable (matching : JsonTypeMatching)

def complexTypeMatch (value : Json) : Bool :=
  value.isObject && matching.matchesObject
    || value.isArray && matching.matchesArray
    || value.isNull && matching.matchesNull

def basicTypeMatch (value : Json) : Bool :=
  value.isString && matching.matchesString
    || value.isUint && matching.matchesUint
    || value.isInt && matching.matchesInt
    || value.isUint64 && matching.matchesUint64
    || value.isInt64 && matching.matchesInt64
    || value.isNumber && matching.matchesNumber
    || value.isBool && matching.matchesBool

def typeMatch (value : Json) : Bool :=
  matching.complexTypeMatch value || matching.basicTypeMatch value

end JsonTypeMatching

/-! ## Reading -/

/-- What comes from Boost: the conversions of a string to an unsigned integer and, for a valid string,
    to UTF-16. -/
structure Conversions where
  tryLexicalConvert : List UInt8 → Option UInt16
  utfToUtf : List UInt8 → Option (List UInt16)

/-- `ToEnum`, with the name as a `const char*` -/
def toEnum (constants : List (List UInt8 × Int32)) (name : List UInt8) : Except JsonError Int32 :=
  match constants.find? fun constant => constant.1 = cString name with
  | some (_, constant) => return constant
  | none => throw (.invalidEnumValue (cString name))

variable (conversions : Conversions)

/-- `detail::Read` -/
def Scalar.read (T : Scalar) (value : Json) : Except JsonError BasicValue :=
  match T with
  | .enum constants =>
      if value.isString then do
        let name ← value.getString
        let constant ← toEnum constants name
        return .int32 constant
      else do
        let n ← value.getInt
        return .int32 (Int32.ofInt n)
  | .basic .bool => do
      let v ← value.getBool
      return .bool v
  | .basic .float => do
      let bits ← value.getDouble
      return .float (Float.ofBits bits).toFloat32.toBits
  | .basic .double => do
      let bits ← value.getDouble
      return .double bits
  | .basic .string => do
      let units ← value.getString
      return .string units
  | .basic .wstring => do
      let units ← value.getString
      match conversions.utfToUtf units with
      | some str => return .wstring str
      | none => throw .unicodeConversion
  | .basic .uint8 | .basic .uint16 | .basic .uint32 | .basic .uint64 => do
      let n ← value.getUint64
      return T.type.ofBits n
  | .basic .int8 | .basic .int16 | .basic .int32 | .basic .int64 => do
      let n ← value.getInt64
      return T.type.ofInt n

end Bond.Cpp

import Bond.Java.Completeness

set_option autoImplicit false

/-! # Simple JSON in Java

`SimpleJsonWriter` and `SimpleJsonReader` (java/json/src/main/java/org/bondlib), with
`serializeValue` and `serializeField` of the `BondType`s for this writer. Both sides are given by
the tokens that Jackson's generator is told to write and its parser finds. -/

namespace Bond.Java.SimpleJson

open Bond.Cpp (BondDataType BasicType)
open Bond.Lib Bond.Managed

/-! ## Tokens -/

/-- A number with a fraction or an exponent, by the value that it was written for. -/
inductive FloatText where
  | float (bits : UInt32)
  | double (bits : UInt64)
deriving DecidableEq, Repr

/-- `JsonToken`, with the text of a token -/
inductive JsonToken where
  | startObject
  | endObject
  | startArray
  | endArray
  | fieldName (name : String)
  | valueString (chars : List UInt16)
  | valueNumberInt (n : Int)
  | valueNumberFloat (text : FloatText)
  | valueTrue
  | valueFalse
  | valueNull
deriving DecidableEq, Repr

/-- `JsonParser.NumberType` of integers -/
inductive NumberType where
  | int
  | long
  | bigInteger
deriving DecidableEq, Repr

/-- `getNumberType` of Jackson: the smallest type that an integer fits in. -/
def getNumberType (n : Int) : NumberType :=
  if -2 ^ 31 ≤ n ∧ n < 2 ^ 31 then .int
  else if -2 ^ 63 ≤ n ∧ n < 2 ^ 63 then .long
  else .bigInteger

/-- What Jackson does with floating point numbers. The generator's feature
    `QUOTE_NON_NUMERIC_NUMBERS` is on unless it is turned off, which `JsonGlobals` does not do. The
    parser gets back a number from the text that was written for it, and throws
    `JsonParseException` (`none`) where it cannot. -/
structure Jackson where
  quoteNonNumericNumbers : Bool
  getFloatValue : JsonToken → Option UInt32
  getDoubleValue : JsonToken → Option UInt64
  getFloatValue_float : ∀ bits, getFloatValue (.valueNumberFloat (.float bits)) = some bits
  getDoubleValue_double : ∀ bits, getDoubleValue (.valueNumberFloat (.double bits)) = some bits

/-! ## Writer -/

/-- The characters of a text without surrogates. -/
def chars (text : String) : List UInt16 :=
  text.toList.map fun c => UInt16.ofNat c.toNat

/-- `Float.isNaN` or `Float.isInfinite` -/
def isNonNumericFloat (bits : UInt32) : Bool :=
  0x7F800000 ≤ bits &&& 0x7FFFFFFF

/-- `Double.isNaN` or `Double.isInfinite` -/
def isNonNumericDouble (bits : UInt64) : Bool :=
  0x7FF0000000000000 ≤ bits &&& 0x7FFFFFFFFFFFFFFF

/-- `String.valueOf` of a number that is not numeric -/
def nonNumericText (nan negative : Bool) : List UInt16 :=
  if nan then chars "NaN" else if negative then chars "-Infinity" else chars "Infinity"

section

variable (jackson : Jackson)

/-- `writeNumber` of a `float` -/
def writeFloat (v : UInt32) : JsonToken :=
  if jackson.quoteNonNumericNumbers && isNonNumericFloat v then
    .valueString (nonNumericText (0x7F800000 < v &&& 0x7FFFFFFF) (0x80000000 ≤ v))
  else
    .valueNumberFloat (.float v)

/-- `writeNumber` of a `double` -/
def writeDouble (v : UInt64) : JsonToken :=
  if jackson.quoteNonNumericNumbers && isNonNumericDouble v then
    .valueString
      (nonNumericText (0x7FF0000000000000 < v &&& 0x7FFFFFFFFFFFFFFF) (0x8000000000000000 ≤ v))
  else
    .valueNumberFloat (.double v)

/-- `writeBoolean` of Jackson -/
def writeBool (b : Bool) : JsonToken :=
  if b then .valueTrue else .valueFalse

/-- The methods that write a value of a basic type. -/
def write : BasicValue → JsonToken
  | .bool v => writeBool v
  | .uint8 v => .valueNumberInt v.toNat
  | .uint16 v => .valueNumberInt v.toNat
  | .uint32 v => .valueNumberInt v.toNat
  | .uint64 v => .valueNumberInt v.toNat
  | .float bits => writeFloat jackson bits
  | .double bits => writeDouble jackson bits
  | .string chars => .valueString chars
  | .int8 v => .valueNumberInt v.toInt
  | .int16 v => .valueNumberInt v.toInt
  | .int32 v => .valueNumberInt v.toInt
  | .int64 v => .valueNumberInt v.toInt
  | .wstring chars => .valueString chars

def writeStructBegin : List JsonToken :=
  [.startObject]

def writeStructEnd : List JsonToken :=
  [.endObject]

def writeFieldBegin (name : String) : List JsonToken :=
  [.fieldName name]

def writeContainerBegin : List JsonToken :=
  [.startArray]

def writeContainerEnd : List JsonToken :=
  [.endArray]

def writeBytes (bytes : List UInt8) : List JsonToken :=
  [.startArray] ++ bytes.map (fun b => .valueNumberInt b.toInt8.toInt) ++ [.endArray]

/-- Nothing is written for a field that is omitted. -/
def writeFieldOmitted : List JsonToken :=
  []

/-! ## Serialization -/

/-- A field with its name in the metadata. -/
structure NamedField extends FieldDescriptor where
  name : String
deriving DecidableEq, Repr

/-- `serializeValue` for null: all types but `NullableBondType` verify that it is not. -/
def serializeNull : BondType → Except Exception (List JsonToken)
  | .nullable _ => .ok (writeContainerBegin ++ writeContainerEnd)
  | _ => .error .invalidBondData

/-- `serializeValue` of `NullableBondType` for a value other than null, and of the type of the value
    itself -/
def serializeNullable (serializeValue : BondType → Except Exception (List JsonToken)) :
    BondType → Except Exception (List JsonToken)
  | .nullable valueType => do
      let tokens ← serializeNullable serializeValue valueType
      return writeContainerBegin ++ tokens ++ writeContainerEnd
  | type => serializeValue type

/-- `serializeField`, with what `serializeValue` does for the value -/
def serializeField (field : NamedField) (value : Datum)
    (serialized : Except Exception (List JsonToken)) : Except Exception (List JsonToken) :=
  if value.isNull && !field.fieldType.isNullableType then
    .error .invalidBondData
  else if field.omits value then
    .ok writeFieldOmitted
  else do
    let tokens ← serialized
    return writeFieldBegin field.name ++ tokens

variable (types : Nat → List (List NamedField))

mutual

/-- `serializeValue`. No value has another type than that of its class. The levels of a struct are
    flattened, and a `Bonded` is given by its object, which is not marshaled in this protocol. -/
def serializeValue : Datum → BondType → Except Exception (List JsonToken)
  | .null => serializeNull
  | .primitive v => serializeNullable fun
      | .primitive b => if v.type = b then .ok [write jackson v] else .error .illegalArgument
      | _ => .error .illegalArgument
  | .blob data => serializeNullable fun
      | .blob => .ok (writeContainerBegin ++ writeBytes data ++ writeContainerEnd)
      | _ => .error .illegalArgument
  | .collection elements => serializeNullable fun
      | .vector e | .list e | .set e => do
          let tokens ← serializeElements elements e
          return writeContainerBegin ++ tokens ++ writeContainerEnd
      | _ => .error .illegalArgument
  | .map entries => serializeNullable fun
      | .map k e => do
          let tokens ← serializeEntries entries k e
          return writeContainerBegin ++ tokens ++ writeContainerEnd
      | _ => .error .illegalArgument
  | .something _ => fun _ => .error .illegalArgument
  | .struct fields => serializeNullable fun
      | .struct index | .bonded index => do
          let tokens ← serializeStructFields fields (types index).flatten
          return writeStructBegin ++ tokens ++ writeStructEnd
      | _ => .error .illegalArgument
  | .bonded _ => fun _ => .error .illegalArgument

def serializeElements : List Datum → BondType → Except Exception (List JsonToken)
  | [], _ => .ok []
  | d :: ds, e => do
      let tokens ← serializeValue d e
      return tokens ++ (← serializeElements ds e)

def serializeEntries : List (Datum × Datum) → BondType → BondType →
    Except Exception (List JsonToken)
  | [], _, _ => .ok []
  | (key, value) :: entries, k, e => do
      let keyTokens ← serializeValue key k
      let valueTokens ← serializeValue value e
      return keyTokens ++ valueTokens ++ (← serializeEntries entries k e)

/-- `serializeStructFields` of a struct and its bases -/
def serializeStructFields : List Datum → List NamedField → Except Exception (List JsonToken)
  | .something value :: ds, field :: fields => do
      let tokens ← serializeField field value (serializeValue value field.fieldType)
      return tokens ++ (← serializeStructFields ds fields)
  | d :: ds, field :: fields => do
      if field.isDefaultNothing then
        -- `serializeSomethingField` of null
        if field.isOptional then
          let tokens ← serializeStructFields ds fields
          return writeFieldOmitted ++ tokens
        else
          .error .invalidBondData
      else
        let tokens ← serializeField field d (serializeValue d field.fieldType)
        return tokens ++ (← serializeStructFields ds fields)
  | _, _ => .ok []

end

end

/-! ## Reader -/

/-- `JsonParser`: the tokens to come, and the one it stands at. -/
structure JsonParser where
  tokens : List JsonToken
  currentToken : Option JsonToken
deriving DecidableEq, Repr

/-- `SimpleJsonReader` -/
structure SimpleJsonReader where
  parser : JsonParser
  hasPeekedParserForNextToken : Bool
deriving DecidableEq, Repr

def JsonParser.nextToken (parser : JsonParser) : JsonParser where
  tokens := parser.tokens.tail
  currentToken := parser.tokens.head?

/-- A program that reads from a `SimpleJsonReader`. -/
abbrev TextReader := StateT SimpleJsonReader (Except Exception)

def throwText {α : Type} (e : Exception) : TextReader α :=
  fun _ => .error e

def advanceParserToNextToken : TextReader JsonToken := fun reader =>
  let parser :=
    if reader.hasPeekedParserForNextToken then reader.parser else reader.parser.nextToken
  match parser.currentToken with
  | none => .error .endOfFile
  | some currentToken => .ok (currentToken, ⟨parser, false⟩)

def peekParserForNextToken : TextReader (Option JsonToken) := fun reader =>
  let parser :=
    if reader.hasPeekedParserForNextToken then reader.parser else reader.parser.nextToken
  .ok (parser.currentToken, ⟨parser, true⟩)

def readStructBegin : TextReader Unit := do
  let currentToken ← advanceParserToNextToken
  if currentToken = .startObject then
    return
  else
    throwText .invalidBondData

def readStructEnd : TextReader Unit :=
  return

/-- `readFieldBegin`, `none` being Java's null -/
def readFieldBegin : TextReader (Option String) := do
  let currentToken ← advanceParserToNextToken
  match currentToken with
  | .fieldName name => return some name
  | .endObject => return none
  | _ => throwText .invalidBondData

def readFieldEnd : TextReader Unit :=
  return

def readContainerBegin : TextReader Unit := do
  let currentToken ← advanceParserToNextToken
  if currentToken = .startArray then
    return
  else
    throwText .invalidBondData

def readContainerEnd : TextReader Unit := fun reader =>
  .ok ((), { reader with hasPeekedParserForNextToken := false })

def readContainerItemBegin : TextReader Bool := do
  let nextToken ← peekParserForNextToken
  return decide (nextToken ≠ some .endArray)

def readContainerItemEnd : TextReader Unit :=
  return

/-- The methods that read an integer differ in the number types and the values they take. -/
def readNumberInt (accepts : NumberType → Int → Bool) : TextReader Int := do
  let currentToken ← advanceParserToNextToken
  match currentToken with
  | .valueNumberInt n =>
      if accepts (getNumberType n) n then return n else throwText .invalidBondData
  | _ => throwText .invalidBondData

def readInt8 : TextReader Int8 :=
  Int8.ofInt <$> readNumberInt fun numberType n =>
    numberType = .int && decide (-128 ≤ n) && decide (n ≤ 127)

def readInt16 : TextReader Int16 :=
  Int16.ofInt <$> readNumberInt fun numberType n =>
    numberType = .int && decide (-32768 ≤ n) && decide (n ≤ 32767)

def readInt32 : TextReader Int32 :=
  Int32.ofInt <$> readNumberInt fun numberType _ => numberType = .int

def readInt64 : TextReader Int64 :=
  Int64.ofInt <$> readNumberInt fun numberType _ => numberType = .long || numberType = .int

def readUInt8 : TextReader UInt8 :=
  (fun n => UInt8.ofNat n.toNat) <$> readNumberInt fun numberType n =>
    numberType = .int && decide (0 ≤ n) && decide (n ≤ 0xFF)

def readUInt16 : TextReader UInt16 :=
  (fun n => UInt16.ofNat n.toNat) <$> readNumberInt fun numberType n =>
    numberType = .int && decide (0 ≤ n) && decide (n ≤ 0xFFFF)

def readUInt32 : TextReader UInt32 :=
  (fun n => UInt32.ofNat n.toNat) <$> readNumberInt fun
    | .int, n => decide (0 ≤ n)
    | .long, n => decide (0 ≤ n) && decide (n ≤ 0xFFFFFFFF)
    | .bigInteger, _ => false

def readUInt64 : TextReader UInt64 :=
  (fun n => UInt64.ofNat n.toNat) <$> readNumberInt fun
    | .int, n => decide (0 ≤ n)
    | .long, n => decide (0 ≤ n)
    | .bigInteger, n => decide (0 ≤ n) && decide (n ≤ 0xFFFFFFFFFFFFFFFF)

/-- `readFloat` and `readDouble`, with what the parser makes of a number -/
def readNumberFloat {α : Type} (getValue : JsonToken → Option α) : TextReader α := do
  let currentToken ← advanceParserToNextToken
  match currentToken with
  | .valueNumberFloat _ | .valueNumberInt _ =>
      match getValue currentToken with
      | some v => return v
      | none => throwText .invalidBondData
  | _ => throwText .invalidBondData

def readFloat (jackson : Jackson) : TextReader UInt32 :=
  readNumberFloat jackson.getFloatValue

def readDouble (jackson : Jackson) : TextReader UInt64 :=
  readNumberFloat jackson.getDoubleValue

def readBool : TextReader Bool := do
  let currentToken ← advanceParserToNextToken
  match currentToken with
  | .valueFalse => return false
  | .valueTrue => return true
  | _ => throwText .invalidBondData

/-- `readString` and `readWString` -/
def readString : TextReader (List UInt16) := do
  let currentToken ← advanceParserToNextToken
  match currentToken with
  | .valueString chars => return chars
  | _ => throwText .invalidBondData

/-- The methods that read a value of a basic type. -/
def read (jackson : Jackson) : BasicType → TextReader BasicValue
  | .bool => BasicValue.bool <$> readBool
  | .uint8 => BasicValue.uint8 <$> readUInt8
  | .uint16 => BasicValue.uint16 <$> readUInt16
  | .uint32 => BasicValue.uint32 <$> readUInt32
  | .uint64 => BasicValue.uint64 <$> readUInt64
  | .float => BasicValue.float <$> readFloat jackson
  | .double => BasicValue.double <$> readDouble jackson
  | .string => BasicValue.string <$> readString
  | .int8 => BasicValue.int8 <$> readInt8
  | .int16 => BasicValue.int16 <$> readInt16
  | .int32 => BasicValue.int32 <$> readInt32
  | .int64 => BasicValue.int64 <$> readInt64
  | .wstring => BasicValue.wstring <$> readString

end Bond.Java.SimpleJson

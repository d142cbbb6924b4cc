import Mathlib
import Bond.Compiler.DefaultValues

set_option autoImplicit false

/-! # The defaults of the runtime schemas

What the runtimes of three languages, and `gbc` itself, put into `SchemaDef` for the default of a
field: `MetadataInit` and `VariantSet` (cpp/inc/bond/core/reflection.h, detail/metadata.h),
`Schema.GetDefaultValue` (cs/src/core/Schema.cs), `initializeSchemaVariantWithDefaultValue`
(java/core/src/main/java/org/bondlib/StructBondType.java) and `makeSchemaDef`. The first three are
handed a value of the language by code that is generated from the same definition
(compiler/src/Language/Bond/Codegen). There are no custom type mappings. -/

namespace Bond.Compiler

/-! ## Variants -/

theorem isBinary64_zero : IsBinary64 0 := ⟨0, 0, by norm_num⟩

/-- `bond.Variant`; a Java `long` has the bits of a `uint64`. -/
structure RuntimeVariant where
  uintValue : BitVec 64 := 0
  intValue : BitVec 64 := 0
  doubleValue : Double := .finite ⟨0, isBinary64_zero⟩
  stringValue : String := ""
  wstringValue : String := ""
  nothing : Bool := false
deriving DecidableEq

/-- What is read from the JSON of a schema: a member that is left out has its default. -/
def Variant.read (v : Variant) : RuntimeVariant :=
  let unset : RuntimeVariant := {}
  { uintValue := (v.uintValue.map (BitVec.ofInt 64)).getD unset.uintValue
    intValue := (v.intValue.map (BitVec.ofInt 64)).getD unset.intValue
    doubleValue := v.doubleValue.getD unset.doubleValue
    stringValue := v.stringValue.getD unset.stringValue
    wstringValue := v.wstringValue.getD unset.wstringValue
    nothing := v.nothing.getD unset.nothing }

/-! ## Literals -/

/-- A binary format: the bits of a significand, the least and the greatest exponent of its last bit. -/
structure FloatFormat where
  precision : Nat
  least : Int
  greatest : Int

def FloatFormat.single : FloatFormat := ⟨24, -149, 104⟩

def FloatFormat.double : FloatFormat := ⟨53, -1074, 971⟩

/-- The nearest integer, the even one of two that are as near. -/
def roundHalfEven (q : ℚ) : ℤ :=
  let rest := q - ⌊q⌋
  if rest < 1 / 2 ∨ rest = 1 / 2 ∧ ⌊q⌋ % 2 = 0 then ⌊q⌋ else ⌊q⌋ + 1

/-- The exponent of the greatest power of two that is no more than the number. -/
def exponentOf (q : ℚ) : ℤ :=
  let e : ℤ := Nat.log2 q.num.natAbs - Nat.log2 q.den
  if (2 : ℚ) ^ e ≤ |q| then e else e - 1

/-- A significand and the exponent of its last bit, if that is not too great for the format. -/
def FloatFormat.ofSignificand (F : FloatFormat) (m e : ℤ) : Option Double :=
  if h : |m| < 2 ^ 53 ∧ -1074 ≤ e ∧ e ≤ 971 then
    if e ≤ F.greatest then some (.finite ⟨m * 2 ^ e, m, e, h.1, h.2.1, h.2.2, rfl⟩) else none
  else none

/-- The number of the format that is nearest to a number, if the number is not out of its range. -/
def FloatFormat.round (F : FloatFormat) (q : ℚ) : Option Double :=
  let e := max (exponentOf q - (F.precision - 1)) F.least
  let m := roundHalfEven (q / 2 ^ e)
  -- a significand may be rounded up to the next power of two
  if |m| = 2 ^ F.precision then F.ofSignificand (m / 2) (e + 1) else F.ofSignificand m e

/-- `fromInteger` at `Double` -/
def Double.ofInteger (i : Int) : Double :=
  (FloatFormat.double.round i).getD (.infinity (i < 0))

/-- What a floating-point literal stands for that is written for a `Double`, which is no literal if it
    is not finite. -/
def floatLiteral (F : FloatFormat) : Double → Option Double
  | .finite v => F.round v
  | _ => none

/-- A `double` literal: what `show` writes is read back as it was. -/
def doubleLiteral : Double → Option Double
  | .finite v => some (.finite v)
  | _ => none

/-- An integer literal without a suffix, of a language that has types for the given range. -/
def integerLiteral (lower upper : Int) (i : Int) : Option Int :=
  if lower ≤ i ∧ i ≤ upper then some i else none

/-- A C++ literal is of a signed type, and a minus is no part of it. -/
def cppIntegerLiteral : Int → Option Int :=
  integerLiteral (-(2 ^ 63 - 1)) (2 ^ 63 - 1)

def csIntegerLiteral : Int → Option Int :=
  integerLiteral (-2 ^ 63) (2 ^ 64 - 1)

/-- Whether an integer type is signed, and how many bits it has. -/
def BasicType.integerFormat : BasicType → Option (Bool × Nat)
  | .int8 => some (true, 8)
  | .int16 => some (true, 16)
  | .int32 => some (true, 32)
  | .int64 => some (true, 64)
  | .uint8 => some (false, 8)
  | .uint16 => some (false, 16)
  | .uint32 => some (false, 32)
  | .uint64 => some (false, 64)
  | _ => none

/-! ## Enumerators -/

/-- The constants of a C++ or C# `enum`: `static_cast<int32_t>(x)` and `unchecked((int)x)`. -/
def enumerators (next : Int) : List Constant → List (String × Int)
  | [] => []
  | ⟨name, some value⟩ :: constants =>
      let v := (BitVec.ofInt 32 value.toInt).toInt
      (name, v) :: enumerators (v + 1) constants
  | ⟨name, none⟩ :: constants => (name, next) :: enumerators (next + 1) constants

def twosComplement (bitCount : Nat) (value : Int) : Int :=
  if value < 2 ^ (bitCount - 1) then value else value - 2 ^ bitCount

/-- `fixEnumWithInt`, the constants of a Java enum -/
def fixEnumWithInt (next : Int64) : List Constant → List (String × Int64)
  | [] => []
  | ⟨name, some value⟩ :: constants =>
      let fixed := Int64.ofInt (twosComplement 32 value.toInt)
      (name, fixed) :: fixEnumWithInt (fixed + 1) constants
  | ⟨name, none⟩ :: constants => (name, next) :: fixEnumWithInt (next + 1) constants

def constantNames (constants : List Constant) : List String :=
  constants.map Constant.constantName

/-- An enumerator of C++; a name may not be used twice. A constant behind the greatest `int` makes the
    `enum` wider. -/
def cppEnumerator (constants : List Constant) (c : String) : Option Int :=
  if (constantNames constants).Nodup then (enumerators 0 constants).lookup c else none

/-- A C# `enum` has no constant behind the greatest `int`. -/
def FitsCs (constants : List Constant) : Prop :=
  ∀ p ∈ enumerators 0 constants, p.2 < 2 ^ 31

/-- The constants of a Java enum are literals of type `int`. -/
def FitsJava (constants : List Constant) : Prop :=
  ∀ p ∈ fixEnumWithInt 0 constants, -2 ^ 31 ≤ p.2.toInt ∧ p.2.toInt < 2 ^ 31

instance (constants : List Constant) : Decidable (FitsCs constants) :=
  inferInstanceAs (Decidable (∀ p ∈ enumerators 0 constants, p.2 < 2 ^ 31))

instance (constants : List Constant) : Decidable (FitsJava constants) :=
  inferInstanceAs (Decidable (∀ p ∈ fixEnumWithInt 0 constants,
    -2 ^ 31 ≤ p.2.toInt ∧ p.2.toInt < 2 ^ 31))

def csEnumerator (constants : List Constant) (c : String) : Option (BitVec 32) :=
  if (constantNames constants).Nodup ∧ FitsCs constants then
    ((enumerators 0 constants).lookup c).map (BitVec.ofInt 32)
  else none

def javaEnumerator (constants : List Constant) (c : String) : Option (BitVec 32) :=
  if (constantNames constants).Nodup ∧ FitsJava constants then
    ((fixEnumWithInt 0 constants).lookup c).map fun v => BitVec.ofInt 32 v.toInt
  else none

/-! ## Types -/

/-- The type of a field in a struct with the given arguments, down to its first constructor. -/
def runtimeType (params : List TypeParam) (args : List BondType) (t : BondType) : BondType :=
  match t.resolved with
  | .typeParam p => (argument params args p).resolved
  | t => t

/-- What a string literal of a language with the given text between its quotes stands for, if it is
    one. The code generators copy the text as it is. -/
abbrev StringLiterals := Language → String → Option String

variable (literal : StringLiterals)

/-! ## C++ -/

/-- The first argument of `MetadataInit`, by its C++ type. -/
inductive CppValue where
  | nothing
  | bool (value : Bool)
  | unsigned {width : Nat} (value : BitVec width)
  | signed {width : Nat} (value : BitVec width)
  | double (value : Double)
  | chars (value : String)
  | wideChars (value : String)

/-- The text that a pointer to characters points to. -/
def untilNul (x : String) : String :=
  String.ofList (x.toList.takeWhile fun c => c != Char.ofNat 0)

def variantSet : CppValue → RuntimeVariant
  | .nothing => { nothing := true }
  | .bool value => { uintValue := if value then 1 else 0 }
  | .unsigned value => { uintValue := value.setWidth 64 }
  | .signed value => { intValue := value.signExtend 64 }
  | .double value => { doubleValue := value }
  | .chars value => { stringValue := untilNul value }
  | .wideChars value => { wstringValue := untilNul value }

/-- `static_cast` of an integer literal to the type of a field. -/
def cppStaticCast (b : BasicType) (i : Int) : Option CppValue :=
  match b with
  | .float => do return .double (← FloatFormat.single.round (← cppIntegerLiteral i))
  | .double => do return .double (← FloatFormat.double.round (← cppIntegerLiteral i))
  | _ =>
      match b.integerFormat with
      | some (true, width) => some (.signed (BitVec.ofInt width i))
      | some (false, width) => some (.unsigned (BitVec.ofInt width i))
      | none => none

/-- `explicitDefault`. A number for a field that has a type parameter as its type is left out: no C#
    code has one. -/
def cppExplicitDefault (t : BondType) : Default → Option CppValue
  | .nothing => some .nothing
  | .bool x => some (.bool x)
  | .string x =>
      match t.resolved with
      | .basic .wstring => (literal .cpp x).map .wideChars
      | .basic .string => (literal .cpp x).map .chars
      | _ => none
  | .enum c =>
      match t.resolved with
      | .userDefined (.enum _ _ _ constants) _ =>
          (cppEnumerator constants c).map fun v => .signed (BitVec.ofInt 64 v)
      | _ => none
  | .float x =>
      match t.resolved with
      | .basic .float => (floatLiteral .single x).map .double
      | .basic .double => (doubleLiteral x).map .double
      | _ => none
  | .integer i =>
      match t.resolved with
      | .basic b => cppStaticCast b i
      | _ => none

/-- `MetadataInit`, with or without a default -/
def cppDefault (f : Field) : Option RuntimeVariant :=
  match f.fieldDefault with
  | none => some {}
  | some d => (cppExplicitDefault literal f.fieldType d).map variantSet

/-! ## C# -/

/-- An object of C# or Java, or null. -/
inductive ManagedValue where
  | null
  | bool (value : Bool)
  | integer {width : Nat} (value : BitVec width)
  | double (value : Double)
  | string (value : String)
  | object

/-- What a variable holds that nothing was assigned to, for types that are not references; a new
    object, and the empty string. -/
def initialValue : BondType → ManagedValue
  | .basic .bool => .bool false
  | .basic .string => .string ""
  | .basic .wstring => .string ""
  | .basic .metaName => .string ""
  | .basic .metaFullName => .string ""
  | .basic .float => .double (.finite ⟨0, isBinary64_zero⟩)
  | .basic .double => .double (.finite ⟨0, isBinary64_zero⟩)
  | .basic b =>
      match b.integerFormat with
      | some (_, width) => .integer (0 : BitVec width)
      | none => .object
  | .userDefined (.enum _ _ _ _) _ => .integer (0 : BitVec 32)
  | .container .nullable _ => .null
  | _ => .object

/-- `Schema.GetDefaultValue`, for a field of the given type. A `Tag.nullable` is a list. -/
def csVariant (t : BondType) (value : ManagedValue) : RuntimeVariant :=
  match value with
  | .null =>
      match t with
      | .container .nullable _ => {}
      | _ => { nothing := true }
  | value =>
      match t, value with
      | .basic .bool, .bool x => { uintValue := if x then 1 else 0 }
      | .basic .float, .double x => { doubleValue := x }
      | .basic .double, .double x => { doubleValue := x }
      | .basic .wstring, .string x => { wstringValue := x }
      | .basic _, .string x => { stringValue := x }
      | .basic b, .integer x =>
          match b.integerFormat with
          | some (true, _) => { intValue := x.signExtend 64 }
          | some (false, _) => { uintValue := x.setWidth 64 }
          | none => {}
      | .userDefined (.enum _ _ _ _) _, .integer x => { intValue := x.signExtend 64 }
      | _, _ => {}

/-- The value of a field that has no default. A constructor takes the values for the fields of type
    `bond_meta::name` and `bond_meta::full_name`. -/
def csImplicitDefault (name fullName : String) (params : List TypeParam) (args : List BondType)
    (t : BondType) : ManagedValue :=
  match t with
  | .basic .metaName => .string name
  | .basic .metaFullName => .string fullName
  | t =>
      match t.resolved with
      | .basic .metaName => .null
      | .basic .metaFullName => .null
      | _ => initialValue (runtimeType params args t)

/-- The value of a field of type `T?`, or else `T`, that has no initializer. -/
def csNothing (params : List TypeParam) (args : List BondType) (element : BondType) : ManagedValue :=
  if element.isScalar then .null
  else
    match runtimeType params args element with
    | .basic .blob => .object
    | .basic .string => .null
    | .basic .wstring => .null
    | .basic b => initialValue (.basic b)
    | .userDefined (.enum namespaces attributes name constants) args =>
        initialValue (.userDefined (.enum namespaces attributes name constants) args)
    | _ => .null

/-- `explicitDefault`. No literal can be converted to a type parameter; the literal of a `float` is
    made for a field that has it as its type, and not an alias. -/
def csExplicitDefault (params : List TypeParam) (args : List BondType) (t : BondType) :
    Default → Option ManagedValue
  | .nothing =>
      match t with
      | .container .maybe element => some (csNothing params args element)
      | _ => none
  | .bool x =>
      match t.resolved with
      | .basic .bool => some (.bool x)
      | _ => none
  | .string x =>
      match t.resolved with
      | .basic .wstring => (literal .cs x).map .string
      | .basic .string => (literal .cs x).map .string
      | _ => none
  | .enum c =>
      match t.resolved with
      | .userDefined (.enum _ _ _ constants) _ => (csEnumerator constants c).map .integer
      | _ => none
  | .float x =>
      match t with
      | .basic .float => (floatLiteral .single x).map .double
      | .basic .double => (doubleLiteral x).map .double
      | _ => none
  | .integer i =>
      match t.resolved with
      | .basic .float => do return .double (← FloatFormat.single.round (← csIntegerLiteral i))
      | .basic .double => do return .double (← FloatFormat.double.round (← csIntegerLiteral i))
      | .basic b => b.integerFormat.map fun format => .integer (BitVec.ofInt format.2 i)
      | _ => none

/-- The type of a field in the schema of C#, where `T?` is no type of its own. -/
def csSchemaType (params : List TypeParam) (args : List BondType) (t : BondType) : BondType :=
  match t with
  | .container .maybe element => runtimeType params args element
  | t => runtimeType params args t

def csDefault (name fullName : String) (params : List TypeParam) (args : List BondType)
    (f : Field) : Option RuntimeVariant :=
  let type := csSchemaType params args f.fieldType
  match f.fieldDefault with
  | none => some (csVariant type (csImplicitDefault name fullName params args f.fieldType))
  | some d => (csExplicitDefault literal params args f.fieldType d).map (csVariant type)

/-! ## Java -/

/-- `initializeSchemaVariantWithDefaultValue` -/
def javaVariant (t : BondType) (value : ManagedValue) : RuntimeVariant :=
  match t, value with
  -- bool is piggy-backing on the int value
  | .basic .bool, .bool x => { intValue := if x then 1 else 0 }
  | .basic .float, .double x => { doubleValue := x }
  | .basic .double, .double x => { doubleValue := x }
  | .basic .wstring, .string x => { wstringValue := x }
  | .basic _, .string x => { stringValue := x }
  | .basic b, .integer x =>
      match b.integerFormat with
      | some (true, _) => { intValue := x.signExtend 64 }
      | some (false, _) => { uintValue := x.signExtend 64 }
      | none => {}
  | .userDefined (.enum _ _ _ _) _, .integer x => { intValue := x.signExtend 64 }
  | _, _ => {}

/-- `fieldDefaultValueInitParamExpr`: for an alias there is no parameter, unless the default is a
    `bool`. -/
def javaExplicitDefault (t : BondType) : Default → Option (Option ManagedValue)
  | .bool x =>
      match t.resolved with
      | .basic .bool => some (some (.bool x))
      | _ => none
  | .integer i =>
      match t with
      | .basic .float => do return some (.double (← FloatFormat.single.round i))
      | .basic .double => do return some (.double (← FloatFormat.double.round i))
      | .basic b =>
          some (b.integerFormat.map fun format =>
            .integer (BitVec.ofInt format.2
              (if format.1 then i else twosComplement format.2 i)))
      | _ => some none
  | .float x =>
      match t with
      | .basic .float => do return some (.double (← floatLiteral .single x))
      | .basic .double => do return some (.double (← doubleLiteral x))
      | _ => some none
  | .string x =>
      match t with
      | .basic .string => do return some (.string (← literal .java x))
      | .basic .wstring => do return some (.string (← literal .java x))
      | _ => some none
  | .enum c =>
      match t with
      | .userDefined (.enum _ _ _ constants) _ => do
          return some (.integer (← javaEnumerator constants c))
      | _ => some none
  | .nothing => some none

/-- A `Something` field has no value, every other one that is handed none has that of its type. -/
def javaDefault (params : List TypeParam) (args : List BondType) (f : Field) :
    Option RuntimeVariant :=
  match f.fieldType with
  | .container .maybe _ => some { nothing := true }
  | t => do
      let type := runtimeType params args t
      let value ← (f.fieldDefault.mapM (javaExplicitDefault literal t))
      return javaVariant type ((value.join).getD (initialValue type))

/-! ## The schema that `gbc` makes -/

def gbcDefault (name : String) (params : List TypeParam) (args : List BondType) (f : Field) :
    Option RuntimeVariant :=
  match f.fieldDefault with
  | none => some {}
  | some d =>
      (defaultVariant .ofInteger name f.fieldName (resolveType params args f.fieldType) d).toOption.map
        Variant.read

/-- The four that make schemas. -/
inductive Producer where
  | cpp | cs | java | gbc
deriving DecidableEq, Repr

/-- The variant that is made for the default of a field, in a struct of the given name and with the
    given arguments; none if there is no schema, as the default is an error to `gbc` or in the code
    that is generated. -/
def producedDefault (name fullName : String) (params : List TypeParam) (args : List BondType)
    (f : Field) : Producer → Option RuntimeVariant
  | .cpp => cppDefault literal f
  | .cs => csDefault literal name fullName params args f
  | .java => javaDefault literal params args f
  | .gbc => gbcDefault name params args f

/-- All four put the same variant into the schema. -/
def SameDefault (name fullName : String) (params : List TypeParam) (args : List BondType)
    (f : Field) : Prop :=
  ∃ v, ∀ producer, producedDefault literal name fullName params args f producer = some v

end Bond.Compiler

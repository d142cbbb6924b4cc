import Mathlib.Algebra.Order.Ring.Rat
import Mathlib.Algebra.Field.Rat

set_option autoImplicit false

/-! # The syntax tree of the Bond compiler

The data types of `Language.Bond.Syntax.Types` (compiler/src/Language/Bond/Syntax/Types.hs).
Constructors without arguments that nothing tells apart, and those with one element type, are
grouped. -/

namespace Bond.Compiler

/-! ## The parts without types in them -/

abbrev QualifiedName := List String

inductive Modifier where
  | optional | required | requiredOptional
deriving DecidableEq, Repr

/-- The finite values of a `Double`. -/
def IsBinary64 (v : ℚ) : Prop :=
  ∃ m e : ℤ, |m| < 2 ^ 53 ∧ -1074 ≤ e ∧ e ≤ 971 ∧ v = m * 2 ^ e

/-- `Double`; there is one zero. -/
inductive Double where
  | finite (value : {v : ℚ // IsBinary64 v})
  | infinity (negative : Bool)
  | nan
deriving DecidableEq

inductive Default where
  | bool (value : Bool)
  | integer (value : Int)
  | float (value : Double)
  | string (value : String)
  | enum (constant : String)
  | nothing
deriving DecidableEq

structure Attribute where
  attrName : QualifiedName
  attrValue : String
deriving DecidableEq, Repr

structure Constant where
  constantName : String
  constantValue : Option Int64
deriving DecidableEq, Repr

inductive Constraint where
  | value
deriving DecidableEq, Repr

structure TypeParam where
  paramName : String
  paramConstraint : Option Constraint
deriving DecidableEq, Repr

inductive Language where
  | cpp | cs | java
deriving DecidableEq, Repr

structure Namespace where
  nsLanguage : Option Language
  nsName : QualifiedName
deriving DecidableEq, Repr

/-- `Import` -/
structure Import where
  path : String
deriving DecidableEq, Repr

/-- The types that are made of no others. -/
inductive BasicType where
  | int8 | int16 | int32 | int64
  | uint8 | uint16 | uint32 | uint64
  | float | double
  | bool
  | string | wstring
  | metaName | metaFullName
  | blob
deriving DecidableEq, Repr

/-- The types made of one other type. -/
inductive ContainerKind where
  | maybe | list | vector | nullable | set | bonded
deriving DecidableEq, Repr

/-! ## Types and declarations -/

mutual

/-- `Type` -/
inductive BondType where
  | basic (type : BasicType)
  | container (kind : ContainerKind) (element : BondType)
  | map (key element : BondType)
  | intTypeArg (value : Int64)
  | typeParam (param : TypeParam)
  | userDefined (decl : Declaration) (args : List BondType)

/-- `Field` -/
inductive Field where
  | mk (fieldAttributes : List Attribute) (fieldOrdinal : UInt16) (fieldModifier : Modifier)
      (fieldType : BondType) (fieldName : String) (fieldDefault : Option Default)

/-- `MethodType` -/
inductive MethodType where
  | void
  | unary (type : BondType)
  | streaming (type : BondType)

/-- `Method` -/
inductive Method where
  | function (methodAttributes : List Attribute) (methodResult : MethodType) (methodName : String)
      (methodInput : MethodType)
  | event (methodAttributes : List Attribute) (methodName : String) (methodInput : MethodType)

/-- `Declaration` -/
inductive Declaration where
  | struct (declNamespaces : List Namespace) (declAttributes : List Attribute) (declName : String)
      (declParams : List TypeParam) (structBase : Option BondType) (structFields : List Field)
  | enum (declNamespaces : List Namespace) (declAttributes : List Attribute) (declName : String)
      (enumConstants : List Constant)
  | forward (declNamespaces : List Namespace) (declName : String) (declParams : List TypeParam)
  | typeAlias (declNamespaces : List Namespace) (declName : String) (declParams : List TypeParam)
      (aliasType : BondType)
  | service (declNamespaces : List Namespace) (declAttributes : List Attribute) (declName : String)
      (declParams : List TypeParam) (serviceBase : Option BondType) (serviceMethods : List Method)

end

/-- `Bond` -/
structure BondSchema where
  bondImports : List Import
  bondNamespaces : List Namespace
  bondDeclarations : List Declaration

namespace Field

def fieldAttributes : Field → List Attribute
  | mk attributes _ _ _ _ _ => attributes

def fieldOrdinal : Field → UInt16
  | mk _ ordinal _ _ _ _ => ordinal

def fieldModifier : Field → Modifier
  | mk _ _ modifier _ _ _ => modifier

def fieldType : Field → BondType
  | mk _ _ _ type _ _ => type

def fieldName : Field → String
  | mk _ _ _ _ name _ => name

def fieldDefault : Field → Option Default
  | mk _ _ _ _ _ default => default

end Field

namespace Method

def methodName : Method → String
  | function _ _ name _ => name
  | event _ name _ => name

end Method

namespace Declaration

def declNamespaces : Declaration → List Namespace
  | struct namespaces _ _ _ _ _ => namespaces
  | enum namespaces _ _ _ => namespaces
  | forward namespaces _ _ => namespaces
  | typeAlias namespaces _ _ _ => namespaces
  | service namespaces _ _ _ _ _ => namespaces

def declName : Declaration → String
  | struct _ _ name _ _ _ => name
  | enum _ _ name _ => name
  | forward _ name _ => name
  | typeAlias _ name _ _ => name
  | service _ _ name _ _ _ => name

/-- `declParams`; an enum has none. -/
def declParams : Declaration → List TypeParam
  | struct _ _ _ params _ _ => params
  | enum _ _ _ _ => []
  | forward _ _ params => params
  | typeAlias _ _ params _ => params
  | service _ _ _ params _ _ => params

def structBase : Declaration → Option BondType
  | struct _ _ _ _ base _ => base
  | _ => none

def structFields : Declaration → List Field
  | struct _ _ _ _ _ fields => fields
  | _ => []

end Declaration

/-! ## Equality

`deriving Eq` in the source. -/

mutual

def BondType.beq : BondType → BondType → Bool
  | .basic t, .basic t' => t = t'
  | .container kind t, .container kind' t' => kind = kind' && t.beq t'
  | .map k t, .map k' t' => k.beq k' && t.beq t'
  | .intTypeArg n, .intTypeArg n' => n = n'
  | .typeParam p, .typeParam p' => p = p'
  | .userDefined decl args, .userDefined decl' args' => decl.beq decl' && beqTypes args args'
  | _, _ => false
termination_by structural x => x

def beqTypes : List BondType → List BondType → Bool
  | [], [] => true
  | t :: ts, t' :: ts' => t.beq t' && beqTypes ts ts'
  | _, _ => false
termination_by structural x => x

def beqOptionType : Option BondType → Option BondType → Bool
  | none, none => true
  | some t, some t' => t.beq t'
  | _, _ => false
termination_by structural x => x

def Field.beq : Field → Field → Bool
  | .mk attributes ordinal modifier type name default,
      .mk attributes' ordinal' modifier' type' name' default' =>
      attributes = attributes' && ordinal = ordinal' && modifier = modifier' && type.beq type' &&
        name = name' && default = default'
termination_by structural x => x

def beqFields : List Field → List Field → Bool
  | [], [] => true
  | f :: fs, f' :: fs' => f.beq f' && beqFields fs fs'
  | _, _ => false
termination_by structural x => x

def MethodType.beq : MethodType → MethodType → Bool
  | .void, .void => true
  | .unary t, .unary t' => t.beq t'
  | .streaming t, .streaming t' => t.beq t'
  | _, _ => false
termination_by structural x => x

def Method.beq : Method → Method → Bool
  | .function attributes result name input, .function attributes' result' name' input' =>
      attributes = attributes' && result.beq result' && name = name' && input.beq input'
  | .event attributes name input, .event attributes' name' input' =>
      attributes = attributes' && name = name' && input.beq input'
  | _, _ => false
termination_by structural x => x

def beqMethods : List Method → List Method → Bool
  | [], [] => true
  | m :: ms, m' :: ms' => m.beq m' && beqMethods ms ms'
  | _, _ => false
termination_by structural x => x

def Declaration.beq : Declaration → Declaration → Bool
  | .struct namespaces attributes name params base fields,
      .struct namespaces' attributes' name' params' base' fields' =>
      namespaces = namespaces' && attributes = attributes' && name = name' && params = params' &&
        beqOptionType base base' && beqFields fields fields'
  | .enum namespaces attributes name constants, .enum namespaces' attributes' name' constants' =>
      namespaces = namespaces' && attributes = attributes' && name = name' &&
        constants = constants'
  | .forward namespaces name params, .forward namespaces' name' params' =>
      namespaces = namespaces' && name = name' && params = params'
  | .typeAlias namespaces name params type, .typeAlias namespaces' name' params' type' =>
      namespaces = namespaces' && name = name' && params = params' && type.beq type'
  | .service namespaces attributes name params base methods,
      .service namespaces' attributes' name' params' base' methods' =>
      namespaces = namespaces' && attributes = attributes' && name = name' && params = params' &&
        beqOptionType base base' && beqMethods methods methods'
  | _, _ => false
termination_by structural x => x

end

mutual

theorem BondType.beq_iff (t t' : BondType) : t.beq t' = true ↔ t = t' := by
  cases t with
  | basic b => cases t' <;> simp [BondType.beq]
  | container kind t => cases t' <;> simp [BondType.beq, BondType.beq_iff t]
  | map k t => cases t' <;> simp [BondType.beq, BondType.beq_iff k, BondType.beq_iff t]
  | intTypeArg n => cases t' <;> simp [BondType.beq]
  | typeParam p => cases t' <;> simp [BondType.beq]
  | userDefined decl args =>
      cases t' <;> simp [BondType.beq, Declaration.beq_iff decl, beqTypes_iff args]
termination_by structural t

theorem beqTypes_iff (ts ts' : List BondType) : beqTypes ts ts' = true ↔ ts = ts' := by
  cases ts with
  | nil => cases ts' <;> simp [beqTypes]
  | cons t ts => cases ts' <;> simp [beqTypes, BondType.beq_iff t, beqTypes_iff ts]
termination_by structural ts

theorem beqOptionType_iff (t t' : Option BondType) : beqOptionType t t' = true ↔ t = t' := by
  cases t with
  | none => cases t' <;> simp [beqOptionType]
  | some t => cases t' <;> simp [beqOptionType, BondType.beq_iff t]
termination_by structural t

theorem Field.beq_iff (f f' : Field) : f.beq f' = true ↔ f = f' := by
  cases f with
  | mk attributes ordinal modifier type name default =>
      cases f'
      simp [Field.beq, BondType.beq_iff type, and_assoc]
termination_by structural f

theorem beqFields_iff (fs fs' : List Field) : beqFields fs fs' = true ↔ fs = fs' := by
  cases fs with
  | nil => cases fs' <;> simp [beqFields]
  | cons f fs => cases fs' <;> simp [beqFields, Field.beq_iff f, beqFields_iff fs]
termination_by structural fs

theorem MethodType.beq_iff (t t' : MethodType) : t.beq t' = true ↔ t = t' := by
  cases t with
  | void => cases t' <;> simp [MethodType.beq]
  | unary t => cases t' <;> simp [MethodType.beq, BondType.beq_iff t]
  | streaming t => cases t' <;> simp [MethodType.beq, BondType.beq_iff t]
termination_by structural t

theorem Method.beq_iff (m m' : Method) : m.beq m' = true ↔ m = m' := by
  cases m with
  | function attributes result name input =>
      cases m' <;>
        simp [Method.beq, MethodType.beq_iff result, MethodType.beq_iff input, and_assoc]
  | event attributes name input =>
      cases m' <;> simp [Method.beq, MethodType.beq_iff input, and_assoc]
termination_by structural m

theorem beqMethods_iff (ms ms' : List Method) : beqMethods ms ms' = true ↔ ms = ms' := by
  cases ms with
  | nil => cases ms' <;> simp [beqMethods]
  | cons m ms => cases ms' <;> simp [beqMethods, Method.beq_iff m, beqMethods_iff ms]
termination_by structural ms

theorem Declaration.beq_iff (d d' : Declaration) : d.beq d' = true ↔ d = d' := by
  cases d with
  | struct namespaces attributes name params base fields =>
      cases d' <;>
        simp [Declaration.beq, beqOptionType_iff base, beqFields_iff fields, and_assoc]
  | enum namespaces attributes name constants =>
      cases d' <;> simp [Declaration.beq, and_assoc]
  | forward namespaces name params => cases d' <;> simp [Declaration.beq, and_assoc]
  | typeAlias namespaces name params type =>
      cases d' <;> simp [Declaration.beq, BondType.beq_iff type, and_assoc]
  | service namespaces attributes name params base methods =>
      cases d' <;>
        simp [Declaration.beq, beqOptionType_iff base, beqMethods_iff methods, and_assoc]
termination_by structural d

end

instance : DecidableEq BondType :=
  fun t t' => decidable_of_iff _ (BondType.beq_iff t t')

instance : DecidableEq Declaration :=
  fun d d' => decidable_of_iff _ (Declaration.beq_iff d d')

instance : DecidableEq Field :=
  fun f f' => decidable_of_iff _ (Field.beq_iff f f')

instance : DecidableEq Method :=
  fun m m' => decidable_of_iff _ (Method.beq_iff m m')

end Bond.Compiler

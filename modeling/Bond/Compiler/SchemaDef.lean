import Bond.Compiler.Normal

set_option autoImplicit false

/-! # Runtime schemas

`Language.Bond.Syntax.SchemaDef` (compiler/src/Language/Bond/Syntax/SchemaDef.hs): the `SchemaDef` of
a type, and the parts of `Language.Bond.Codegen.TypeMapping` that make the names in it. Calls of
`error` are errors of `Except`. -/

namespace Bond.Compiler

/-! ## The data types -/

/-- `Variant` -/
structure Variant where
  uintValue : Option Int := none
  intValue : Option Int := none
  doubleValue : Option Double := none
  stringValue : Option String := none
  wstringValue : Option String := none
  nothing : Option Bool := none
deriving DecidableEq

structure Metadata where
  name : String
  qualifiedName : Option String
  attributes : Option (List String)
  modifier : Option Int
  defaultValue : Option Variant
deriving DecidableEq

/-- `TypeDef`; the source keeps the element and the key as lists of one. -/
inductive TypeDef where
  | mk (id : Option Int) (structDef : Option Nat) (element key : Option TypeDef)
      (bondedType : Option Bool)

structure FieldDef where
  metadata : Metadata
  id : UInt16
  type : TypeDef

structure StructDef where
  metadata : Metadata
  baseDef : Option TypeDef
  fields : List FieldDef

structure SchemaDef where
  structs : List StructDef

/-! ## Names -/

/-- `getDeclNamespace`: the neutral namespace, or else the last one -/
def getDeclNamespace (decl : Declaration) : QualifiedName :=
  match decl.declNamespaces.find? fun ns => ns.nsLanguage.isNone with
  | some ns => ns.nsName
  | none => (decl.declNamespaces.getLast?.map Namespace.nsName).getD []

def BasicType.idlName : BasicType → String
  | .int8 => "int8" | .int16 => "int16" | .int32 => "int32" | .int64 => "int64"
  | .uint8 => "uint8" | .uint16 => "uint16" | .uint32 => "uint32" | .uint64 => "uint64"
  | .float => "float" | .double => "double"
  | .bool => "bool"
  | .string => "string" | .wstring => "wstring"
  | .metaName => "bond_meta::name" | .metaFullName => "bond_meta::full_name"
  | .blob => "blob"

-- `idlType`; aliases are resolved.
mutual

def BondType.idlName (ρ : TypeParam → String) : BondType → String
  | .basic b => b.idlName
  | .intTypeArg n => toString n
  | .container .maybe t => t.idlName ρ
  | .container .list t => "list<" ++ t.idlName ρ ++ ">"
  | .container .nullable t => "nullable<" ++ t.idlName ρ ++ ">"
  | .container .vector t => "vector<" ++ t.idlName ρ ++ ">"
  | .container .set t => "set<" ++ t.idlName ρ ++ ">"
  | .container .bonded t => "bonded<" ++ t.idlName ρ ++ ">"
  | .map k t => "map<" ++ k.idlName ρ ++ ", " ++ t.idlName ρ ++ ">"
  | .typeParam p => ρ p
  | .userDefined (.typeAlias _ _ params type) args =>
      let names := idlNames ρ args
      type.idlName fun p => ((params.zip names).lookup p).getD p.paramName
  | .userDefined decl args =>
      let names := idlNames ρ args
      ".".intercalate (getDeclNamespace decl ++ [decl.declName]) ++
        if names.isEmpty then "" else "<" ++ ", ".intercalate names ++ ">"

def idlNames (ρ : TypeParam → String) : List BondType → List String
  | [] => []
  | t :: ts => t.idlName ρ :: idlNames ρ ts

end

def getTypeName (t : BondType) : String :=
  t.idlName TypeParam.paramName

/-! ## Types -/

/-- `typeId`, for scalars and strings -/
def typeId : BondType → Except String Int
  | .basic .bool => .ok 2
  | .basic .uint8 => .ok 3
  | .basic .uint16 => .ok 4
  | .basic .uint32 => .ok 5
  | .basic .uint64 => .ok 6
  | .basic .float => .ok 7
  | .basic .double => .ok 8
  | .basic .string => .ok 9
  | .basic .int8 => .ok 14
  | .basic .int16 => .ok 15
  | .basic .int32 => .ok 16
  | .basic .int64 => .ok 17
  | .basic .wstring => .ok 18
  | .basic .metaName => .ok 9
  | .basic .metaFullName => .ok 9
  | .userDefined (.enum _ _ _ _) _ => .ok 16
  | _ => .error "typeId: unexpected type"

/-- `resolve`: a parameter becomes its argument, an alias what it stands for. -/
def resolve (typeParams : List TypeParam) (typeArgs : List BondType) (t : BondType) : BondType :=
  match t.resolved with
  | .typeParam p => argument typeParams typeArgs p
  | t => t

/-- resolve type parameters into type arguments and aliases into aliased types -/
def resolveType (typeParams : List TypeParam) (typeArgs : List BondType) : BondType → BondType :=
  BondType.fmapType (resolve typeParams typeArgs)

/-- resolve value of an enum constant -/
def resolveEnum (decl : Declaration) (n : String) : Except String Int :=
  match decl with
  | .enum _ _ _ constants =>
      match (reifyEnumValues constants).lookup n with
      | some value => .ok value.toInt
      | none => .error "Maybe.fromJust: Nothing"
  | _ => .error "makeSchemaDef.resolveEnum: not a enum"

/-! ## The structs of a schema -/

/-- The type itself if it is a struct, and what is found in its base and its fields. -/
def structAndParts (fold : BondType → List BondType) : BondType → List BondType
  | .userDefined (.struct namespaces attributes name params base fields) args =>
      .userDefined (.struct namespaces attributes name params base fields) args ::
        (base.toList.flatMap fun t => fold (resolveType params args t)) ++
        fields.flatMap fun f => fold (resolveType params args f.fieldType)
  | _ => []

/-- `foldMapType` of `structAndParts`, nested at most as deep as the number says -/
def foldStructs : Nat → BondType → List BondType
  | 0, _ => []
  | n + 1, t =>
      match t with
      | .userDefined (.typeAlias _ _ params type) args =>
          foldStructs n (resolveAlias params type args)
      | .userDefined decl args =>
          structAndParts (foldStructs n) (.userDefined decl args) ++ args.flatMap (foldStructs n)
      | .container _ element => foldStructs n element
      | .map key element => foldStructs n key ++ foldStructs n element
      | _ => []

/-- Depths for the parameters of a declaration, from the depths of its arguments. -/
def argDepth (params : List TypeParam) (depths : List Nat) : TypeParam → Nat :=
  fun p => ((params.zip depths).lookup p).getD 0

-- How deep structs, aliases and containers are nested in a type, for parameters of the given depths.
mutual

def BondType.depthWith (ρ : TypeParam → Nat) : BondType → Nat
  | .basic _ => 1
  | .container _ t => t.depthWith ρ + 1
  | .map k t => max (k.depthWith ρ) (t.depthWith ρ) + 1
  | .intTypeArg _ => 1
  | .typeParam p => ρ p
  | .userDefined decl args =>
      max (decl.depthWith (depthsWith ρ args)) ((depthsWith ρ args).foldr max 0) + 1

def depthsWith (ρ : TypeParam → Nat) : List BondType → List Nat
  | [] => []
  | t :: ts => t.depthWith ρ :: depthsWith ρ ts

def Declaration.depthWith (depths : List Nat) : Declaration → Nat
  | .struct _ _ _ params base fields =>
      max (optionDepth (argDepth params depths) base) (fieldsDepth (argDepth params depths) fields)
  | .typeAlias _ _ params type => type.depthWith (argDepth params depths)
  | _ => 0

def optionDepth (ρ : TypeParam → Nat) : Option BondType → Nat
  | none => 0
  | some t => t.depthWith ρ

def Field.depthWith (ρ : TypeParam → Nat) : Field → Nat
  | .mk _ _ _ type _ _ => type.depthWith ρ

def fieldsDepth (ρ : TypeParam → Nat) : List Field → Nat
  | [] => 0
  | f :: fs => max (f.depthWith ρ) (fieldsDepth ρ fs)

end

/-- A bound on the nesting of a type. -/
def BondType.nesting (t : BondType) : Nat :=
  t.depthWith fun _ => 0

/-- list of structs in the schema -/
def schemaStructs (root : BondType) : List BondType :=
  (structAndParts (foldStructs root.nesting) root).eraseDups

def matchingStruct (f : Declaration) (fArgs : List BondType) (s : BondType) : Bool :=
  match s with
  | .userDefined (.struct namespaces attributes name params base fields) sArgs =>
      decide ((Declaration.struct namespaces attributes name params base fields).declName =
        f.declName) &&
      namespaces.any (fun ns => decide (ns ∈ f.declNamespaces)) && decide (sArgs = fArgs)
  | t => decide (.userDefined f fArgs = t)

/-- index of a struct in the schema -/
def structIdx (structs : List BondType) : BondType → Except String Nat
  | .userDefined f fArgs =>
      match structs.findIdx? (matchingStruct f fArgs) with
      | none => .error ("makeSchemaDef.structIdx: struct not found " ++
          getTypeName (.userDefined f fArgs))
      | some n => .ok n
  | typ => .error ("makeSchemaDef.structIdx: undefined struct: " ++ getTypeName typ)

/-! ## Definitions -/

def listDef (element : TypeDef) : TypeDef :=
  .mk (some 11) none (some element) none none

/-- TypeDef for specified type -/
def typeDef (structs : List BondType) (typ : BondType) : Except String TypeDef :=
  if typ.isScalar || typ.isString || typ.isMetaName then do
    let id ← typeId typ
    return .mk (some id) none none none none
  else
    match typ with
    | .basic .blob => return listDef (.mk (some 14) none none none none)
    | .container .list t | .container .vector t | .container .nullable t => do
        let element ← typeDef structs t
        return listDef element
    | .container .set t => do
        let element ← typeDef structs t
        return .mk (some 12) none (some element) none none
    | .map k t => do
        let element ← typeDef structs t
        let key ← typeDef structs k
        return .mk (some 13) none (some element) (some key) none
    | .container .bonded t => do
        let .mk id structDef element key _ ← typeDef structs t
        return .mk id structDef element key (some true)
    | .container .maybe t => typeDef structs t
    | t => do
        let index ← structIdx structs t
        return .mk none (some index) none none none

section

-- `fromInteger`, of doubles
variable (fromInteger : Int → Double)

/-- The default value of a field, of the type it is resolved to. -/
def defaultVariant (structName fieldName : String) (t : BondType) (d : Default) :
    Except String Variant :=
  let invalid := Except.error ("makeSchemaDef.defaultValue: invalid default value for field " ++
    structName ++ "." ++ fieldName)
  match d with
  | .string x =>
      match t with
      | .basic .wstring => .ok { wstringValue := some x }
      | .basic .string => .ok { stringValue := some x }
      | _ => invalid
  | .float x => if t.isFloat then .ok { doubleValue := some x } else invalid
  | .integer x =>
      if t.isSigned then .ok { intValue := some x }
      else if t.isUnsigned then .ok { uintValue := some x }
      else if t.isFloat then .ok { doubleValue := some (fromInteger x) }
      else invalid
  | .nothing =>
      match t with
      | .container .maybe _ => .ok { nothing := some true }
      | _ => invalid
  | .bool x =>
      match t with
      | .basic .bool => .ok { uintValue := some (if x then 1 else 0) }
      | _ => invalid
  | .enum x =>
      match t with
      | .userDefined e _ => do
          let value ← resolveEnum e x
          return { intValue := some value }
      | _ => invalid

def attr : List Attribute → Option (List String)
  | [] => none
  | xs => some (xs.flatMap fun a => [".".intercalate a.attrName, a.attrValue])

def Modifier.value : Modifier → Option Int
  | .optional => none
  | .required => some 1
  | .requiredOptional => some 2

def fieldDef (structs : List BondType) (structName : String)
    (resolveType : BondType → BondType) (f : Field) : Except String FieldDef := do
  let schemaFieldType := resolveType f.fieldType
  let defaultValue ← f.fieldDefault.mapM
    (defaultVariant fromInteger structName f.fieldName schemaFieldType)
  let type ← typeDef structs schemaFieldType
  return {
    metadata := ⟨f.fieldName, none, attr f.fieldAttributes, f.fieldModifier.value, defaultValue⟩
    id := f.fieldOrdinal
    type }

/-- The name of a struct in its namespace -/
def structName (typ : BondType) (decl : Declaration) : String :=
  (getTypeName typ).drop (1 + (".".intercalate (getDeclNamespace decl)).length) |>.toString

/-- StructDef for the specified struct type -/
def structDef (structs : List BondType) : BondType → Except String StructDef
  | .userDefined (.struct namespaces attributes name params base fields) args => do
      let decl : Declaration := .struct namespaces attributes name params base fields
      let typ : BondType := .userDefined decl args
      let resolveType := resolveType params args
      let baseDef ← base.mapM fun t => typeDef structs (resolveType t)
      let fields ← fields.mapM (fieldDef fromInteger structs (structName typ decl) resolveType)
      return {
        metadata := ⟨structName typ decl, some (getTypeName typ), attr attributes, none, none⟩
        baseDef, fields }
  | _ => .error "makeSchemaDef.structDef: Not a struct type"

/-- The runtime schema of a type -/
def makeSchemaDef (root : BondType) : Except String SchemaDef := do
  let structs := schemaStructs root
  let defs ← structs.mapM (structDef fromInteger structs)
  return ⟨defs⟩

end

end Bond.Compiler

import Bond.Compiler.Lexer
import Bond.Compiler.Util

set_option autoImplicit false

/-! # The parser of the Bond compiler

`Language.Bond.Parser` (compiler/src/Language/Bond/Parser.hs): the grammar, with the checks that are
made on the way. Imported files are parsed where they are imported, into the same table of symbols. -/

namespace Bond.Compiler

open Bond.Lib
open Bond.Lib.Parsec

/-! ## Texts for messages -/

def takeName (name : QualifiedName) : String :=
  name.getLastD ""

def takeNamespace (name : QualifiedName) : QualifiedName :=
  name.dropLast

def showQualifiedName (name : QualifiedName) : String :=
  ".".intercalate name

def TypeParam.showPretty (p : TypeParam) : String :=
  p.paramName ++ match p.paramConstraint with
    | some .value => ": value"
    | none => ""

def showTypeParams (params : List TypeParam) : String :=
  if params.isEmpty then "" else "<" ++ ", ".intercalate (params.map TypeParam.showPretty) ++ ">"

def Declaration.showPretty : Declaration → String
  | .struct _ _ name params _ _ => "struct " ++ name ++ showTypeParams params
  | .enum _ _ name _ => "enum " ++ name
  | .forward _ name params => "struct declaration " ++ name ++ showTypeParams params
  | .typeAlias _ name params _ => "alias " ++ name ++ showTypeParams params
  | .service _ _ name params _ _ => "service " ++ name ++ showTypeParams params

/-! ## The table of symbols -/

def duplicateDeclaration (left right : Declaration) : Bool :=
  left.declName = right.declName &&
    left.declNamespaces.any fun ns => decide (ns ∈ right.declNamespaces)

def paramsMatch (x y : Declaration) : Bool :=
  x.declParams.map TypeParam.paramConstraint = y.declParams.map TypeParam.paramConstraint

/-- Whether a declaration is accepted, and whether it is added to the symbols. -/
structure Reconciled where
  accepted : Bool
  added : Bool

/-- `reconcile`, of the declarations that are duplicates of a new one; more than one is an error. -/
def reconcile : List Declaration → Declaration → Option Reconciled
  | [x], y =>
      match x, y with
      | .forward _ _ _, .struct _ _ _ _ _ _ => some ⟨paramsMatch x y, true⟩
      | .forward _ _ _, .forward _ _ _ => some ⟨paramsMatch x y, false⟩
      | .struct _ _ _ _ _ _, .forward _ _ _ => some ⟨paramsMatch x y, true⟩
      -- identical duplicate definitions are how parsing the same import multiple times is handled
      | x, y => some ⟨decide (x = y), false⟩
  | [], _ => some ⟨true, true⟩
  | _ :: _ :: _, _ => none

/-- What `updateSymbols` does to the symbols: `add y` puts a declaration in front of those that are no
    duplicates of it, anything else leaves all as they are. -/
inductive Updated where
  | symbols (symbols : List Declaration)
  | rejected (message : String)
  | impossible

def updated (decl : Declaration) (symbols : List Declaration) : Updated :=
  let previous := symbols.filter (duplicateDeclaration decl)
  let others := symbols.filter fun x => !duplicateDeclaration decl x
  match reconcile previous decl with
  | none => .impossible
  | some ⟨false, _⟩ =>
      .rejected ("The " ++ decl.showPretty ++ " has been previously defined as " ++
        (previous.head?.elim "" Declaration.showPretty))
  | some ⟨true, true⟩ => .symbols (decl :: others)
  | some ⟨true, false⟩ => .symbols symbols

def updateSymbols (decl : Declaration) : Parser Unit := do
  let s ← getState
  match updated decl s.symbols with
  | .symbols symbols => modifyState fun s => { s with symbols }
  | .rejected message => fail message
  | .impossible => abort "updateSymbols/reconcile: impossible happened."

def nsMatching (ns1 ns2 : Namespace) : Bool :=
  ns1.nsName = ns2.nsName &&
    (ns1.nsLanguage = ns2.nsLanguage || ns1.nsLanguage.isNone || ns2.nsLanguage.isNone)

def declMatching (namespaces : List Namespace) : QualifiedName → Declaration → Bool
  | [unqualifiedName], decl =>
      unqualifiedName = decl.declName &&
        namespaces.any fun ns => decl.declNamespaces.any (nsMatching ns)
  | qualifiedName, decl =>
      takeName qualifiedName = decl.declName &&
        decl.declNamespaces.any fun ns => takeNamespace qualifiedName = ns.nsName

def findSymbol (name : QualifiedName) : Parser Declaration := do
  let env ← ask
  let s ← getState
  match s.symbols.find? (declMatching env.currentNamespaces name) with
  | some decl => return decl
  | none => fail ("Unknown symbol: " ++ showQualifiedName name)

def findStruct (name : QualifiedName) : Parser Declaration := do
  let symb ← findSymbol name
  match symb with
  | .struct _ _ _ _ _ _ => return symb
  | _ => fail ("The " ++ symb.showPretty ++ " is invalid in this context. Expected a struct.")

/-! ## Names, parameters, attributes -/

/-- identifier optionally qualified with namespace -/
def qualifiedName : Parser QualifiedName :=
  sepBy1 namespaceIdentifier (char '.')

def language : Parser (Option Language) :=
  optional (
    (do keyword "cpp"; return .cpp) <|>
    (do keyword "csharp"; return .cs) <|>
    (do keyword "cs"; return .cs) <|>
    (do keyword "java"; return .java))

/-- `namespace` -/
def namespaceDeclaration : Parser Namespace := do
  keyword "namespace"
  let nsLanguage ← language
  let nsName ← qualifiedName
  let _ ← optional semi
  return ⟨nsLanguage, nsName⟩

/-- type parameters -/
def parameters : Parser (List TypeParam) :=
  option [] (angles (commaSep1 (do
    let name ← identifier
    let constraint ← optional (do
      let _ ← colon
      keyword "value"
      return Constraint.value)
    return ⟨name, constraint⟩)))

def attributes : Parser (List Attribute) :=
  many (brackets (do
    let name ← qualifiedName
    let value ← parens stringLiteral
    return ⟨name, value⟩))

/-! ## Types -/

/-- basic types parser -/
def basicType : Parser BondType :=
  (do keyword "int8"; return .basic .int8) <|>
  (do keyword "int16"; return .basic .int16) <|>
  (do keyword "int32"; return .basic .int32) <|>
  (do keyword "int64"; return .basic .int64) <|>
  (do keyword "uint8"; return .basic .uint8) <|>
  (do keyword "uint16"; return .basic .uint16) <|>
  (do keyword "uint32"; return .basic .uint32) <|>
  (do keyword "uint64"; return .basic .uint64) <|>
  (do keyword "float"; return .basic .float) <|>
  (do keyword "double"; return .basic .double) <|>
  (do keyword "wstring"; return .basic .wstring) <|>
  (do keyword "string"; return .basic .string) <|>
  (do keyword "bool"; return .basic .bool)

/-- `paramsCount`; an enum has no parameters. -/
def paramsCount (decl : Declaration) : Nat :=
  decl.declParams.length

section

-- The parsers for the parts of types call the parser for types, which calls them.
variable (type_ : Parser BondType)

/-- a type parameter, or a declared type with its arguments -/
def userSymbolWith : Parser (TypeParam ⊕ Declaration × List BondType) := do
  let name ← qualifiedName
  let env ← ask
  match env.currentParams.find? fun p => name = [p.paramName] with
  | some param => return .inl param
  | none =>
      let decl ← findSymbol name
      let args ← option [] (angles (commaSep1 (type_ <|> (do
        let n ← integer
        return .intTypeArg (Int64.ofInt n)))))
      if args.length ≠ paramsCount decl then
        fail (decl.declName ++
          if paramsCount decl ≠ 0 then
            " requires " ++ toString (paramsCount decl) ++ " type argument(s)"
          else
            " is not a generic type")
      else
        return .inr (decl, args)

/-- parser for user defined type (struct, enum, alias or type parameter) -/
def userTypeWith : Parser BondType := do
  let symbol_ ← userSymbolWith type_
  match symbol_ with
  | .inl param => return .typeParam param
  | .inr (decl, args) =>
      match decl with
      | .service _ _ name _ _ _ =>
          fail ("Unexpected service " ++ name ++ ". Expected struct, enum or alias.")
      | decl => return .userDefined decl args

/-- A user type that is a type parameter or passes a test. -/
def checkUserTypeWith (check : BondType → Bool) : Parser BondType := do
  let t ← userTypeWith type_
  let valid := match t with
    | .typeParam _ => true
    | t => check t
  if valid then return t else fail "unexpected type"

def userStructRefWith : Parser BondType :=
  attempt (checkUserTypeWith type_ BondType.isStruct)

def keyTypeWith : Parser BondType :=
  attempt (basicType <|> checkUserTypeWith type_ fun t => t.isScalar || t.isString)

/-- containers parser -/
def complexTypeWith : Parser BondType :=
  (do keyword "list"; angles (.container .list <$> type_)) <|>
  (do keyword "blob"; return .basic .blob) <|>
  (do keyword "vector"; angles (.container .vector <$> type_)) <|>
  (do keyword "nullable"; angles (.container .nullable <$> type_)) <|>
  (do keyword "set"; angles (.container .set <$> keyTypeWith type_)) <|>
  (do
    keyword "map"
    angles (do
      let k ← keyTypeWith type_
      let _ ← comma
      let t ← type_
      return .map k t)) <|>
  (do keyword "bonded"; angles (.container .bonded <$> userStructRefWith type_))

end

/-- `type_`, nested at most as deep as the number says -/
def typeBounded : Nat → Parser BondType
  | 0 => exhausted
  | k + 1 =>
      attempt basicType <|> attempt (complexTypeWith (typeBounded k)) <|>
        attempt (userTypeWith (typeBounded k))

/-- type parser -/
def type_ : Parser BondType :=
  bounded typeBounded

def userType : Parser BondType := userTypeWith type_
def userStructRef : Parser BondType := userStructRefWith type_

/-- field type parser -/
def ftype : Parser BondType :=
  (do keyword "bond_meta::name"; return .basic .metaName) <|>
  (do keyword "bond_meta::full_name"; return .basic .metaFullName) <|>
  type_

/-- parser for service type -/
def serviceType : Parser BondType := do
  let symbol_ ← userSymbolWith type_
  match symbol_ with
  | .inr (decl, args) =>
      match decl with
      | .service _ _ _ _ _ _ => return .userDefined decl args
      | _ => fail ("Unexpected type " ++ decl.declName ++ ". Expected a service.")
  | .inl param => fail ("Unexpected type parameter " ++ param.paramName ++ ". Expected a service.")

/-! ## Fields -/

def isInBounds (i lower upper : Int) : Bool :=
  decide (lower ≤ i) && decide (i ≤ upper)

/-- `validDefaultType'` -/
def validDefault : BondType → Default → Bool
  | .basic .int8, .integer i => isInBounds i (-2 ^ 7) (2 ^ 7 - 1)
  | .basic .int16, .integer i => isInBounds i (-2 ^ 15) (2 ^ 15 - 1)
  | .basic .int32, .integer i => isInBounds i (-2 ^ 31) (2 ^ 31 - 1)
  | .basic .int64, .integer i => isInBounds i (-2 ^ 63) (2 ^ 63 - 1)
  | .basic .uint8, .integer i => isInBounds i 0 (2 ^ 8 - 1)
  | .basic .uint16, .integer i => isInBounds i 0 (2 ^ 16 - 1)
  | .basic .uint32, .integer i => isInBounds i 0 (2 ^ 32 - 1)
  | .basic .uint64, .integer i => isInBounds i 0 (2 ^ 64 - 1)
  | .basic .float, .float _ => true
  | .basic .float, .integer _ => true
  | .basic .double, .float _ => true
  | .basic .double, .integer _ => true
  | .basic .bool, .bool _ => true
  | .basic .string, .string _ => true
  | .basic .wstring, .string _ => true
  | .userDefined (.enum _ _ _ _) _, .enum _ => true
  | .typeParam _, _ => true
  | _, _ => false

/-- default type validator (type checking, out-of-range, enforce default type) -/
def validDefaultType (t : BondType) : Option Default → Bool
  | none => true
  | some d => validDefault t.resolved d

def ordinal : Parser UInt16 := do
  let i ← integer
  if isInBounds i 0 65535 then do
    let _ ← colon
    return UInt16.ofNat i.toNat
  else
    fail "Field ordinal must be within the range 0-65535"

def modifier : Parser Modifier :=
  option .optional (
    (do keyword "optional"; return .optional) <|>
    (do keyword "required_optional"; return .requiredOptional) <|>
    (do keyword "required"; return .required))

/-- `default_` -/
def defaultValue : Parser Default := do
  let _ ← equal
  (do keyword "true"; return .bool true) <|>
  (do keyword "false"; return .bool false) <|>
  (do keyword "nothing"; return .nothing) <|>
  (.string <$> attempt (do
    let _ ← optional (char 'L')
    stringLiteral)) <|>
  (.enum <$> identifier) <|>
  (.float <$> attempt float) <|>
  (.integer <$> integer)

def makeField (a : List Attribute) (o : UInt16) (m : Modifier) (t : BondType) (n : String) :
    Option Default → Except String Field
  | some .nothing =>
      if t.isStruct then .error "Struct field can't have default value of 'nothing'"
      else .ok (.mk a o m (.container .maybe t) n (some .nothing))
  | d =>
      if d.isNone && t.isEnum then .error "Enum field must have a default value"
      else if validDefaultType t d then .ok (.mk a o m t n d)
      else .error "Invalid default value for field"

/-- field definition parser -/
def field : Parser Field := do
  let a ← attributes
  let o ← ordinal
  let m ← modifier
  let t ← ftype
  let n ← identifier
  let d ← optional defaultValue
  match makeField a o m t n d with
  | .ok f => return f
  | .error e => fail e

/-! ## Declarations -/

/-- What is left of the fields without the first one for each value. -/
def findDuplicatesBy {α β : Type} [DecidableEq β] (accessor : α → β) (seen : List β) :
    List α → List α
  | [] => []
  | x :: xs =>
      if accessor x ∈ seen then x :: findDuplicatesBy accessor seen xs
      else findDuplicatesBy accessor (accessor x :: seen) xs

def unique (fields : List Field) : Parser (List Field) :=
  match findDuplicatesBy Field.fieldOrdinal [] fields ++
      findDuplicatesBy Field.fieldName [] fields with
  | [] => return fields
  | f :: _ => fail ("Duplicate definition of the field with ordinal " ++
      toString f.fieldOrdinal ++ " and name " ++ f.fieldName.quote)

/-- `sortBy (comparing fieldOrdinal)` -/
def sortFields (fields : List Field) : List Field :=
  fields.mergeSort fun f g => decide (f.fieldOrdinal ≤ g.fieldOrdinal)

def currentNamespaces : Parser (List Namespace) := do
  let env ← ask
  return env.currentNamespaces

def withParams {α : Type} (params : List TypeParam) (p : Parser α) : Parser α :=
  withEnv (fun env => { env with currentParams := params }) p

/-- type alias -/
def alias_ : Parser Declaration := do
  attempt (keyword "using")
  let name ← identifier
  let params ← parameters
  let namespaces ← currentNamespaces
  withParams params (do
    let _ ← equal
    let type ← type_
    let _ ← semi
    return .typeAlias namespaces name params type)

/-- forward declaration -/
def forward : Parser Declaration := do
  let namespaces ← currentNamespaces
  keyword "struct"
  let name ← identifier
  let params ← parameters
  let _ ← semi
  return .forward namespaces name params

/-- struct view parser -/
def view (attr : List Attribute) (name : String) : Parser Declaration := do
  attempt (keyword "view_of")
  let viewed ← qualifiedName
  let decl ← findStruct viewed
  let fields ← braces (semiOrCommaSepEnd1 identifier)
  let namespaces ← currentNamespaces
  let _ ← optional semi
  return .struct namespaces attr name decl.declParams decl.structBase
    (decl.structFields.filter fun f => decide (f.fieldName ∈ fields))

/-- the base clause of a struct -/
def structBaseClause : Parser (Option BondType) :=
  optional (do
    let _ ← colon
    userType)

/-- the fields of a struct, sorted and without duplicates -/
def structBody : Parser (List Field) := do
  let fields ← braces (many (do
    let f ← field
    let _ ← semi
    return f))
  let fields ← unique fields
  return sortFields fields

/-- struct definition parser -/
def struct_ (attr : List Attribute) (name : String) : Parser Declaration := do
  let params ← parameters
  let namespaces ← currentNamespaces
  updateSymbols (.forward namespaces name params)
  withParams params (do
    let base ← structBaseClause
    let fields ← structBody
    let _ ← optional semi
    return .struct namespaces attr name params base fields)

def structDeclaration (attr : List Attribute) : Parser Declaration := do
  keyword "struct"
  let name ← identifier
  view attr name <|> struct_ attr name

def constant : Parser Constant := do
  let name ← identifier
  let value ← optional (do
    let _ ← equal
    let i ← integer
    return Int64.ofInt i)
  return ⟨name, value⟩

/-- enum definition parser -/
def enum (attr : List Attribute) : Parser Declaration := do
  let namespaces ← currentNamespaces
  attempt (keyword "enum")
  let name ← identifier
  let consts ← braces (semiOrCommaSepEnd1 constant)
  let _ ← optional semi
  return .enum namespaces attr name consts

/-! ## Services -/

def methodTypeVoid : Parser MethodType :=
  attempt (do keyword "void"; return .void)

def methodResultTypeStreaming : Parser MethodType :=
  attempt (do
    keyword "stream"
    let resultType ← userStructRef
    let _ ← lookAhead identifier
    return .streaming resultType)

def methodInputTypeStreaming : Parser MethodType :=
  attempt (do
    keyword "stream"
    .streaming <$> userStructRef)

def methodTypeUnary : Parser MethodType :=
  .unary <$> userStructRef

def input : Parser MethodType := do
  let type ← parens (optional (methodTypeVoid <|> methodInputTypeStreaming <|> methodTypeUnary))
  return type.getD .void

def function (attr : List Attribute) : Parser Method := do
  let result ← methodTypeVoid <|> methodResultTypeStreaming <|> methodTypeUnary
  let name ← identifier
  let methodInput ← input
  return .function attr result name methodInput

def event (attr : List Attribute) : Parser Method := do
  keyword "nothing"
  let methodName ← identifier
  let methodInput ← input
  match methodInput with
  | .streaming _ =>
      fail ("Incompatible nothing return and streaming input in method " ++ methodName.quote)
  | methodInput => return .event attr methodName methodInput

def method : Parser Method := do
  let a ← attributes
  (do
    lookAhead (keyword "nothing")
    event a) <|> function a

def checkUniqueMethodNames (methods : List Method) : Parser (List Method) :=
  match findDuplicatesBy Method.methodName [] methods with
  | [] => return methods
  | .function _ _ name _ :: _ =>
      fail ("Duplicate definition of the function with name " ++ name.quote)
  | .event _ name _ :: _ =>
      fail ("Duplicate definition of the event with name " ++ name.quote)

/-- service definition parser -/
def service (attr : List Attribute) : Parser Declaration := do
  attempt (keyword "service")
  let name ← identifier
  let params ← parameters
  let namespaces ← currentNamespaces
  withParams params (do
    let base ← optional (do
      let _ ← colon
      serviceType)
    let methods ← braces (semiEnd method)
    let methods ← checkUniqueMethodNames methods
    let _ ← optional semi
    return .service namespaces attr name params base methods)

/-! ## Files -/

/-- parser for struct, enum or type alias declaration/definition -/
def declaration : Parser Declaration := do
  let decl ← attempt forward <|> alias_ <|> (do
    let a ← attributes
    service a <|> enum a <|> structDeclaration a)
  updateSymbols decl
  return decl

section

variable (bond : Parser BondSchema)

def processImport (i : Import) : Parser Unit := do
  let env ← ask
  match env.resolveImport env.currentFile i.path with
  | .error message => abort message
  | .ok (path, content) =>
      let s ← getState
      if path ∈ s.imports then
        return ()
      else do
        modifyState fun s => { s with imports := path :: s.imports }
        setInput content
        let _ ← withEnv (fun env => { env with currentFile := path }) bond

def import_ : Parser Import := do
  keyword "import"
  let path ← unescapedStringLiteral
  let _ ← optional semi
  let src ← getInput
  processImport bond ⟨path⟩
  setInput src
  return ⟨path⟩

end

/-- parser for .bond files, with imports nested at most as deep as the number says -/
def bondBounded : Nat → Parser BondSchema
  | 0 => exhausted
  | k + 1 => do
      whiteSpace
      let imports ← many (import_ (bondBounded k))
      let namespaces ← many1 namespaceDeclaration
      withEnv (fun env => { env with currentNamespaces := namespaces }) (do
        let declarations ← many declaration
        eof
        return ⟨imports, namespaces, declarations⟩)

def bond : Parser BondSchema :=
  bounded bondBounded

/-- `parseBond`, of the content of a file and its path, with what the parsers take from other packages;
    the number is the bound on loops and nesting. -/
def parseBond (charClasses : CharClasses) (scientific : Scientific)
    (resolveImport : String → String → Except String (String × List Char)) (content : List Char)
    (file : String) (n : Nat) : Reply Symbols BondSchema :=
  bond n ⟨[], [], file, resolveImport, charClasses, scientific⟩ ⟨[], []⟩ content

end Bond.Compiler

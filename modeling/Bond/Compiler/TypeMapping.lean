import Bond.Compiler.CustomMapping
import Bond.Compiler.Util
import Bond.Lib.Expansion

set_option autoImplicit false

/-! # Names of types

The names that types have in generated code (compiler/src/Language/Bond/Codegen/TypeMapping.hs). A
builder is a list of parts: texts, and types the names of which go there. -/

namespace Bond.Compiler

open Bond.Lib

/-! ## Kinds of types -/

namespace BondType

def isList (t : BondType) : Bool :=
  match t.resolved with
  | .container .list _ | .container .vector _ => true
  | _ => false

def isAssociative (t : BondType) : Bool :=
  match t.resolved with
  | .container .set _ | .map _ _ => true
  | _ => false

def isContainer (t : BondType) : Bool :=
  t.isList || t.isAssociative

end BondType

/-! ## Mappings -/

/-- The functions that are the `mapType` of a type mapping. -/
inductive MapType where
  | idlType
  | cppType
  | cppTypeCustomAlloc (useScoped : Bool) (alloc : String)
  | cppTypeExpandAliases (mapType : MapType)
  | csType
  | csInterfaceType
  | csTypeAnnotation (mapType : MapType)
  | javaType
  | javaBoxedType

inductive TypeMapping where
  | idl
  | cpp
  | cppCustomAlloc (useScoped : Bool) (alloc : String)
  | cppExpandAliases (mapping : TypeMapping)
  | cs
  | csCollectionInterfaces
  | csCollectionInstances
  | csAnnotated
  | java
  | javaBoxed

namespace TypeMapping

def language : TypeMapping → Option Language
  | idl => none
  | cpp | cppCustomAlloc _ _ => some .cpp
  | cppExpandAliases m => m.language
  | cs | csCollectionInterfaces | csCollectionInstances | csAnnotated => some .cs
  | java | javaBoxed => some .java

def global : TypeMapping → String
  | idl => ""
  | cpp | cppCustomAlloc _ _ => "::"
  | cppExpandAliases m => m.global
  | cs | csCollectionInterfaces | csCollectionInstances | csAnnotated => "global::"
  | java | javaBoxed => ""

def separator : TypeMapping → String
  | idl => "."
  | cpp | cppCustomAlloc _ _ => "::"
  | cppExpandAliases m => m.separator
  | cs | csCollectionInterfaces | csCollectionInstances | csAnnotated => "."
  | java | javaBoxed => "."

def mapType : TypeMapping → MapType
  | idl => .idlType
  | cpp => .cppType
  | cppCustomAlloc useScoped alloc => .cppTypeCustomAlloc useScoped alloc
  | cppExpandAliases m => .cppTypeExpandAliases m.mapType
  | cs => .csType
  | csCollectionInterfaces => .csInterfaceType
  | csCollectionInstances => .csType
  | csAnnotated => MapType.csTypeAnnotation .csType
  | java => .javaType
  | javaBoxed => .javaBoxedType

def instanceMapping : TypeMapping → TypeMapping
  | cppExpandAliases m => cppExpandAliases m.instanceMapping
  | csCollectionInterfaces => csCollectionInstances
  -- a copy of `csCollectionInterfacesTypeMapping` with another `mapType`
  | csCollectionInstances => csCollectionInstances
  | javaBoxed => java
  | m => m

def elementMapping : TypeMapping → TypeMapping
  | cppExpandAliases m => cppExpandAliases m.elementMapping
  | csCollectionInstances => csCollectionInterfaces
  | java => javaBoxed
  | m => m

def annotatedMapping : TypeMapping → TypeMapping
  | cppExpandAliases m => cppExpandAliases m.annotatedMapping
  | cs | csCollectionInterfaces | csCollectionInstances => csAnnotated
  | javaBoxed => java
  | m => m

end TypeMapping

structure MappingContext where
  typeMapping : TypeMapping
  aliasMapping : List AliasMapping
  namespaceMapping : List NamespaceMapping
  namespaces : List Namespace

/-! ## Builders -/

/-- What ends the generator where a text is needed. -/
inductive Failure where
  /-- `Prelude.!!`, of an index that is negative or too large -/
  | index
  /-- "No namespace declared for …", or `last` of no namespaces -/
  | noNamespace
deriving DecidableEq, Repr

/-- A piece of a text that is built lazily. -/
inductive Chunk where
  | text (text : String)
  | failed (failure : Failure)
deriving DecidableEq, Repr

/-- An alias declaration -/
structure Alias where
  declNamespaces : List Namespace
  declName : String
  declParams : List TypeParam
  aliasType : BondType

def Alias.decl (a : Alias) : Declaration :=
  .typeAlias a.declNamespaces a.declName a.declParams a.aliasType

/-- The names that are made of others: that of a type, by a function and with a type mapping for the
    types in it, and what an alias declaration stands for. -/
inductive TypeName where
  | type (mapType : MapType) (typeMapping : TypeMapping) (type : BondType)
  | aliasDecl (typeMapping : TypeMapping) (decl : Alias)

abbrev Builder := List (Part TypeName Chunk)

def text (s : String) : Builder :=
  [.leaf (.text s)]

def failed (failure : Failure) : Builder :=
  [.leaf (.failed failure)]

/-- `angles`. A builder without parts is empty; no name is. -/
def angled (b : Builder) : Builder :=
  if b.isEmpty then [] else text "<" ++ b ++ text ">"

def sepBeginBy (separator : String) : List String → String
  | [] => ""
  | x :: xs =>
      if x = "" then sepBeginBy separator xs else separator ++ x ++ sepBeginBy separator xs

def sepBy (separator : String) : List String → String
  | [] => ""
  | x :: xs =>
      if xs.isEmpty then x
      else if x = "" then sepBy separator xs
      else x ++ sepBeginBy separator xs

section

variable (c : MappingContext)

/-- A call of one of the functions, with the mapping as it is. -/
def call (mapType : MapType) (t : BondType) : Builder :=
  [.node (.type mapType c.typeMapping t)]

def localWith (f : TypeMapping → TypeMapping) : MappingContext :=
  { c with typeMapping := f c.typeMapping }

def typeName (t : BondType) : Builder :=
  call c c.typeMapping.mapType t

def elementTypeName (t : BondType) : Builder :=
  typeName (localWith c .elementMapping) t

def instanceTypeName (t : BondType) : Builder :=
  typeName (localWith c .instanceMapping) t

def annotatedTypeName (t : BondType) : Builder :=
  typeName (localWith c .annotatedMapping) t

def commaSepTypeNames : List BondType → Builder
  | [] => []
  | [x] => typeName c x
  | x :: xs => typeName c x ++ text ", " ++ commaSepTypeNames xs

/-! ## Namespaces and declarations -/

/-- `resolveNamespace`; `none` where there is no namespace to choose. -/
def resolveNamespace (ns : List Namespace) : Option QualifiedName := do
  let mappingNamespace := ns.find? fun n => decide (c.typeMapping.language = n.nsLanguage)
  let neutralNamespace := ns.find? fun n => n.nsLanguage.isNone
  let fallbackNamespace := if c.typeMapping.language.isNone then ns.getLast? else none
  let found ← mappingNamespace <|> neutralNamespace <|> fallbackNamespace
  match c.namespaceMapping.find? fun m => decide (found.nsName = m.fromNamespace) with
  | some m => return m.toNamespace
  | none => return found.nsName

def declQualifiedName (decl : Declaration) : Option QualifiedName := do
  let ns ← resolveNamespace c decl.declNamespaces
  return ns ++ [decl.declName]

/-- `getQualifiedName` of `declQualifiedName` -/
def declQualifiedTypeName (decl : Declaration) : Builder :=
  text c.typeMapping.global ++
    match declQualifiedName c decl with
    | some name => text (sepBy c.typeMapping.separator name)
    | none => failed .noNamespace

def declTypeName (decl : Declaration) : Builder :=
  if c.namespaces = decl.declNamespaces then text decl.declName else declQualifiedTypeName c decl

/-! ## Aliases -/

/-- `findAliasMapping`. The name of the alias is made when there is a mapping to compare it to; `none`
    where it cannot be. -/
def findAliasMapping (a : Alias) : Option (Option AliasMapping) :=
  if c.aliasMapping.isEmpty then
    some none
  else do
    let aliasDeclName ← declQualifiedName c a.decl
    let isSameNs := decide (c.namespaces = a.declNamespaces)
    return c.aliasMapping.find? fun m =>
      decide (aliasDeclName = m.aliasName) || isSameNs && decide ([a.declName] = m.aliasName)

/-- `args !! i` -/
def index {α : Type} (args : List α) (i : Int64) : Option α :=
  if i < 0 then none else args[i.toInt.toNat]?

/-- The fragments of a mapping, with a builder for what a placeholder stands for. -/
def fragments {α : Type} (template : List Fragment) (args : List α) (name : α → Builder) :
    Builder :=
  template.flatMap fun
    | .fragment s => text s
    | .placeholder i =>
        match index args i with
        | some arg => name arg
        | none => failed .index

/-- `aliasTypeName`, `aliasDeclTypeName` and `aliasElementTypeName` but for what is done with the
    placeholders and with an alias that has no mapping -/
def aliasName {α : Type} (a : Alias) (args : List α) (name : α → Builder) (otherwise : Builder) :
    Builder :=
  match findAliasMapping c a with
  | none => failed .noNamespace
  | some (some mapping) => fragments mapping.aliasTemplate args name
  | some none => otherwise

def aliasTypeName (a : Alias) (args : List BondType) : Builder :=
  aliasName c a args (typeName c) (typeName c (resolveAlias a.declParams a.aliasType args))

def aliasDeclTypeName (a : Alias) : Builder :=
  aliasName c a a.declParams (fun p => text p.paramName) (typeName c a.aliasType)

def aliasElementTypeName (a : Alias) (args : List BondType) : Builder :=
  aliasName c a args (elementTypeName c)
    (elementTypeName c (resolveAlias a.declParams a.aliasType args))

/-! ## The types of the languages -/

def idlBasic : BasicType → String
  | .int8 => "int8" | .int16 => "int16" | .int32 => "int32" | .int64 => "int64"
  | .uint8 => "uint8" | .uint16 => "uint16" | .uint32 => "uint32" | .uint64 => "uint64"
  | .float => "float" | .double => "double"
  | .bool => "bool"
  | .string => "string" | .wstring => "wstring"
  | .metaName => "bond_meta::name" | .metaFullName => "bond_meta::full_name"
  | .blob => "blob"

/-- IDL type mapping -/
def idlType : BondType → Builder
  | .basic b => text (idlBasic b)
  | .intTypeArg x => text (toString x)
  | .container .maybe t => elementTypeName c t
  | .container .list t => text "list<" ++ elementTypeName c t ++ text ">"
  | .container .nullable t => text "nullable<" ++ elementTypeName c t ++ text ">"
  | .container .vector t => text "vector<" ++ elementTypeName c t ++ text ">"
  | .container .set t => text "set<" ++ elementTypeName c t ++ text ">"
  | .map k t =>
      text "map<" ++ elementTypeName c k ++ text ", " ++ elementTypeName c t ++ text ">"
  | .container .bonded t => text "bonded<" ++ elementTypeName c t ++ text ">"
  | .typeParam p => text p.paramName
  | .userDefined (.typeAlias namespaces name params type) args =>
      aliasTypeName c ⟨namespaces, name, params, type⟩ args
  | .userDefined decl args => declQualifiedTypeName c decl ++ angled (commaSepTypeNames c args)

def cppBasic : BasicType → String
  | .int8 => "int8_t" | .int16 => "int16_t" | .int32 => "int32_t" | .int64 => "int64_t"
  | .uint8 => "uint8_t" | .uint16 => "uint16_t" | .uint32 => "uint32_t" | .uint64 => "uint64_t"
  | .float => "float" | .double => "double"
  | .bool => "bool"
  | .string => "std::string" | .wstring => "std::wstring"
  | .metaName => "std::string" | .metaFullName => "std::string"
  | .blob => "::bond::blob"

/-- C++ type mapping -/
def cppType : BondType → Builder
  | .basic b => text (cppBasic b)
  | .intTypeArg x => text (toString x)
  | .container .maybe t => text "::bond::maybe<" ++ elementTypeName c t ++ text ">"
  | .container .list t => text "std::list<" ++ elementTypeName c t ++ text ">"
  | .container .nullable t => text "::bond::nullable<" ++ elementTypeName c t ++ text ">"
  | .container .vector t => text "std::vector<" ++ elementTypeName c t ++ text ">"
  | .container .set t => text "std::set<" ++ elementTypeName c t ++ text ">"
  | .map k t =>
      text "std::map<" ++ elementTypeName c k ++ text ", " ++ elementTypeName c t ++ text ">"
  | .container .bonded t => text "::bond::bonded<" ++ elementTypeName c t ++ text ">"
  | .typeParam p => text p.paramName
  | .userDefined decl args => declQualifiedTypeName c decl ++ angled (commaSepTypeNames c args)

def comparer (t : BondType) : Builder :=
  text ", std::less<" ++ elementTypeName c t ++ text ">, "

/-- `rebindAllocator` without a scope -/
def rebindAlloc (alloc : String) (element : Builder) : Builder :=
  text "typename std::allocator_traits<" ++ text alloc ++ text ">::template rebind_alloc<" ++
    element ++ text ">"

def rebindAllocator (useScoped : Bool) (alloc : String) (element : Builder) : Builder :=
  if useScoped then
    text "std::scoped_allocator_adaptor<" ++ rebindAlloc alloc element ++ text " >"
  else
    rebindAlloc alloc element

def allocator (useScoped : Bool) (alloc : String) (element : BondType) : Builder :=
  rebindAllocator useScoped alloc (elementTypeName c element)

def pairAllocator (useScoped : Bool) (alloc : String) (key value : BondType) : Builder :=
  rebindAllocator useScoped alloc
    (text "std::pair<const " ++ elementTypeName c key ++ text ", " ++ elementTypeName c value ++
      text "> ")

/-- C++ type mapping with custom allocator -/
def cppTypeCustomAlloc (useScoped : Bool) (alloc : String) : BondType → Builder
  | .basic .string | .basic .metaName | .basic .metaFullName =>
      text "std::basic_string<char, std::char_traits<char>, " ++
        rebindAllocator useScoped alloc (text "char") ++ text " >"
  | .basic .wstring =>
      text "std::basic_string<wchar_t, std::char_traits<wchar_t>, " ++
        rebindAllocator useScoped alloc (text "wchar_t") ++ text " >"
  | .container .list t =>
      text "std::list<" ++ elementTypeName c t ++ text ", " ++ allocator c useScoped alloc t ++
        text ">"
  | .container .vector t =>
      text "std::vector<" ++ elementTypeName c t ++ text ", " ++ allocator c useScoped alloc t ++
        text ">"
  | .container .set t =>
      text "std::set<" ++ elementTypeName c t ++ comparer c t ++ allocator c useScoped alloc t ++
        text ">"
  | .map k t =>
      text "std::map<" ++ elementTypeName c k ++ text ", " ++ elementTypeName c t ++ comparer c k ++
        pairAllocator c useScoped alloc k t ++ text ">"
  | t => cppType c t

def cppTypeExpandAliases (m : BondType → Builder) : BondType → Builder
  | .userDefined (.typeAlias namespaces name params type) args =>
      aliasTypeName c ⟨namespaces, name, params, type⟩ args
  | t => m t

def csBasic : BasicType → String
  | .int8 => "sbyte" | .int16 => "short" | .int32 => "int" | .int64 => "long"
  | .uint8 => "byte" | .uint16 => "ushort" | .uint32 => "uint" | .uint64 => "ulong"
  | .float => "float" | .double => "double"
  | .bool => "bool"
  | .string => "string" | .wstring => "string"
  | .metaName => "string" | .metaFullName => "string"
  | .blob => "System.ArraySegment<byte>"

/-- The name of a nullable type; that of a `BT_Maybe` is the same. -/
def csNullable (element : BondType) : Builder :=
  typeName c element ++ if element.isScalar then text "?" else []

/-- C# type mapping -/
def csType : BondType → Builder
  | .basic b => text (csBasic b)
  | .intTypeArg x => text (toString x)
  | .container .maybe t => csNullable c t
  | .container .nullable t => csNullable c t
  | .container .list t => text "LinkedList<" ++ elementTypeName c t ++ text ">"
  | .container .vector t => text "List<" ++ elementTypeName c t ++ text ">"
  | .container .set t => text "HashSet<" ++ elementTypeName c t ++ text ">"
  | .map k t =>
      text "Dictionary<" ++ elementTypeName c k ++ text ", " ++ elementTypeName c t ++ text ">"
  | .container .bonded t => text "global::Bond.IBonded<" ++ typeName c t ++ text ">"
  | .typeParam p => text p.paramName
  | .userDefined (.typeAlias namespaces name params type) args =>
      aliasTypeName c ⟨namespaces, name, params, type⟩ args
  | .userDefined decl args =>
      declTypeName c decl ++ angled (commaSepTypeNames (localWith c fun _ => .cs) args)

/-- C# type mapping with collection interfaces -/
def csInterfaceType : BondType → Builder
  | .container .list t => text "ICollection<" ++ elementTypeName c t ++ text ">"
  | .container .vector t => text "IList<" ++ elementTypeName c t ++ text ">"
  | .container .set t => text "ISet<" ++ elementTypeName c t ++ text ">"
  | .map k t =>
      text "IDictionary<" ++ elementTypeName c k ++ text ", " ++ elementTypeName c t ++ text ">"
  | t => csType c t

/-- C# type annotation mapping -/
def csTypeAnnotation (m : BondType → Builder) : BondType → Builder
  | .basic .wstring => text "global::Bond.Tag.wstring"
  | .container .nullable t => text "global::Bond.Tag.nullable<" ++ typeName c t ++ text ">"
  | .container .maybe (.userDefined (.typeAlias namespaces name params type) args) =>
      typeName c (.userDefined (.typeAlias namespaces name params type) args)
  | .typeParam ⟨_, none⟩ => text "global::Bond.Tag.classT"
  | .typeParam ⟨_, some .value⟩ => text "global::Bond.Tag.structT"
  | .userDefined (.typeAlias _ _ _ (.basic .blob)) _ => text "global::Bond.Tag.blob"
  | .userDefined (.typeAlias namespaces name params type) args =>
      if (BondType.userDefined (.typeAlias namespaces name params type) args).isContainer then
        m (.userDefined (.typeAlias namespaces name params type) args)
      else
        typeName c (resolveAlias params type args)
  | .userDefined decl args => declTypeName c decl ++ angled (commaSepTypeNames c args)
  | t => m t

def javaBasic : BasicType → String
  | .int8 => "byte" | .int16 => "short" | .int32 => "int" | .int64 => "long"
  | .uint8 => "byte" | .uint16 => "short" | .uint32 => "int" | .uint64 => "long"
  | .float => "float" | .double => "double"
  | .bool => "boolean"
  | .string => "java.lang.String" | .wstring => "java.lang.String"
  | .metaName => "java.lang.String" | .metaFullName => "java.lang.String"
  | .blob => "org.bondlib.Blob"

def javaSomething : BasicType → Option String
  | .int8 | .uint8 => some "org.bondlib.SomethingByte"
  | .int16 | .uint16 => some "org.bondlib.SomethingShort"
  | .int32 | .uint32 => some "org.bondlib.SomethingInteger"
  | .int64 | .uint64 => some "org.bondlib.SomethingLong"
  | .float => some "org.bondlib.SomethingFloat"
  | .double => some "org.bondlib.SomethingDouble"
  | .bool => some "org.bondlib.SomethingBoolean"
  | _ => none

/-- `SomethingObject` of a type -/
def somethingObject (t : BondType) : Builder :=
  text "org.bondlib.SomethingObject<" ++ call c .javaBoxedType t ++ text ">"

/-- Java type mapping -/
def javaType : BondType → Builder
  | .basic b => text (javaBasic b)
  | .intTypeArg x => text (toString x)
  | .container .maybe (.basic b) =>
      match javaSomething b with
      | some name => text name
      | none => somethingObject c (.basic b)
  | .userDefined (.typeAlias _ _ params type) args => call c .javaType (resolveAlias params type args)
  | .container .maybe (.userDefined (.typeAlias _ _ params type) args) =>
      call c .javaType (.container .maybe (resolveAlias params type args))
  | .container .maybe t => somethingObject c t
  | .container .nullable t => call c .javaBoxedType t
  | .container .list t => text "java.util.List<" ++ elementTypeName c t ++ text ">"
  | .container .vector t => text "java.util.List<" ++ elementTypeName c t ++ text ">"
  | .container .set t => text "java.util.Set<" ++ elementTypeName c t ++ text ">"
  | .map k t =>
      text "java.util.Map<" ++ elementTypeName c k ++ text ", " ++ elementTypeName c t ++ text ">"
  | .typeParam p => text p.paramName
  | .container .bonded t => text "org.bondlib.Bonded<" ++ call c .javaBoxedType t ++ text ">"
  | .userDefined decl args =>
      declQualifiedTypeName c decl ++
        angled (commaSepTypeNames (localWith c fun _ => .javaBoxed) args)

def javaBoxed : BasicType → Option String
  | .int8 | .uint8 => some "java.lang.Byte"
  | .int16 | .uint16 => some "java.lang.Short"
  | .int32 | .uint32 => some "java.lang.Integer"
  | .int64 | .uint64 => some "java.lang.Long"
  | .float => some "java.lang.Float"
  | .double => some "java.lang.Double"
  | .bool => some "java.lang.Boolean"
  | _ => none

/-- Java type mapping to a reference type with primitive types boxed -/
def javaBoxedType : BondType → Builder
  | .basic b =>
      match javaBoxed b with
      | some name => text name
      | none => javaType c (.basic b)
  | .userDefined (.typeAlias namespaces name params type) args =>
      aliasElementTypeName c ⟨namespaces, name, params, type⟩ args
  | t => javaType c t

/-- The function itself -/
def applyMapType : MapType → BondType → Builder
  | .idlType => idlType c
  | .cppType => cppType c
  | .cppTypeCustomAlloc useScoped alloc => cppTypeCustomAlloc c useScoped alloc
  | .cppTypeExpandAliases m => cppTypeExpandAliases c (applyMapType m)
  | .csType => csType c
  | .csInterfaceType => csInterfaceType c
  | MapType.csTypeAnnotation m => csTypeAnnotation c (applyMapType m)
  | .javaType => javaType c
  | .javaBoxedType => javaBoxedType c

/-- The builder for a name. -/
def nameParts : TypeName → Builder
  | .type mapType typeMapping t => applyMapType (localWith c fun _ => typeMapping) mapType t
  | .aliasDecl typeMapping a => aliasDeclTypeName (localWith c fun _ => typeMapping) a

end

end Bond.Compiler

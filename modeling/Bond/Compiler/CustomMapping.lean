import Bond.Compiler.Lexer

set_option autoImplicit false

/-! # Custom mappings

The mappings of aliases and namespaces that are given on the command line, and their parsers
(compiler/src/Language/Bond/Codegen/CustomMapping.hs). These parsers have a lexer of their own: a name
may start with a digit, and nothing but white space is skipped. -/

namespace Bond.Compiler

open Bond.Lib
open Bond.Lib.Parsec

/-- Specification of a fragment of type alias mappings -/
inductive Fragment where
  /-- hardcoded string fragment -/
  | fragment (text : String)
  /-- placeholder for the n-th type argument of the type alias -/
  | placeholder (n : Int64)
deriving DecidableEq, Repr

structure AliasMapping where
  aliasName : QualifiedName
  aliasTemplate : List Fragment
deriving DecidableEq, Repr

structure NamespaceMapping where
  fromNamespace : QualifiedName
  toNamespace : QualifiedName
deriving DecidableEq, Repr

namespace CustomMapping

/-- `Parser`, with the classes of characters for environment -/
abbrev Parser := Parsec CharClasses Unit

def alphaNumChar : Parser Char := do
  let classes ← ask
  satisfy classes.isAlphaNum

def identifier : Parser String := do
  let cs ← many1 (alphaNumChar <|> char '_')
  return String.ofList cs

def qualifiedName : Parser QualifiedName :=
  sepBy1 identifier (char '.')

def sc : Parser Unit := do
  let classes ← ask
  skipMany (satisfy classes.isSpace)

/-- consume whitespace after every lexeme -/
def lexeme {α : Type} (p : Parser α) : Parser α := do
  let a ← p
  sc
  return a

def symbol (text : String) : Parser String :=
  lexeme (string text)

def equal : Parser String :=
  symbol "="

/-- `L.decimal`, `L.octal` and `L.hexadecimal` -/
def digitsOf (base : Nat) : Parser Nat := do
  let digits ← many1 (satisfy (isDigitOf base))
  return valueOfDigits base digits

def decimal : Parser Nat :=
  lexeme (digitsOf 10)

def prefixed (base : Nat) (lower upper : Char) : Parser Nat :=
  lexeme (attempt (do
    let _ ← char '0'
    let _ ← satisfy fun c => c == lower || c == upper
    digitsOf base))

def hexadecimal : Parser Nat := prefixed 16 'x' 'X'

def octal : Parser Nat := prefixed 8 'o' 'O'

def natural : Parser Nat :=
  hexadecimal <|> octal <|> decimal

/-- `L.signed sc natural` -/
def integer : Parser Int := do
  let negative ← option false (do
    let negative ← (do let _ ← char '+'; return false) <|> (do let _ ← char '-'; return true)
    sc
    return negative)
  let n ← natural
  return if negative then -n else n

/-- A number in braces; `fromIntegral` wraps it around. -/
def placeholder : Parser Fragment := do
  let i ← between (char '\x7b') (char '\x7d') integer
  return .placeholder (Int64.ofInt i)

def fragment : Parser Fragment := do
  let cs ← many1 (satisfy (· != '\x7b'))
  return .fragment (String.ofList cs)

def aliasMapping : Parser AliasMapping := do
  let name ← qualifiedName
  let _ ← equal
  let template ← many1 (placeholder <|> fragment)
  eof
  return ⟨name, template⟩

def namespaceMapping : Parser NamespaceMapping := do
  let source ← qualifiedName
  let _ ← equal
  let target ← qualifiedName
  return ⟨source, target⟩

end CustomMapping

/-- What a parser makes of a whole string; the number is the bound on loops. -/
def parseMapping {α : Type} (p : CustomMapping.Parser α) (classes : CharClasses) (n : Nat)
    (s : String) : Except String α :=
  match p n classes () s.toList with
  | .ok _ a _ _ => .ok a
  | .error _ message | .abort message => .error message

def parseAliasMapping (classes : CharClasses) (n : Nat) (s : String) : Except String AliasMapping :=
  parseMapping CustomMapping.aliasMapping classes n s

def parseNamespaceMapping (classes : CharClasses) (n : Nat) (s : String) :
    Except String NamespaceMapping :=
  parseMapping CustomMapping.namespaceMapping classes n s

end Bond.Compiler

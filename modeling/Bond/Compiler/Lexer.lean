import Bond.Compiler.Json
import Bond.Lib.Parsec

set_option autoImplicit false

/-! # The lexer of the Bond compiler

`Language.Bond.Lexer` (compiler/src/Language/Bond/Lexer.hs), and what it takes from
`Text.Megaparsec.Char.Lexer`. The parsers read the characters of a file directly. -/

namespace Bond.Compiler

open Bond.Lib
open Bond.Lib.Parsec

/-! ## Environment and state -/

/-- What `Data.Char` says of characters. -/
structure CharClasses where
  isAlpha : Char → Bool
  isAlphaNum : Char → Bool
  isSpace : Char → Bool

/-- `Environment`, with the parts of other packages that the parsers need: the classes of characters,
    and the value of a decimal number. `resolveImport` yields the path and the content of an imported
    file. -/
structure Environment where
  currentNamespaces : List Namespace
  currentParams : List TypeParam
  currentFile : String
  resolveImport : String → String → Except String (String × List Char)
  charClasses : CharClasses
  scientific : Scientific

structure Symbols where
  symbols : List Declaration
  imports : List String

abbrev Parser := Parsec Environment Symbols

/-! ## Characters -/

def letterChar : Parser Char := do
  let env ← ask
  satisfy env.charClasses.isAlpha

def alphaNumChar : Parser Char := do
  let env ← ask
  satisfy env.charClasses.isAlphaNum

def spaceChar : Parser Char := do
  let env ← ask
  satisfy env.charClasses.isSpace

def anyChar : Parser Char :=
  satisfy fun _ => true

/-- `skipLineComment "//"` -/
def lineCmnt : Parser Unit := do
  let _ ← string "//"
  skipMany (satisfy (· != '\n'))

/-- `skipBlockComment "/*" "*/"` -/
def blockCmnt : Parser Unit := do
  let _ ← string "/*"
  let _ ← manyTill anyChar (string "*/")

/-- space consumer parser -/
def sc : Parser Unit :=
  skipMany ((do let _ ← many1 spaceChar) <|> lineCmnt <|> blockCmnt)

def whiteSpace : Parser Unit := sc

def lexeme {α : Type} (p : Parser α) : Parser α := do
  let a ← p
  sc
  return a

def symbol (text : String) : Parser String :=
  lexeme (string text)

/-! ## Words and punctuation -/

/-- list of reserved words -/
def rws : List String :=
  ["blob", "bond_meta", "bonded", "bool", "class", "double", "enum", "false", "float", "import",
    "int16", "int32", "int64", "int8", "list", "map", "namespace", "nullable", "optional",
    "required", "required_optional", "Schema", "sealed", "service", "set", "string", "struct",
    "true", "uint16", "uint32", "uint64", "uint8", "using", "var", "vector", "view_of", "void",
    "wstring"]

/-- `identifier'` -/
def identifierExcept (restricted : List String) : Parser String :=
  lexeme (attempt (do
    let c ← letterChar <|> char '_'
    let cs ← many (alphaNumChar <|> char '_')
    let x := String.ofList (c :: cs)
    if x ∈ restricted then
      fail ("keyword " ++ x.quote ++ " cannot be an identifier")
    else
      return x))

def identifier : Parser String :=
  identifierExcept rws

def namespaceIdentifier : Parser String :=
  identifierExcept (rws.erase "Schema")

def keyword (word : String) : Parser Unit :=
  lexeme (do
    let _ ← string word
    notFollowedBy (alphaNumChar <|> char '_'))

section

variable {α : Type}

def angles (p : Parser α) : Parser α := between (symbol "<") (symbol ">") p
def braces (p : Parser α) : Parser α := between (symbol "\x7b") (symbol "\x7d") p
def brackets (p : Parser α) : Parser α := between (symbol "[") (symbol "]") p
def parens (p : Parser α) : Parser α := between (symbol "(") (symbol ")") p

def colon : Parser String := symbol ":"
def comma : Parser String := symbol ","
def equal : Parser String := symbol "="
def semi : Parser String := symbol ";"
def semiOrComma : Parser String := semi <|> comma

def commaSep1 (p : Parser α) : Parser (List α) := sepBy1 p comma
def semiEnd (p : Parser α) : Parser (List α) := endBy p semi
def semiOrCommaSepEnd1 (p : Parser α) : Parser (List α) := sepEndBy1 p semiOrComma

end

/-! ## Numbers -/

/-- The value of a digit, in bases up to 16. -/
def digitToInt (c : Char) : Nat :=
  if c.isDigit then c.toNat - '0'.toNat
  else if 'a' ≤ c ∧ c ≤ 'f' then c.toNat - 'a'.toNat + 10
  else c.toNat - 'A'.toNat + 10

def isDigitOf (base : Nat) (c : Char) : Bool :=
  if base = 16 then
    c.isDigit || (decide ('a' ≤ c) && decide (c ≤ 'f')) || (decide ('A' ≤ c) && decide (c ≤ 'F'))
  else
    c.isDigit && decide (digitToInt c < base)

def valueOfDigits (base : Nat) (digits : List Char) : Nat :=
  digits.foldl (fun n c => n * base + digitToInt c) 0

/-- `L.decimal`, `L.octal` and `L.hexadecimal` -/
def digitsOf (base : Nat) : Parser Nat := do
  let digits ← many1 (satisfy (isDigitOf base))
  return valueOfDigits base digits

def decimal : Parser Nat :=
  lexeme (digitsOf 10)

def prefixed (base : Nat) (lower upper : Char) : Parser Nat :=
  lexeme (attempt (do
    let _ ← char '0'
    let _ ← satisfy fun c => c == lower || c == upper
    digitsOf base))

def hexadecimal : Parser Nat := prefixed 16 'x' 'X'

def octal : Parser Nat := prefixed 8 'o' 'O'

def natural : Parser Nat :=
  hexadecimal <|> octal <|> decimal

/-- `L.signed`: the sign, if it is a minus -/
def sign (space : Parser Unit) : Parser Bool :=
  option false (do
    let negative ← (do let _ ← char '+'; return false) <|> (do let _ ← char '-'; return true)
    space
    return negative)

def integer : Parser Int := do
  let negative ← sign sc
  let n ← natural
  return if negative then -n else n

/-- `exponent_` -/
def exponentPart : Parser Int := do
  let _ ← satisfy fun c => c == 'e' || c == 'E'
  let negative ← sign (pure ())
  let n ← digitsOf 10
  return if negative then -n else n

/-- `L.float`, as the number that is written: a fraction, an exponent or both -/
def scientificNumber : Parser ℚ := do
  let whole ← digitsOf 10
  (do
    let _ ← char '.'
    let digits ← many1 (satisfy (isDigitOf 10))
    let e ← option 0 (attempt exponentPart)
    return (valueOfDigits 10 digits + whole * 10 ^ digits.length : ℚ) * 10 ^ (e - digits.length))
  <|> (do
    let e ← exponentPart
    return (whole : ℚ) * 10 ^ e)

def Double.neg : Double → Double
  | .finite ⟨v, h⟩ =>
      .finite ⟨-v, by
        obtain ⟨m, e, hm, hlow, hhigh, rfl⟩ := h
        exact ⟨-m, e, by rwa [abs_neg], hlow, hhigh, by rw [Int.cast_neg, neg_mul]⟩⟩
  | .infinity negative => .infinity (!negative)
  | .nan => .nan

def float : Parser Double := do
  let negative ← sign sc
  let env ← ask
  let v ← lexeme scientificNumber
  let value := env.scientific.toRealFloat v
  return if negative then value.neg else value

/-! ## Strings -/

/-- The escapes that are one letter. -/
def escChar : Char → Option Char
  | 'a' => some '\x07' | 'b' => some '\x08' | 'f' => some '\x0C'
  | 'n' => some '\n' | 'r' => some '\r' | 't' => some '\t'
  | 'v' => some '\x0B' | '\\' => some '\\' | '"' => some '"'
  | '\'' => some '\''
  | _ => none

/-- The escapes that are names of control characters; a longer name goes before its prefix. -/
def asciiEsc : List (String × Nat) :=
  [("SOH", 1), ("SO", 14), ("NUL", 0), ("STX", 2), ("ETX", 3), ("EOT", 4), ("ENQ", 5), ("ACK", 6),
    ("BEL", 7), ("BS", 8), ("HT", 9), ("LF", 10), ("VT", 11), ("FF", 12), ("CR", 13), ("SI", 15),
    ("DLE", 16), ("DC1", 17), ("DC2", 18), ("DC3", 19), ("DC4", 20), ("NAK", 21), ("SYN", 22),
    ("ETB", 23), ("CAN", 24), ("EM", 25), ("SUB", 26), ("ESC", 27), ("FS", 28), ("GS", 29),
    ("RS", 30), ("US", 31), ("SP", 32), ("DEL", 127)]

/-- A character by its number. -/
def charOfNat (n : Nat) : Option Char :=
  if h : n.isValidChar then some ⟨n.toUInt32, by
    have hlt : n < UInt32.size := by
      rcases h with h | h <;> simp [UInt32.size] <;> omega
    show (n.toUInt32.toNat).isValidChar
    rw [show n.toUInt32.toNat = n from Nat.mod_eq_of_lt hlt]
    exact h⟩
  else none

/-- A number behind a backslash, and its digits. -/
def numEsc (base : Nat) (input : List Char) : Option (Char × List Char) := do
  let digits := input.takeWhile (isDigitOf base)
  if digits.isEmpty then none
  else return (← charOfNat (valueOfDigits base digits), input.dropWhile (isDigitOf base))

/-- What follows a backslash. -/
def lexEsc : List Char → Option (Char × List Char)
  | [] => none
  | c :: input =>
      match escChar c with
      | some c => some (c, input)
      | none =>
          if c.isDigit then numEsc 10 (c :: input)
          else if c = 'x' ∨ c = 'X' then numEsc 16 input
          else if c = 'o' ∨ c = 'O' then numEsc 8 input
          else if c = '^' then
            match input with
            | d :: input => if '@' ≤ d ∧ d ≤ '_' then
                (charOfNat (d.toNat - '@'.toNat)).map fun c => (c, input) else none
            | [] => none
          else
            match asciiEsc.find? fun e => e.1.toList.isPrefixOf (c :: input) with
            | some (name, n) =>
                (charOfNat n).map fun d => (d, (c :: input).drop name.length)
            | none => none

/-- Empty escapes -/
def consumeEmpties : List Char → List Char
  | '\\' :: '&' :: input => consumeEmpties input
  | input => input

/-- `readLitChar` of `Data.Char`; a number that is no Unicode scalar value is not taken. -/
def readLitChar : List Char → Option (Char × List Char)
  | [] => none
  | '\\' :: input => (lexEsc input).map fun (c, rest) => (c, consumeEmpties rest)
  | c :: input => some (c, consumeEmpties input)

/-- `L.charLiteral`, which looks at eight characters at most -/
def charLiteral : Parser Char :=
  fun n env s input =>
    match input with
    | [] => .error false "unexpected end of input"
    | _ :: _ =>
        match readLitChar (input.take 8) with
        | some (c, rest) =>
            .ok true c s (input.drop ((input.take 8).length - rest.length))
        | none => fail "unexpected character" n env s input

/-- A string literal, and no white space behind it -/
def stringLiteral : Parser String := do
  let _ ← char '"'
  let cs ← manyTill charLiteral (char '"')
  return String.ofList cs

def unescapedStringLiteral : Parser String := do
  let cs ← between (symbol "\"") (symbol "\"") (many (satisfy (· != '"')))
  return String.ofList cs

end Bond.Compiler

import Bond.Cs.PullParser

set_option autoImplicit false

/-! # The parser of Simple XML in C#

`SimpleXmlParser` (cs/src/core/expressions/xml/SimpleXmlParser.cs): the state machine of a struct and
the chain over the names of its elements. -/

namespace Bond.Cs.Pull.Xml

/-! ## The reader -/

inductive XmlNodeType where
  | none | element | attribute | text | cdata | entityReference | entity | processingInstruction
  | comment | document | documentType | documentFragment | notation_ | whitespace
  | significantWhitespace | endElement | endEntity | xmlDeclaration
deriving DecidableEq, Repr

/-- The name of an element: `LocalName` and `NamespaceURI`. -/
structure XmlName where
  localName : String
  namespaceUri : String
deriving DecidableEq, Repr

/-- `IXmlReader` -/
structure XmlReader (ε σ : Type) extends Reader XmlNodeType ε σ where
  name : σ → XmlName
  isEmptyElement : σ → Bool
  skip : σ → Except ε σ
  size_skip : ∀ s s', eof s = false → skip s = .ok s' → size s' < size s

inductive State where
  | atStructElement | insideStructElement | atFieldEndElement | finished
deriving DecidableEq, Repr

variable {ε σ : Type}

/-! ## The fields of a struct -/

/-- `StringComparison.OrdinalIgnoreCase`. What the upper case of a character is, is up to .NET. -/
def equalsIgnoreCase (toUpper : Char → Char) (a b : String) : Bool :=
  a.toList.map toUpper == b.toList.map toUpper

/-- `GetXmlNamespace`. `encode` is `EncodeXmlName`. -/
def getXmlNamespace (encode : String → String) (metadata : Metadata) : String :=
  match metadata.attributes.lookup "xmlns" with
  | some xmlns => xmlns
  | none => "urn:" ++ encode metadata.qualifiedName

/-- `NodeNameEquals` -/
def nodeNameEquals (toUpper : Char → Char) (name : XmlName) (localName namespaceUri : String) :
    Bool :=
  if namespaceUri = "" then
    equalsIgnoreCase toUpper name.localName localName
  else
    equalsIgnoreCase toUpper name.localName localName &&
      (equalsIgnoreCase toUpper name.namespaceUri "" ||
        equalsIgnoreCase toUpper name.namespaceUri namespaceUri)

/-- `NodeNameEquals`, of the element of a field -/
def Branch.isNamed (toUpper : Char → Char) (encode : String → String)
    {reader : Reader XmlNodeType ε σ} (name : XmlName) (branch : Branch reader) : Bool :=
  nodeNameEquals toUpper name branch.fieldDef.metadata.name
    (getXmlNamespace encode branch.structDef.metadata)

section

variable (toUpper : Char → Char) (encode : String → String) (reader : XmlReader ε σ)

/-- `ProcessStructElement` -/
def processStructElement : Body XmlNodeType ε σ State XmlName := fun c =>
  if reader.isEmptyElement c.reader then
    onReader reader.read { c with state := .finished }
  else
    onReader reader.read { c with state := .insideStructElement }

/-- `ProcessFieldElement` -/
def processFieldElement (chain : List (Branch reader.toReader)) :
    Body XmlNodeType ε σ State XmlName := fun c =>
  let name := reader.name c.reader
  let c := { c with names := c.names ++ [name] }
  match chain.find? (Branch.isNamed toUpper encode name) with
  | some branch => do
      let c ← onReader branch.value c
      let c := { c with state := .atFieldEndElement }
      match branch.mark with
      | some index => return { c with requiredFields := c.requiredFields.mark index }
      | none => return c
  | none => andThen (onReader reader.skip) .insideStructElement c

/-- `CreateStateMachine` -/
def machine (chain : List (Branch reader.toReader)) :
    StateMachine XmlNodeType ε σ State XmlName where
  initialState := .atStructElement
  finalState := .finished
  ignoredTokens := [.comment, .text, .whitespace, .xmlDeclaration]
  default := unexpected reader.toReader
  tokenTransitions :=
    [ { token := .element
        default := unexpected reader.toReader
        stateTransitions :=
          [ (.atStructElement, processStructElement reader),
            (.insideStructElement, processFieldElement toUpper encode reader chain),
            (.atFieldEndElement, andThen (onReader reader.read) .insideStructElement) ] },
      { token := .endElement
        default := unexpected reader.toReader
        stateTransitions :=
          [ (.atFieldEndElement, andThen (onReader reader.read) .insideStructElement),
            (.insideStructElement, andThen (onReader reader.read) .finished) ] } ]

end

end Bond.Cs.Pull.Xml

import Bond.Cpp.Schema
import Bond.Cpp.TaggedProtocol

set_option autoImplicit false

/-! # The dynamic parser

`DynamicParser` (cpp/inc/bond/core/parser.h) reads a struct of a tagged payload and calls a
transform for what it finds, with the schema that it is given at compile time or at run time.
`ParserInheritance` (detail/inheritance.h) walks the hierarchy of the schema. -/

namespace Bond.Cpp

open Decoder InputBuffer

/-! ## Transforms -/

/-- A program of a parser: it reads from the input and has a state of type `τ`. -/
abbrev ParserM (τ : Type) := StateT τ Reader

/-- A read from the input. -/
def onInput {τ α : Type} (read : Reader α) : ParserM τ α :=
  StateT.lift read

/-- A transform as `DynamicParser` sees it, for schemas over a table of `n` structs. A field comes
    with a value that the transform may read from the input; if it does not, the value skips itself
    when it is destroyed, and both are part of the call here. The results of `Field` and
    `UnknownField` are left out, as `DynamicParser` ignores them. -/
structure Transform (n : Nat) (τ : Type) where
  /-- `expected_depth` -/
  expectedDepth : UInt16
  begin_ : Metadata → ParserM τ Unit
  end_ : ParserM τ Unit
  unknownEnd : ParserM τ Unit
  /-- `Base`, with the base of the schema -/
  base : Fin n → ParserM τ Bool
  /-- `Field` with a value of the field's type in the schema -/
  nonBasicTypeField : FieldDef n → ParserM τ Unit
  /-- `Field` with a value of a basic type -/
  basicTypeField : UInt16 → Metadata → BasicType → ParserM τ Unit
  unknownField : UInt16 → BondDataType → ParserM τ Unit
  omittedField : FieldDef n → ParserM τ Unit

/-- Whether the schema is given as a C++ type or as a `RuntimeSchema`. -/
inductive SchemaTime where
  | compileTime | runtime
deriving DecidableEq, Repr

/-- The types of structs and containers. -/
def BondDataType.isNonBasic : BondDataType → Bool
  | .struct | .list | .set | .map => true
  | _ => false

def BondDataType.isStop : BondDataType → Bool
  | .stop | .stopBase => true
  | _ => false

section

variable {n : Nat} {τ : Type} (reader : ProtocolReader) (transform : Transform n τ)

/-! ## Fields -/

/-- `detail::BasicTypeField`: nothing happens for an id that is not a basic type. -/
def basicTypeField (id : UInt16) (metadata : Metadata) : BondDataType → ParserM τ Unit
  | .basic type => transform.basicTypeField id metadata type
  | _ => return ()

/-- `UnknownField` -/
def unknownField (id : UInt16) (type : BondDataType) : ParserM τ Unit :=
  if type.isValue then transform.unknownField id type else return ()

/-- `UnknownFieldOrTypeMismatch` -/
def unknownFieldOrTypeMismatch (head : FieldDef n) (id : UInt16) (type : BondDataType) :
    ParserM τ Unit :=
  if head.type.id.isBasic ∧ id = head.id ∧ ¬ type.isNonBasic then
    basicTypeField transform head.id head.metadata type
  else
    unknownField transform id type

/-- `ReadSubsequentField` -/
def readSubsequentField : ParserM τ (BondDataType × UInt16) :=
  onInput reader.readFieldBegin

/-- The loop of `ReadFields` with the compile-time schema field `Head`; it ends with the header for
    the next schema field. -/
def readHead (head : FieldDef n) : Nat → BondDataType × UInt16 → ParserM τ (BondDataType × UInt16)
  | 0, _ => onInput (eofException 1)
  | k + 1, (type, id) => do
      let read ←
        if head.id = id ∧ head.type.id = type then do
          transform.nonBasicTypeField head
          pure true
        else if head.id ≥ id ∧ ¬ type.isStop then do
          unknownFieldOrTypeMismatch transform head id type
          pure true
        else do
          transform.omittedField head
          pure false
      if read then do
        let (type, id) ← readSubsequentField reader
        if head.id < id ∨ type.isStop then
          return (type, id)
        else
          readHead head k (type, id)
      else
        return (type, id)

/-- `ReadFields` behind the last schema field: everything up to a stop marker is unknown. -/
def readTrailingFields : Nat → BondDataType × UInt16 → ParserM τ (BondDataType × UInt16)
  | 0, _ => onInput (eofException 1)
  | k + 1, (type, id) => do
      if type.isStop then
        return (type, id)
      else do
        unknownField transform id type
        let header ← readSubsequentField reader
        readTrailingFields k header

/-- `ReadFields` with a compile-time schema -/
def readFieldsCompileTime (bound : Nat) :
    List (FieldDef n) → BondDataType × UInt16 → ParserM τ (BondDataType × UInt16)
  | [], header => readTrailingFields reader transform bound header
  | head :: fields, header => do
      let header ← readHead reader transform head bound header
      readFieldsCompileTime bound fields header

/-- The inner loop of `ReadFields` with a runtime schema: fields that the payload has passed. -/
def omitFields : List (FieldDef n) → BondDataType × UInt16 → ParserM τ (List (FieldDef n))
  | [], _ => return []
  | field :: fields, (type, id) =>
      if field.id < id ∨ type.isStop then do
        transform.omittedField field
        omitFields fields (type, id)
      else
        return field :: fields

/-- The body of the loop of `ReadFields` with a runtime schema, for a header that is not a stop
    marker; returns the schema fields that are left. -/
def readRuntimeField (fields : List (FieldDef n)) (type : BondDataType) (id : UInt16) :
    ParserM τ (List (FieldDef n)) :=
  match fields with
  | field :: rest =>
      if field.id = id then
        if type.isNonBasic then
          if field.type.id = type then do
            transform.nonBasicTypeField field
            return rest
          else do
            unknownField transform id type
            return rest
        else do
          basicTypeField transform id field.metadata type
          return rest
      else do
        unknownField transform id type
        return field :: rest
  | [] => do
      unknownField transform id type
      return []

/-- `ReadFields` with a runtime schema -/
def readFieldsRuntime :
    Nat → List (FieldDef n) → BondDataType × UInt16 → ParserM τ (BondDataType × UInt16)
  | 0, _, _ => onInput (eofException 1)
  | k + 1, fields, (type, id) => do
      let fields ← omitFields transform fields (type, id)
      if type.isStop then
        return (type, id)
      else do
        let fields ← readRuntimeField transform fields type id
        let header ← readSubsequentField reader
        readFieldsRuntime k fields header

/-- `ReadUnknownFields`: on to the end of the struct. -/
def readUnknownFields : Nat → BondDataType × UInt16 → ParserM τ Unit
  | 0, _ => onInput (eofException 1)
  | k + 1, (type, id) => do
      if type = .stop then
        return ()
      else do
        if type = .stopBase then transform.unknownEnd else unknownField transform id type
        let header ← readSubsequentField reader
        readUnknownFields k header

/-- `ReadFields`: one level of a struct, and for a parser that does not parse a base whatever
    follows it. The result is `true` if the struct ended at a level that is parsed as a base. Every
    turn of a loop reads a header, so the bytes left bound the number of turns. -/
def readFields (time : SchemaTime) (base : Bool) (fields : List (FieldDef n)) : ParserM τ Bool := do
  let left ← onInput remainingLength
  let header ← onInput reader.readFieldBegin
  let header ←
    match time with
    | .compileTime => readFieldsCompileTime reader transform (left + 1) fields header
    | .runtime => readFieldsRuntime reader transform (left + 1) fields header
  if base then
    return header.1 = .stop
  else do
    readUnknownFields reader transform (left + 1) header
    return false

/-! ## Structs -/

variable (S : SchemaDef n)

/-- `ParserInheritance::Read`. Levels of the schema beyond those that the transform expects are
    passed over; the number of structs bounds the number of levels. -/
def readSchema (time : SchemaTime) (base : Bool) : Nat → Fin n → ParserM τ Bool
  | 0, _ => onInput (bondThrow .undefinedBehavior)
  | k + 1, i =>
      match S.schemaDepth i, (S.structs i).baseDef with
      | none, _ => onInput (bondThrow .undefinedBehavior)
      | some depth, baseDef =>
          if depth > transform.expectedDepth then
            match baseDef with
            | none => onInput (bondThrow .undefinedBehavior)
            | some baseDef => do
                onInput (reader.readStructBegin true)
                readSchema time base k baseDef
          else do
            transform.begin_ (S.structs i).metadata
            let done ←
              match baseDef with
              | none => pure false
              | some baseDef => transform.base baseDef
            let done ←
              if done then pure true
              else readFields reader transform time base (S.structs i).fields
            transform.end_
            return done

/-- `DynamicParser::Apply` -/
def applyParser (time : SchemaTime) (base : Bool) (i : Fin n) : ParserM τ Bool := do
  onInput (reader.readStructBegin base)
  readSchema reader transform S time base n i

end

end Bond.Cpp

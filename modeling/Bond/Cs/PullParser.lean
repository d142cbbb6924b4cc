import Bond.Lib.Bitmap
import Bond.Cpp.Schema

set_option autoImplicit false

/-! # The pull parser of C#

`PullParser` and `FlatteningParser` (cs/src/core/expressions/pull), `RequiredFields`
(cs/src/core/expressions) and the parsers that are made of them: `SimpleJsonParser`
(cs/src/json/expressions/json) and `SimpleXmlParser` (cs/src/core/expressions/xml). A struct is
parsed by a state machine that pulls tokens off a reader. Its bases are flattened: their fields are
parsed as if they were fields of the struct. What becomes of the value of a field is left open. -/

namespace Bond.Cs.Pull

open Bond.Cpp (Modifier)

/-! ## Schemas -/

structure Metadata where
  name : String
  qualifiedName : String
  attributes : List (String × String)
  modifier : Modifier
deriving DecidableEq, Repr

structure FieldDef where
  id : UInt16
  metadata : Metadata
deriving DecidableEq, Repr

structure StructDef where
  metadata : Metadata
  fields : List FieldDef
deriving DecidableEq, Repr

def FieldDef.isRequired (fieldDef : FieldDef) : Bool :=
  fieldDef.metadata.modifier == .required

/-- `GetRequiredFieldNames`, for a struct and its bases -/
def getRequiredFieldNames (schema : List StructDef) : List String :=
  schema.flatMap fun structDef =>
    (structDef.fields.filter FieldDef.isRequired).map fun f =>
      structDef.metadata.qualifiedName ++ "." ++ f.metadata.name

/-! ## Required fields -/

/-- `RequiredFields.Bitmap`. There is none if no field is required. -/
abbrev RequiredFields := List (BitVec 64)

namespace RequiredFields

/-- `Init` -/
def init (count : Nat) : RequiredFields :=
  if count = 0 then [] else Bitmap.ones (1 + ((count - 1) >>> 6)) count

/-- `Mark` -/
def mark (requiredFields : RequiredFields) (index : Nat) : RequiredFields :=
  Bitmap.reset requiredFields (index >>> 6) (1#64 <<< (index % 64))

end RequiredFields

/-! ## Readers -/

/-- What a parser throws, or what it hands on. -/
inductive ParserException (τ ε : Type) where
  | reader (e : ε)
  /-- A token that has no place where it stands. -/
  | unexpected (token : τ)
  /-- `Required field {0} missing` -/
  | requiredFieldMissing (name : String)
  | argumentOutOfRange
deriving DecidableEq, Repr

/-- A reader of tokens. `size` is how many are left: inputs are finite. -/
structure Reader (τ ε σ : Type) where
  eof : σ → Bool
  token : σ → τ
  read : σ → Except ε σ
  size : σ → Nat
  read_le : ∀ s s', read s = .ok s' → size s' ≤ size s
  read_lt : ∀ s s', eof s = false → read s = .ok s' → size s' < size s

variable {τ ε σ S ν : Type}

/-- A field of a transform. `value` is what its handler does to the reader. -/
structure Field (reader : Reader τ ε σ) where
  id : UInt16
  value : σ → Except ε σ
  size_value : ∀ s s', value s = .ok s' → reader.size s' ≤ reader.size s

variable {reader : Reader τ ε σ}

/-- A transform, as its fields and those of its bases, for a schema that has just these fields. -/
structure Transform (reader : Reader τ ε σ) (schema : List StructDef) where
  fields : List (List (Field reader))
  /-- `Debug.Assert(field.Id == fieldDef.id)` -/
  asserted : List.Forall₂ (fun fields structDef =>
    fields.map Field.id = structDef.fields.map FieldDef.id) fields schema

/-- `FlatteningParser.Apply`: the pairs of a transform and its schema. -/
def flatten : List (List (Field reader)) → List StructDef → List (List (Field reader) × StructDef)
  | fields :: [], structDef :: _ => [(fields, structDef)]
  | fields :: _, structDef :: [] => [(fields, structDef)]
  | fields :: bases, structDef :: baseDefs => (fields, structDef) :: flatten bases baseDefs
  | _, _ => []

/-! ## The fields of a struct -/

/-- A branch of the if/else chain over the names of the fields: which field is handled, and which
    bit is reset for it. -/
structure Branch (reader : Reader τ ε σ) where
  structDef : StructDef
  fieldDef : FieldDef
  mark : Option Nat
  value : σ → Except ε σ
  size_value : ∀ s s', value s = .ok s' → reader.size s' ≤ reader.size s

/-- The branches of the fields of a struct, in front of `body`. -/
def processFields (structDef : StructDef) :
    List (Field reader × FieldDef) → Nat → List (Branch reader) → Nat × List (Branch reader)
  | [], requiredIndex, body => (requiredIndex, body)
  | (field, fieldDef) :: rest, requiredIndex, body =>
      if fieldDef.isRequired then
        processFields structDef rest (requiredIndex + 1)
          (⟨structDef, fieldDef, some requiredIndex, field.value, field.size_value⟩ :: body)
      else
        processFields structDef rest requiredIndex
          (⟨structDef, fieldDef, none, field.value, field.size_value⟩ :: body)

/-- The branches of the fields of a struct and its bases. The last one is tried first. -/
def processPairs : List (List (Field reader) × StructDef) → Nat → List (Branch reader) →
    List (Branch reader)
  | [], _, body => body
  | (fields, structDef) :: rest, requiredIndex, body =>
      let (requiredIndex, body) :=
        processFields structDef (fields.zip structDef.fields) requiredIndex body
      processPairs rest requiredIndex body

/-- The if/else chain of a transform. -/
def Transform.chain {schema : List StructDef} (transform : Transform reader schema) :
    List (Branch reader) :=
  processPairs (flatten transform.fields schema) 0 []

/-! ## The state machine -/

/-- A parser in its loop. The names of the fields that it has met so far are only kept here. -/
structure Config (σ S ν : Type) where
  reader : σ
  state : S
  requiredFields : RequiredFields
  names : List ν
deriving DecidableEq

/-- What is done at a token in a state. -/
abbrev Body (τ ε σ S ν : Type) :=
  Config σ S ν → Except (ParserException τ ε) (Config σ S ν)

structure TokenTransition (τ ε σ S ν : Type) where
  token : τ
  stateTransitions : List (S × Body τ ε σ S ν)
  default : Body τ ε σ S ν

structure StateMachine (τ ε σ S ν : Type) where
  initialState : S
  finalState : S
  ignoredTokens : List τ
  tokenTransitions : List (TokenTransition τ ε σ S ν)
  default : Body τ ε σ S ν

/-- A step of the reader, as part of the parser. -/
def onReader (f : σ → Except ε σ) : Body τ ε σ S ν := fun c =>
  match f c.reader with
  | .ok s => .ok { c with reader := s }
  | .error e => .error (.reader e)

/-- `new StateTransition(state, nextState, body)` -/
def andThen (body : Body τ ε σ S ν) (nextState : S) : Body τ ε σ S ν := fun c => do
  return { ← body c with state := nextState }

def unexpected (reader : Reader τ ε σ) : Body τ ε σ S ν := fun c =>
  .error (.unexpected (reader.token c.reader))

/-- `SwitchToken` -/
def StateMachine.switchToken [BEq τ] [BEq S] (machine : StateMachine τ ε σ S ν)
    (reader : Reader τ ε σ) : Body τ ε σ S ν := fun c =>
  match machine.tokenTransitions.find? (·.token == reader.token c.reader) with
  | some transition =>
      match transition.stateTransitions.find? (·.1 == c.state) with
      | some (_, body) => body c
      | none => transition.default c
  | none =>
      if machine.ignoredTokens.contains (reader.token c.reader) then onReader reader.read c
      else machine.default c

/-- The loop of `Apply`, from a configuration to how it ends. -/
inductive StateMachine.Loop [BEq τ] [BEq S] (machine : StateMachine τ ε σ S ν)
    (reader : Reader τ ε σ) :
    Config σ S ν → Except (ParserException τ ε) (Config σ S ν) → Prop where
  | ended {c : Config σ S ν}
      (h : reader.eof c.reader = true ∨ (c.state == machine.finalState) = true) :
      Loop machine reader c (.ok c)
  | threw {c : Config σ S ν} {e : ParserException τ ε} (heof : reader.eof c.reader = false)
      (hstate : (c.state == machine.finalState) = false)
      (h : machine.switchToken reader c = .error e) : Loop machine reader c (.error e)
  | next {c c' : Config σ S ν} {r : Except (ParserException τ ε) (Config σ S ν)}
      (heof : reader.eof c.reader = false) (hstate : (c.state == machine.finalState) = false)
      (h : machine.switchToken reader c = .ok c') (hrest : Loop machine reader c' r) :
      Loop machine reader c r

/-- The loop, for at most as many steps as `fuel` says. -/
def StateMachine.run [BEq τ] [BEq S] (machine : StateMachine τ ε σ S ν) (reader : Reader τ ε σ) :
    Nat → Config σ S ν → Option (Except (ParserException τ ε) (Config σ S ν))
  | 0, _ => none
  | fuel + 1, c =>
      if reader.eof c.reader || c.state == machine.finalState then some (.ok c)
      else
        match machine.switchToken reader c with
        | .ok c' => machine.run reader fuel c'
        | .error e => some (.error e)

/-- A parser in front of a struct. -/
def StateMachine.start (machine : StateMachine τ ε σ S ν) (schema : List StructDef) (s : σ) :
    Config σ S ν where
  reader := s
  state := machine.initialState
  requiredFields := .init (getRequiredFieldNames schema).length
  names := []

end Bond.Cs.Pull

import Bond.Cs.PullParser

set_option autoImplicit false

/-! # The parser of Simple JSON in C#

`SimpleJsonParser` (cs/src/json/expressions/json/SimpleJsonParser.cs): the state machine of a struct
and the chain over the names of its properties. -/

namespace Bond.Cs.Pull.Json

/-! ## The reader -/

inductive JsonToken where
  | none | startObject | startArray | startConstructor | propertyName | comment | raw | integer
  | float | string | boolean | null | undefined | endObject | endArray | endConstructor | date
  | bytes
deriving DecidableEq, Repr

/-- `IJsonReader` -/
structure JsonReader (ε σ : Type) extends Reader JsonToken ε σ where
  /-- `Value`, where the token is the name of a property -/
  value : σ → String
  skip : σ → Except ε σ
  size_skip : ∀ s s', skip s = .ok s' → size s' ≤ size s

inductive State where
  | beforeStructObject | inStructObject | finished
deriving DecidableEq, Repr

variable {ε σ : Type}

/-- The token that ends what begins with one of the tokens in front, `depth` levels up. -/
def skipNested : Nat → List (JsonToken × String) → List (JsonToken × String)
  | _, [] => []
  | depth, (token, value) :: rest =>
      match token with
      | .startObject | .startArray => skipNested (depth + 1) rest
      | .endObject | .endArray =>
          match depth with
          | 0 => (token, value) :: rest
          | depth + 1 => skipNested depth rest
      | _ => skipNested depth rest

theorem length_skipNested (depth : Nat) (tokens : List (JsonToken × String)) :
    (skipNested depth tokens).length ≤ tokens.length := by
  induction tokens generalizing depth with
  | nil => exact Nat.le_refl 0
  | cons first rest ih =>
      obtain ⟨token, value⟩ := first
      have hrest : ∀ depth, (skipNested depth rest).length ≤ rest.length + 1 :=
        fun depth => Nat.le_succ_of_le (ih depth)
      cases token with
      | endObject | endArray =>
          cases depth with
          | zero => exact Nat.le_refl _
          | succ depth => exact hrest depth
      | startObject | startArray => exact hrest (depth + 1)
      | _ => exact hrest depth

/-- A reader of tokens that are there already. The first one is what it stands at. -/
def JsonReader.ofTokens : JsonReader Empty (List (JsonToken × String)) where
  eof tokens := tokens.isEmpty
  token tokens := (tokens.head?.map Prod.fst).getD .none
  value tokens := (tokens.head?.map Prod.snd).getD ""
  read tokens := .ok tokens.tail
  skip tokens :=
    match tokens with
    | (.startObject, _) :: rest | (.startArray, _) :: rest => .ok (skipNested 0 rest)
    | _ => .ok tokens
  size tokens := tokens.length
  read_le := by
    rintro tokens _ ⟨⟩
    rw [List.length_tail]
    omega
  read_lt := by
    rintro tokens _ heof ⟨⟩
    cases tokens with
    | nil => cases heof
    | cons _ _ => exact Nat.lt_succ_self _
  size_skip := by
    intro tokens tokens' h
    split at h
    · cases h
      exact Nat.le_succ_of_le (length_skipNested _ _)
    · cases h
      exact Nat.le_succ_of_le (length_skipNested _ _)
    · cases h
      exact Nat.le_refl _

/-! ## The fields of a struct -/

/-- `SimpleJsonWriter.NameAttribute` -/
def nameAttribute : String := "JsonName"

/-- The name of the property of a field. -/
def propertyName (fieldDef : FieldDef) : String :=
  (fieldDef.metadata.attributes.lookup nameAttribute).getD fieldDef.metadata.name

/-- `PropertyNameEquals`, of the property of a field -/
def Branch.isNamed {reader : Reader JsonToken ε σ} (name : String) (branch : Branch reader) : Bool :=
  name == propertyName branch.fieldDef

section

variable (reader : JsonReader ε σ)

/-- `SkipValue` -/
def skipValue : Body JsonToken ε σ State String := fun c => do
  let c ←
    (if reader.token c.reader = .startObject ∨ reader.token c.reader = .startArray then
      onReader reader.skip c
    else .ok c)
  onReader reader.read c

/-- `ProcessField` -/
def processField (chain : List (Branch reader.toReader)) : Body JsonToken ε σ State String :=
  fun c =>
    let name := reader.value c.reader
    let c := { c with names := c.names ++ [name] }
    match chain.find? (Branch.isNamed name) with
    | some branch => do
        let c ← onReader reader.read c
        match branch.mark with
        | some index =>
            onReader branch.value { c with requiredFields := c.requiredFields.mark index }
        | none => onReader branch.value c
    | none => do
        let c ← onReader reader.read c
        skipValue reader c

/-- `CreateStateMachine` -/
def machine (chain : List (Branch reader.toReader)) :
    StateMachine JsonToken ε σ State String where
  initialState := .beforeStructObject
  finalState := .finished
  ignoredTokens := []
  default := unexpected reader.toReader
  tokenTransitions :=
    [ { token := .none
        default := unexpected reader.toReader
        stateTransitions := [(.beforeStructObject, onReader reader.read)] },
      { token := .startObject
        default := unexpected reader.toReader
        stateTransitions :=
          [(.beforeStructObject, andThen (onReader reader.read) .inStructObject)] },
      { token := .endObject
        -- no default: elsewhere the loop stays where it is
        default := .ok
        stateTransitions := [(.inStructObject, andThen (onReader reader.read) .finished)] },
      { token := .propertyName
        default := unexpected reader.toReader
        stateTransitions := [(.inStructObject, processField reader chain)] } ]

end

end Bond.Cs.Pull.Json

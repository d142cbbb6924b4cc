import Bond.Cs.SimpleJsonParser
import Bond.Cs.SimpleXmlParser

set_option autoImplicit false

/-! # Missing required fields

When the pull parsers of C# (cs/src/core/expressions/pull/PullParser.cs) find that a required field
is missing: the bit of a field in `RequiredFields` is its place in `GetRequiredFieldNames`, however
many fields there are and in whichever struct of the hierarchy they are. -/

namespace Bond.Cs.Pull

open Json (JsonReader JsonToken)
open Xml (XmlReader XmlNodeType XmlName)

variable {τ ε σ S ν : Type} {reader : Reader τ ε σ}

/-! ## The chain of a transform -/

/-- The name of a field in `GetRequiredFieldNames`. -/
def Branch.qualifiedName (branch : Branch reader) : String :=
  branch.structDef.metadata.qualifiedName ++ "." ++ branch.fieldDef.metadata.name

def Branch.isRequired (branch : Branch reader) : Bool :=
  branch.fieldDef.isRequired

/-- Branches in the order of their fields, of which the required ones have the marks from `n` on. -/
def Marked : Nat → List (Branch reader) → Prop
  | _, [] => True
  | n, branch :: rest =>
      if branch.isRequired then branch.mark = some n ∧ Marked (n + 1) rest
      else branch.mark = none ∧ Marked n rest

/-- How many fields are required. -/
def required (branches : List (Branch reader)) : List (Branch reader) :=
  branches.filter Branch.isRequired

theorem required_cons {branch : Branch reader} (h : branch.isRequired = true)
    (rest : List (Branch reader)) : required (branch :: rest) = branch :: required rest :=
  List.filter_cons_of_pos h

theorem required_cons_of_not {branch : Branch reader} (h : ¬ branch.isRequired = true)
    (rest : List (Branch reader)) : required (branch :: rest) = required rest :=
  List.filter_cons_of_neg h

theorem Marked.append {n : Nat} {branches branches' : List (Branch reader)}
    (h : Marked n branches) (h' : Marked (n + (required branches).length) branches') :
    Marked n (branches ++ branches') := by
  induction branches generalizing n with
  | nil => exact h'
  | cons branch rest ih =>
      rw [Marked] at h
      rw [List.cons_append, Marked]
      split at h
      · next hrequired =>
          rw [required_cons hrequired, List.length_cons, Nat.add_comm _ 1, ← Nat.add_assoc] at h'
          rw [if_pos hrequired]
          exact ⟨h.1, ih h.2 h'⟩
      · next hoptional =>
          rw [required_cons_of_not hoptional] at h'
          rw [if_neg hoptional]
          exact ⟨h.1, ih h.2 h'⟩

/-- A field and the struct that it is declared in. -/
def Branch.source (branch : Branch reader) : StructDef × FieldDef :=
  (branch.structDef, branch.fieldDef)

theorem map_snd_zip {α β γ : Type} {f : α → γ} {g : β → γ} {as : List α} {bs : List β}
    (h : as.map f = bs.map g) : (as.zip bs).map Prod.snd = bs := by
  have hlength := congrArg List.length h
  rw [List.length_map, List.length_map] at hlength
  exact List.map_snd_zip (Nat.le_of_eq hlength.symm)

section

variable (isNamed : ν → Branch reader → Bool) (chain : List (Branch reader))

/-- What a field of that name does to the required fields. -/
def settle (requiredFields : RequiredFields) (name : ν) : RequiredFields :=
  match (chain.find? (isNamed name)).bind Branch.mark with
  | some index => requiredFields.mark index
  | none => requiredFields

/-- A branch for which no field has come. -/
def Missing (names : List ν) (branch : Branch reader) : Prop :=
  branch ∈ chain ∧ branch.isRequired = true ∧
    ∀ name ∈ names, chain.find? (isNamed name) ≠ some branch

end

section

variable [BEq τ] [BEq S] {machine : StateMachine τ ε σ S ν}

/-- What every step keeps, a run keeps. -/
theorem StateMachine.Loop.invariant {p : Config σ S ν → Prop}
    (hstep : ∀ c c', machine.switchToken reader c = .ok c' → p c → p c')
    {c : Config σ S ν} {r : Except (ParserException τ ε) (Config σ S ν)}
    (h : machine.Loop reader c r) (hc : p c) {c' : Config σ S ν} (hr : r = .ok c') : p c' := by
  induction h with
  | ended _ =>
      cases hr
      exact hc
  | threw _ _ _ => cases hr
  | next _ _ hfirst _ ih => exact ih (hstep _ _ hfirst hc) hr

end

/-- The required fields are settled for the names that have been met. -/
def Settled (isNamed : ν → Branch reader → Bool) (chain : List (Branch reader))
    (initial : RequiredFields) (c : Config σ S ν) : Prop :=
  c.requiredFields = c.names.foldl (settle isNamed chain) initial

/-- A step between fields. -/
theorem Settled.same {isNamed : ν → Branch reader → Bool} {chain : List (Branch reader)}
    {initial : RequiredFields} {c c' : Config σ S ν} (h : Settled isNamed chain initial c)
    (hfields : c'.requiredFields = c.requiredFields) (hnames : c'.names = c.names) :
    Settled isNamed chain initial c' := by
  unfold Settled at h ⊢
  rw [hfields, hnames, h]

/-- A step over a field. -/
theorem Settled.next {isNamed : ν → Branch reader → Bool} {chain : List (Branch reader)}
    {initial : RequiredFields} {c c' : Config σ S ν} (h : Settled isNamed chain initial c)
    {name : ν} (hfields : c'.requiredFields = settle isNamed chain c.requiredFields name)
    (hnames : c'.names = c.names ++ [name]) : Settled isNamed chain initial c' := by
  unfold Settled at h ⊢
  rw [hfields, hnames, List.foldl_append, h]
  rfl

namespace Json

variable {reader : JsonReader ε σ} {chain : List (Branch reader.toReader)}
  {c c' : Config σ State String}

end Json

/-! ## Simple XML -/

namespace Xml

variable {toUpper : Char → Char} {encode : String → String} {reader : XmlReader ε σ}
  {chain : List (Branch reader.toReader)} {c c' : Config σ State XmlName}

/-- What is left to do: behind the value of a field there is always a token to read. -/
def left (reader : XmlReader ε σ) (c : Config σ State XmlName) : Nat :=
  2 * reader.size c.reader + if c.state = .atFieldEndElement then 0 else 1

end Xml

/-! ## What is reported -/

end Bond.Cs.Pull

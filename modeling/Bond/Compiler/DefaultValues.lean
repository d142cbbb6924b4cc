import Bond.Compiler.ResolveType
import Bond.Compiler.ParserRuns

set_option autoImplicit false

/-! # Default values

The parser tests the default values of fields, the runtime schema is made of them. Which defaults that
pass the test have a place in the schema. -/

namespace Bond.Compiler

/-! ## Defaults of a type -/

/-- The least and the greatest value of an integer type. -/
def BasicType.range : BasicType → Option (Int × Int)
  | .int8 => some (-2 ^ 7, 2 ^ 7 - 1)
  | .int16 => some (-2 ^ 15, 2 ^ 15 - 1)
  | .int32 => some (-2 ^ 31, 2 ^ 31 - 1)
  | .int64 => some (-2 ^ 63, 2 ^ 63 - 1)
  | .uint8 => some (0, 2 ^ 8 - 1)
  | .uint16 => some (0, 2 ^ 16 - 1)
  | .uint32 => some (0, 2 ^ 32 - 1)
  | .uint64 => some (0, 2 ^ 64 - 1)
  | _ => none

/-- The defaults that a type has, once its aliases are resolved. -/
inductive IsDefault : BondType → Default → Prop
  | integer {b : BasicType} {lower upper i : Int} :
      b.range = some (lower, upper) → lower ≤ i → i ≤ upper → IsDefault (.basic b) (.integer i)
  | float {b : BasicType} {x : Double} :
      b = .float ∨ b = .double → IsDefault (.basic b) (.float x)
  | floatInteger {b : BasicType} {i : Int} :
      b = .float ∨ b = .double → IsDefault (.basic b) (.integer i)
  | bool {x : Bool} : IsDefault (.basic .bool) (.bool x)
  | string {b : BasicType} {x : String} :
      b = .string ∨ b = .wstring → IsDefault (.basic b) (.string x)
  | enum {namespaces : List Namespace} {attributes : List Attribute} {name : String}
      {constants : List Constant} {args : List BondType} {c : String} :
      c ∈ constants.map Constant.constantName →
      IsDefault (.userDefined (.enum namespaces attributes name constants) args) (.enum c)
  | nothing {t : BondType} : IsDefault (.container .maybe t) .nothing

def Default.isNumber : Default → Bool
  | .integer _ | .float _ => true
  | _ => false

/-- What the parser accepts for a basic type is a default of it. -/
theorem isDefault_of_validDefault {b : BasicType} {d : Default}
    (h : validDefault (.basic b) d = true) : IsDefault (.basic b) d := by
  cases d with
  | integer i =>
      cases b <;> first
        | exact .floatInteger (Or.inl rfl)
        | exact .floatInteger (Or.inr rfl)
        | (simp only [validDefault, isInBounds, Bool.and_eq_true, decide_eq_true_eq] at h
           exact .integer rfl h.1 h.2)
        | cases h
  | float x => cases b <;> first | exact .float (Or.inl rfl) | exact .float (Or.inr rfl) | cases h
  | bool x => cases b <;> first | exact .bool | cases h
  | string x => cases b <;> first | exact .string (Or.inl rfl) | exact .string (Or.inr rfl) | cases h
  | enum c => cases b <;> cases h
  | nothing => cases b <;> cases h

/-- A field that was made has no default, a default that passed the test of its type, or `nothing`. -/
theorem Field.Made.default {f : Field} (h : f.Made) {d : Default} (hd : f.fieldDefault = some d) :
    (d ≠ .nothing ∧ validDefault f.fieldType.resolved d = true) ∨
      (d = .nothing ∧ ∃ t, f.fieldType = .container .maybe t) := by
  obtain ⟨a, o, m, t, n, d', h⟩ := h
  unfold makeField at h
  split at h
  · split at h
    · cases h
    · cases h
      cases hd
      exact Or.inr ⟨rfl, t, rfl⟩
  · next hnothing =>
      split at h
      · cases h
      · split at h
        · next hvalid =>
            cases h
            cases hd
            exact Or.inl ⟨fun heq => hnothing (by rw [heq]), hvalid⟩
        · cases h

/-! ## Defaults in the schema -/

section

variable (fromInteger : Int → Double) (structName fieldName : String)

end

/-! ## Types with one norm -/

theorem norm_basic {t : BondType} {b : BasicType} (halias : t.isAlias = false)
    (h : t.norm = .basic b) : t = .basic b := by
  cases t with
  | basic b' => exact h
  | userDefined decl args =>
      rw [BondType.norm, normWith_userDefined halias] at h
      cases h
  | _ => cases h

theorem norm_container {t e : BondType} {kind : ContainerKind} (halias : t.isAlias = false)
    (h : t.norm = .container kind e) : ∃ e', t = .container kind e' := by
  cases t with
  | container kind' e' =>
      cases h
      exact ⟨e', rfl⟩
  | userDefined decl args =>
      rw [BondType.norm, normWith_userDefined halias] at h
      cases h
  | _ => cases h

theorem norm_userDefined {t : BondType} {decl : Declaration} {args : List BondType}
    (halias : t.isAlias = false) (h : t.norm = .userDefined decl args) :
    ∃ args', t = .userDefined decl args' := by
  cases t with
  | userDefined decl' args' =>
      rw [BondType.norm, normWith_userDefined halias] at h
      cases h
      exact ⟨args', rfl⟩
  | _ => cases h

section

variable {params : List TypeParam} {args : List BondType} (hlength : args.length = params.length)
  (hargs : ∀ t ∈ args, t.Accepted [])

include hlength hargs

theorem norm_resolveType {t : BondType} (h : t.Accepted params) :
    (resolveType params args t).norm =
      t.resolved.normWith (argument params (normTypes .typeParam args)) := by
  rw [BondType.norm, normWith_resolveType _ hlength hargs t h, normWith_resolved _ h]

/-- Only a parameter may become an alias. -/
theorem isAlias_resolveType {t : BondType} (h : t.Accepted params) (hparam : ∀ p, t ≠ .typeParam p) :
    (resolveType params args t).isAlias = false := by
  rw [(resolveType_eq_resolved hlength hargs h hparam).2]
  exact isAlias_resolved _

end

/-! ## Texts -/

end Bond.Compiler

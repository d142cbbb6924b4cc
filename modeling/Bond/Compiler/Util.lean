import Bond.Compiler.Types
import Mathlib.Order.Basic

set_option autoImplicit false

/-! # Aliases and kinds of types

`Language.Bond.Syntax.Util` (compiler/src/Language/Bond/Syntax/Util.hs). The functions that test a
type resolve its aliases; that they come to an end is shown by a weight of types. -/

namespace Bond.Compiler

/-! ## Mapping types -/

-- `fmapType f`
mutual

def BondType.fmapType (f : BondType → BondType) : BondType → BondType
  | .userDefined decl args => f (.userDefined decl (fmapTypes f args))
  | .container kind t => f (.container kind (t.fmapType f))
  | .map k t => f (.map (k.fmapType f) (t.fmapType f))
  | .basic t => f (.basic t)
  | .intTypeArg n => f (.intTypeArg n)
  | .typeParam p => f (.typeParam p)

def fmapTypes (f : BondType → BondType) : List BondType → List BondType
  | [] => []
  | t :: ts => t.fmapType f :: fmapTypes f ts

end

theorem fmapTypes_eq_map (f : BondType → BondType) (ts : List BondType) :
    fmapTypes f ts = ts.map (BondType.fmapType f) := by
  induction ts with
  | nil => rfl
  | cons t ts ih => rw [fmapTypes, ih, List.map_cons]

/-- The argument for a type parameter. The source has no case for a parameter without one; it stays
    as it is. -/
def resolveParam (params : List TypeParam) (args : List BondType) : BondType → BondType
  | .typeParam p => ((params.zip args).lookup p).getD (.typeParam p)
  | t => t

/-- `resolveAlias`, of an alias with the given parameters and type. -/
def resolveAlias (params : List TypeParam) (aliasType : BondType) (args : List BondType) :
    BondType :=
  aliasType.fmapType (resolveParam params args)

/-! ## Resolving aliases -/

/-- Weights for the parameters of an alias, from the weights of its arguments. -/
def argWeight (params : List TypeParam) (weights : List Nat) : TypeParam → Nat :=
  fun p => ((params.zip weights).lookup p).getD 0

-- The number of aliases that are resolved before a type is something else, for parameters of the
-- given weights.
mutual

def BondType.weightWith (ρ : TypeParam → Nat) : BondType → Nat
  | .typeParam p => ρ p
  | .userDefined (.typeAlias _ _ params type) args =>
      type.weightWith (argWeight params (weightsWith ρ args)) + 1
  | _ => 0

def weightsWith (ρ : TypeParam → Nat) : List BondType → List Nat
  | [] => []
  | t :: ts => t.weightWith ρ :: weightsWith ρ ts

end

def BondType.weight (t : BondType) : Nat :=
  t.weightWith fun _ => 0

def weights (ts : List BondType) : List Nat :=
  weightsWith (fun _ => 0) ts

theorem weights_eq_map (ts : List BondType) : weights ts = ts.map BondType.weight := by
  induction ts with
  | nil => rfl
  | cons t ts ih => exact congrArg (t.weight :: ·) ih

theorem lookup_zip_map {α β γ : Type} [BEq α] (f : β → γ) (ks : List α) (vs : List β) (k : α) :
    (ks.zip (vs.map f)).lookup k = ((ks.zip vs).lookup k).map f := by
  induction ks generalizing vs with
  | nil => rfl
  | cons k' ks ih =>
      cases vs with
      | nil => rfl
      | cons v vs =>
          simp only [List.map_cons, List.zip_cons_cons, List.lookup_cons, ih]
          cases k == k' <;> rfl

/-- A parameter has the weight of its argument. -/
theorem weight_resolveParam (params : List TypeParam) (args : List BondType) (p : TypeParam) :
    (resolveParam params args (.typeParam p)).weight = argWeight params (weights args) p := by
  rw [resolveParam, argWeight, weights_eq_map, lookup_zip_map]
  cases (params.zip args).lookup p with
  | none => simp [BondType.weight, BondType.weightWith]
  | some t => simp

-- Parameters may be resolved, or given the weights of their arguments.
mutual

theorem weight_fmapType (params : List TypeParam) (args : List BondType) (t : BondType) :
    (t.fmapType (resolveParam params args)).weight =
      t.weightWith (argWeight params (weights args)) := by
  cases t with
  | typeParam p =>
      rw [BondType.fmapType, weight_resolveParam]
      simp [BondType.weightWith]
  | userDefined decl args' =>
      have hargs := weights_fmapTypes params args args'
      cases decl with
      | typeAlias namespaces name params' type =>
          simp only [weights] at hargs
          simp only [BondType.fmapType, resolveParam, BondType.weight, BondType.weightWith, hargs,
            weights]
      | _ => simp [BondType.fmapType, resolveParam, BondType.weight, BondType.weightWith]
  | _ => simp [BondType.fmapType, resolveParam, BondType.weight, BondType.weightWith]

theorem weights_fmapTypes (params : List TypeParam) (args ts : List BondType) :
    weights (fmapTypes (resolveParam params args) ts) =
      weightsWith (argWeight params (weights args)) ts := by
  cases ts with
  | nil => rfl
  | cons t ts =>
      have ht := weight_fmapType params args t
      have hts := weights_fmapTypes params args ts
      simp only [weights, BondType.weight] at ht hts
      simp only [fmapTypes, weights, weightsWith, ht, hts]

end

/-- An alias that is resolved weighs one less. -/
theorem weight_alias (namespaces : List Namespace) (name : String) (params : List TypeParam)
    (type : BondType) (args : List BondType) :
    (BondType.userDefined (.typeAlias namespaces name params type) args).weight =
      (resolveAlias params type args).weight + 1 := by
  rw [resolveAlias, weight_fmapType]
  simp only [BondType.weight, BondType.weightWith, weights]

/-- Resolves as many aliases as it is told to. -/
def resolveAliases : Nat → BondType → BondType
  | n + 1, .userDefined (.typeAlias _ _ params type) args =>
      resolveAliases n (resolveAlias params type args)
  | _, t => t

/-- The type behind all aliases, down to its first constructor. -/
def BondType.resolved (t : BondType) : BondType :=
  resolveAliases t.weight t

theorem resolved_alias (namespaces : List Namespace) (name : String) (params : List TypeParam)
    (type : BondType) (args : List BondType) :
    (BondType.userDefined (.typeAlias namespaces name params type) args).resolved =
      (resolveAlias params type args).resolved := by
  rw [BondType.resolved, weight_alias]
  rfl

/-- A type that is no alias is resolved. -/
theorem resolved_eq_self {t : BondType}
    (h : ∀ namespaces name params type args,
      t ≠ .userDefined (.typeAlias namespaces name params type) args) : t.resolved = t := by
  unfold BondType.resolved
  cases t.weight with
  | zero => rfl
  | succ k =>
      unfold resolveAliases
      split
      · exact absurd rfl (h _ _ _ _ _)
      · rfl

/-- Aliases are resolved to something else. -/
theorem resolved_ne_alias (t : BondType) (namespaces : List Namespace) (name : String)
    (params : List TypeParam) (type : BondType) (args : List BondType) :
    t.resolved ≠ .userDefined (.typeAlias namespaces name params type) args := by
  induction hn : t.weight using Nat.strong_induction_on generalizing t with
  | _ n ih =>
      by_cases halias : ∃ namespaces' name' params' type' args',
          t = .userDefined (.typeAlias namespaces' name' params' type') args'
      · obtain ⟨namespaces', name', params', type', args', rfl⟩ := halias
        rw [weight_alias] at hn
        rw [resolved_alias]
        exact ih _ (by omega) _ rfl
      · have hno : ∀ namespaces' name' params' type' args',
            t ≠ .userDefined (.typeAlias namespaces' name' params' type') args' :=
          fun _ _ _ _ _ h => halias ⟨_, _, _, _, _, h⟩
        rw [resolved_eq_self hno]
        exact hno _ _ _ _ _

/-! ## Kinds of types

Each of these is defined in the source by cases, with the case of an alias passed on to what it
resolves to. -/

namespace BondType

def isScalar (t : BondType) : Bool :=
  match t.resolved with
  | .basic .int8 | .basic .int16 | .basic .int32 | .basic .int64 => true
  | .basic .uint8 | .basic .uint16 | .basic .uint32 | .basic .uint64 => true
  | .basic .float | .basic .double | .basic .bool => true
  | .typeParam ⟨_, some .value⟩ => true
  | .userDefined (.enum _ _ _ _) _ => true
  | _ => false

def isUnsigned (t : BondType) : Bool :=
  match t.resolved with
  | .basic .uint8 | .basic .uint16 | .basic .uint32 | .basic .uint64 => true
  | _ => false

def isSigned (t : BondType) : Bool :=
  match t.resolved with
  | .basic .int8 | .basic .int16 | .basic .int32 | .basic .int64 => true
  | _ => false

def isFloat (t : BondType) : Bool :=
  match t.resolved with
  | .basic .float | .basic .double => true
  | _ => false

def isMetaName (t : BondType) : Bool :=
  match t.resolved with
  | .basic .metaName | .basic .metaFullName => true
  | _ => false

def isString (t : BondType) : Bool :=
  match t.resolved with
  | .basic .string | .basic .wstring => true
  | _ => false

def isStruct (t : BondType) : Bool :=
  match t.resolved with
  | .userDefined (.struct _ _ _ _ _ _) _ | .userDefined (.forward _ _ _) _ => true
  | _ => false

def isEnum (t : BondType) : Bool :=
  match t.resolved with
  | .userDefined (.enum _ _ _ _) _ => true
  | _ => false

end BondType

/-! ## Folds -/

/-- `reifyEnumValues`; `Int` wraps around. -/
def nameValues (next : Int64) : List Constant → List (String × Int64)
  | [] => []
  | ⟨name, some value⟩ :: constants => (name, value) :: nameValues (value + 1) constants
  | ⟨name, none⟩ :: constants => (name, next) :: nameValues (next + 1) constants

def reifyEnumValues (constants : List Constant) : List (String × Int64) :=
  nameValues 0 constants

end Bond.Compiler

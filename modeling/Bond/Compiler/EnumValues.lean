import Bond.Compiler.Collisions
import Bond.Lib.Mirrors

set_option autoImplicit false

/-! # The values of enum constants

The numbers of an enum are read without a bound, and `constant` makes machine integers of them.
When the values of the constants are the numbers that were written, as signed 32-bit integers. -/

namespace Bond.Compiler

open Bond.Lib
open Bond.Lib.Parsec

/-! ## What is written -/

/-- A constant as it stands in the source. -/
structure Written where
  name : String
  number : Option Int
deriving DecidableEq

def Written.constant (w : Written) : Constant :=
  ⟨w.name, w.number.map Int64.ofInt⟩

/-- `constant`, with the number that it reads. -/
def writtenConstant : Parser Written := do
  let name ← identifier
  let number ← optional (do
    let _ ← equal
    integer)
  return ⟨name, number⟩

/-- `enum`, with the constants as they are written. -/
def writtenEnum (attr : List Attribute) :
    Parser (List Namespace × String × List Written) := do
  let namespaces ← currentNamespaces
  attempt (keyword "enum")
  let name ← identifier
  let consts ← braces (semiOrCommaSepEnd1 writtenConstant)
  let _ ← optional semi
  return (namespaces, name, consts)

theorem mirrors_constant : Mirrors Written.constant writtenConstant constant := by
  refine (Mirrors.refl identifier).bind fun name => ?_
  have hnumber : Mirrors (Option.map Int64.ofInt)
      (optional (do let _ ← equal; integer))
      (optional (do let _ ← equal; let i ← integer; return Int64.ofInt i) : Parser _) := by
    exact Mirrors.optional ((Mirrors.refl equal).bind fun _ => Mirrors.values _ integer)
  exact hnumber.bind fun number => Mirrors.pure (Written.mk name number)

theorem mirrors_enum (attr : List Attribute) :
    Mirrors (fun w => .enum w.1 attr w.2.1 (w.2.2.map Written.constant)) (writtenEnum attr)
      (enum attr) := by
  refine (Mirrors.refl currentNamespaces).bind fun namespaces => ?_
  refine (Mirrors.refl (attempt (keyword "enum"))).bind fun _ => ?_
  refine (Mirrors.refl identifier).bind fun name => ?_
  refine (Mirrors.between (Mirrors.sepEndBy1 mirrors_constant)).bind fun consts => ?_
  exact (Mirrors.refl (optional semi)).bind fun _ => Mirrors.pure (namespaces, name, consts)

/-! ## Numbering -/

/-- The values of constants that count on from the number before, without a bound. -/
def numbered (next : Int) : List Written → List (String × Int)
  | [] => []
  | ⟨name, some number⟩ :: consts => (name, number) :: numbered (number + 1) consts
  | ⟨name, none⟩ :: consts => (name, next) :: numbered (next + 1) consts

def IsInt32 (v : Int) : Prop :=
  -2 ^ 31 ≤ v ∧ v < 2 ^ 31

/-- The values of the constants are the numbers of the source, and fit in 32 bits. -/
def AsWritten (written : List Written) (consts : List Constant) : Prop :=
  (reifyEnumValues consts).map (fun v => (v.1, v.2.toInt)) = numbered 0 written ∧
    ∀ v ∈ reifyEnumValues consts, IsInt32 v.2.toInt

/-- How many constants follow that have no number of their own. -/
def implicits (written : List Written) : Nat :=
  (written.takeWhile fun w => w.number.isNone).length

/-- Every number that is written is at least -2^31, and below 2^31 with the constants counted up from
    it. -/
def NumbersFit (written : List Written) : Prop :=
  ∀ name (number : Int) rest, ⟨name, some number⟩ :: rest <:+ written →
    -2 ^ 31 ≤ number ∧ number + implicits rest < 2 ^ 31

/-- The same with the constants that are counted up from zero. -/
def InRange (written : List Written) : Prop :=
  implicits written ≤ 2 ^ 31 ∧ NumbersFit written

@[simp]
theorem implicits_cons_some (name : String) (number : Int) (written : List Written) :
    implicits (⟨name, some number⟩ :: written) = 0 := by
  simp [implicits]

@[simp]
theorem implicits_cons_none (name : String) (written : List Written) :
    implicits (⟨name, none⟩ :: written) = implicits written + 1 := by
  simp [implicits]

theorem numbersFit_cons_none (name : String) (written : List Written) :
    NumbersFit (⟨name, none⟩ :: written) ↔ NumbersFit written := by
  simp [NumbersFit, List.suffix_cons_iff]

theorem numbersFit_cons_some (name : String) (number : Int) (written : List Written) :
    NumbersFit (⟨name, some number⟩ :: written) ↔
      (-2 ^ 31 ≤ number ∧ number + implicits written < 2 ^ 31) ∧ NumbersFit written := by
  constructor
  · intro h
    exact ⟨h name number written (List.suffix_refl _), fun name' number' rest hrest =>
      h name' number' rest (hrest.trans (List.suffix_cons _ _))⟩
  · rintro ⟨hfirst, hrest⟩ name' number' rest hsuffix
    rcases List.suffix_cons_iff.1 hsuffix with heq | hsuffix
    · cases heq
      exact hfirst
    · exact hrest name' number' rest hsuffix

/-- Whether all numbers fit can be seen from those that are written. -/
theorem forall_isInt32_numbered_iff (next : Int) (written : List Written) :
    (∀ v ∈ numbered next written, IsInt32 v.2) ↔
      (0 < implicits written → -2 ^ 31 ≤ next ∧ next + implicits written ≤ 2 ^ 31) ∧
        NumbersFit written := by
  induction written generalizing next with
  | nil => simp [numbered, implicits, NumbersFit]
  | cons w written ih =>
      obtain ⟨name, _ | number⟩ := w
      · rw [numbered, List.forall_mem_cons, ih, implicits_cons_none, numbersFit_cons_none,
          ← and_assoc]
        refine and_congr_left fun _ => ?_
        rw [IsInt32]
        constructor
        · rintro ⟨hnext, hrest⟩ -
          rcases Nat.eq_zero_or_pos (implicits written) with hzero | hpos
          · omega
          · have hlast := hrest hpos
            omega
        · intro h
          have hall := h (Nat.succ_pos _)
          exact ⟨by omega, fun _ => by omega⟩
      · rw [numbered, List.forall_mem_cons, ih, implicits_cons_some, numbersFit_cons_some,
          ← and_assoc, ← and_assoc]
        refine and_congr_left fun _ => ?_
        rw [IsInt32]
        constructor
        · rintro ⟨hnumber, hrest⟩
          refine ⟨fun h => absurd h (Nat.lt_irrefl 0), hnumber.1, ?_⟩
          rcases Nat.eq_zero_or_pos (implicits written) with hzero | hpos
          · omega
          · have hlast := hrest hpos
            omega
        · rintro ⟨-, hlow, hhigh⟩
          exact ⟨by omega, fun _ => by omega⟩

theorem inRange_iff (written : List Written) :
    InRange written ↔ ∀ v ∈ numbered 0 written, IsInt32 v.2 := by
  rw [forall_isInt32_numbered_iff, InRange]
  refine and_congr_left fun _ => ?_
  omega

/-! ## Machine integers -/

theorem toInt_ofInt_of_isInt32 {v : Int} (h : IsInt32 v) : (Int64.ofInt v).toInt = v := by
  rw [Int64.toInt_ofInt]
  obtain ⟨hlow, hhigh⟩ := h
  exact Int.bmod_eq_of_le (by change -(2 ^ 64 / 2) ≤ v; omega) (by change v < (2 ^ 64 + 1) / 2; omega)

theorem toInt_add_one {v : Int64} (h : IsInt32 v.toInt) : (v + 1).toInt = v.toInt + 1 := by
  obtain ⟨hlow, hhigh⟩ := h
  have hone : (1 : Int64).toInt = 1 := rfl
  rw [Int64.toInt_add, hone]
  exact Int.bmod_eq_of_le (by omega) (by omega)

/-- As long as the numbers fit, no value wraps around. -/
theorem nameValues_eq_numbered {next : Int64} {written : List Written}
    (h : ∀ v ∈ numbered next.toInt written, IsInt32 v.2) :
    (nameValues next (written.map Written.constant)).map (fun v => (v.1, v.2.toInt)) =
      numbered next.toInt written := by
  induction written generalizing next with
  | nil => rfl
  | cons w written ih =>
      obtain ⟨name, _ | number⟩ := w
      · rw [numbered, List.forall_mem_cons] at h
        rw [← toInt_add_one h.1] at h
        simp only [List.map_cons, Written.constant, Option.map_none, nameValues, numbered,
          ← toInt_add_one h.1]
        rw [← ih h.2]
      · rw [numbered, List.forall_mem_cons] at h
        have hnumber := toInt_ofInt_of_isInt32 h.1
        have hnext : (Int64.ofInt number + 1).toInt = number + 1 := by
          rw [toInt_add_one (hnumber.symm ▸ h.1), hnumber]
        rw [← hnext] at h
        simp only [List.map_cons, Written.constant, Option.map_some, nameValues, numbered, hnumber,
          ← hnext]
        rw [← ih h.2]

theorem asWritten_iff (written : List Written) :
    AsWritten written (written.map Written.constant) ↔ InRange written := by
  rw [inRange_iff, AsWritten, reifyEnumValues]
  constructor
  · rintro ⟨hvalues, hfits⟩ v hv
    rw [← hvalues] at hv
    obtain ⟨v', hv', rfl⟩ := List.mem_map.1 hv
    exact hfits v' hv'
  · intro h
    have hvalues : (nameValues (0 : Int64) (written.map Written.constant)).map
        (fun v => (v.1, v.2.toInt)) = numbered (0 : Int64).toInt written :=
      nameValues_eq_numbered h
    refine ⟨hvalues, fun v hv => ?_⟩
    have hmem : (v.1, v.2.toInt) ∈ numbered 0 written := by
      rw [show (0 : Int) = (0 : Int64).toInt from rfl, ← hvalues]
      exact List.mem_map.2 ⟨v, hv, rfl⟩
    exact h _ hmem

/-! ## Enums -/

/-- The constants of an enum that is accepted have the values that are written exactly if every number
    fits in 32 bits, and what is counted up from it too. -/
theorem enum_asWritten_iff {attr : List Attribute} {n : Nat} {env : Environment} {s s' : Symbols}
    {input rest : List Char} {consumed : Bool} {decl : Declaration}
    (h : enum attr n env s input = .ok consumed decl s' rest) :
    ∃ namespaces name written consts,
      writtenEnum attr n env s input = .ok consumed (namespaces, name, written) s' rest ∧
      decl = .enum namespaces attr name consts ∧ (AsWritten written consts ↔ InRange written) := by
  obtain ⟨⟨namespaces, name, written⟩, hwritten, rfl⟩ := (mirrors_enum attr).of_ok h
  exact ⟨namespaces, name, written, _, hwritten, rfl, asWritten_iff written⟩

/-! ## Enums of one line -/

/-- What is parsed, if it is. -/
def parsed {σ α : Type} : Reply σ α → Option α
  | .ok _ a _ _ => some a
  | _ => none

theorem ok_of_parsed {σ α : Type} {r : Reply σ α} {a : α} (h : parsed r = some a) :
    ∃ consumed s rest, r = .ok consumed a s rest := by
  cases r with
  | ok consumed a' s rest => cases h; exact ⟨consumed, s, rest, rfl⟩
  | error | abort => cases h

/-- Nothing is declared and nothing imported. -/
def noImports : Environment :=
  fileEnvironment "enum.bond" fun _ _ => .error "no file"

theorem enum_asWritten_mixed : ∃ consumed decl s rest namespaces name written consts,
    enum [] 30 noImports ⟨[], []⟩ "enum E{A,B=-0x10,C}".toList = .ok consumed decl s rest ∧
    writtenEnum [] 30 noImports ⟨[], []⟩ "enum E{A,B=-0x10,C}".toList =
      .ok consumed (namespaces, name, written) s rest ∧
    decl = .enum namespaces [] name consts ∧ (AsWritten written consts ↔ InRange written) := by
  have hparsed : parsed (enum [] 30 noImports ⟨[], []⟩ "enum E{A,B=-0x10,C}".toList) =
      some (.enum [] [] "E" [⟨"A", none⟩, ⟨"B", some (-16)⟩, ⟨"C", none⟩]) := by
    rewrite [String.toList_ofList]
    decide +kernel
  obtain ⟨consumed, s, rest, h⟩ := ok_of_parsed hparsed
  obtain ⟨namespaces, name, written, consts, hall⟩ := enum_asWritten_iff h
  exact ⟨consumed, _, s, rest, namespaces, name, written, consts, h, hall⟩

/-- The number 2^64 + 1 is accepted and becomes 1. -/
theorem one_not_written : ¬∀ attr n env s input consumed decl s' rest,
    enum attr n env s input = .ok consumed decl s' rest →
    ∃ namespaces name written consts,
      writtenEnum attr n env s input = .ok consumed (namespaces, name, written) s' rest ∧
      decl = .enum namespaces attr name consts ∧ AsWritten written consts := by
  intro h
  let text := "enum E{A=18446744073709551617}".toList
  have hparsed : parsed (enum [] 30 noImports ⟨[], []⟩ text) =
      some (.enum [] [] "E" [⟨"A", some 1⟩]) := by decide +kernel
  have hsource : parsed (writtenEnum [] 30 noImports ⟨[], []⟩ text) =
      some ([], "E", [⟨"A", some 18446744073709551617⟩]) := by decide +kernel
  obtain ⟨consumed, s, rest, henum⟩ := ok_of_parsed hparsed
  obtain ⟨_, _, written, consts, hwritten, hdecl, hvalues, -⟩ := h _ _ _ _ _ _ _ _ _ henum
  rw [hwritten] at hsource
  cases hsource
  cases hdecl
  revert hvalues
  decide +kernel

end Bond.Compiler

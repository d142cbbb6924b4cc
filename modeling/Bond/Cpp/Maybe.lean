import Bond.Lib.System
import Mathlib.Logic.Function.Basic

set_option autoImplicit false

/-! # `maybe`

The special members of `maybe<T>` (cpp/inc/bond/core/maybe.h) over a `boost::optional<T>`, compared with
what the type documents: a `maybe` is nothing, or holds what has been assigned to it last, and one that
has been moved from is nothing. -/

namespace Bond.Cpp.Maybe

open Bond.Lib

variable {T A : Type}

/-! ## Objects -/

/-- What is known of a `T` and its allocators. -/
structure Members (T A : Type) where
  /-- what is left of a `T` after another one has been moved out of it -/
  movedFrom : T → T
  /-- what is left of a `T` after the move assignment to itself -/
  selfMoved : T → T
  /-- `T()`, or `T(alloc)` -/
  make : A → T
  /-- the allocator of a `maybe` that is given none -/
  allocator : A

/-- A `maybe<T>`. If `T` has no allocator then `A` has one value only. -/
structure Object (T A : Type) where
  /-- `_value` -/
  value : Option T
  allocator : A
deriving DecidableEq, Repr

/-- The objects that are alive, by their addresses. -/
abbrev Store (T A : Type) := Nat → Option (Object T A)

def Store.put (s : Store T A) (i : Nat) (m : Object T A) : Store T A :=
  Function.update s i (some m)

def Store.value (s : Store T A) (i : Nat) : Option T :=
  (s i).bind Object.value

/-- A reference to a `T`: to the value of a `maybe`, or to a `T` that is in none. -/
inductive Ref (T : Type) where
  | other (v : T)
  | held (i : Nat)
deriving DecidableEq, Repr

/-- The `T` that a reference refers to, if it still exists. -/
def Ref.read (s : Store T A) : Ref T → Option T
  | other v => some v
  | held i => s.value i

/-- The objects after a `T` has been copied from a reference, or moved from it. -/
def Ref.leave (M : Members T A) (moving : Bool) (s : Store T A) : Ref T → Store T A
  | other _ => s
  | held i =>
      match s i with
      | some m => if moving then s.put i { m with value := m.value.map M.movedFrom } else s
      | none => s

/-- `_MSC_VER < 1900`, or not -/
inductive Compiler where
  | msvc2013 | other
deriving DecidableEq, Repr

/-- What a program does with the objects at `i` and `j`. An argument `v` is taken as `const T&`, or as
    `T&&` if it is `moving`. -/
inductive Op (T A : Type) where
  /-- `maybe()`, and `maybe(alloc)` -/
  | construct (i : Nat) (alloc : Option A)
  /-- `maybe(const maybe&)`, and the one with an allocator -/
  | constructCopy (i j : Nat) (alloc : Option A)
  /-- `maybe(maybe&&)`, and the one with an allocator -/
  | constructMove (i j : Nat) (alloc : Option A)
  /-- `maybe(v)` -/
  | constructValue (i : Nat) (v : Ref T) (moving : Bool)
  /-- `operator=(const maybe&)` -/
  | assign (i j : Nat)
  /-- `operator=(maybe&&)` -/
  | moveAssign (i j : Nat)
  /-- `operator=(v)` -/
  | assignValue (i : Nat) (v : Ref T) (moving : Bool)
  | emplace (i : Nat) (v : Ref T) (moving : Bool)
  | setNothing (i : Nat)
  | setValue (i : Nat)
  | swap (i j : Nat)
  | destroy (i : Nat)
deriving DecidableEq, Repr

/-! ## The code -/

section

variable (M : Members T A)

/-- `emplace`. `boost::optional` destroys the value it has before it makes the new one: a reference to
    the value refers to nothing then, and to read it is undefined (`none`). -/
def emplace (i : Nat) (v : Ref T) (moving : Bool) (s : Store T A) : Option (Store T A) := do
  let m ← s i
  let cleared := s.put i { m with value := none }
  let x ← v.read cleared
  return (v.leave M moving cleared).put i { m with value := some x }

/-- `operator=(maybe&&)`. It is defaulted, and the `boost::optional` that has been moved from keeps its
    value, as what is left of it; for an old compiler it is written out. -/
def moveAssign (compiler : Compiler) (i j : Nat) (s : Store T A) : Option (Store T A) := do
  let m ← s i
  let that ← s j
  let left := if i = j then m.value.map M.selfMoved else that.value.map M.movedFrom
  let left := if compiler = .msvc2013 then none else left
  return if i = j then s.put i { m with value := left }
    else (s.put j { that with value := left }).put i that

/-- A new object at a place where there is none. -/
def constructAt (i : Nat) (m : Object T A) (s : Store T A) : Option (Store T A) :=
  match s i with
  | none => some (s.put i m)
  | some _ => none

/-- What an operation of the code does; `none` if it is undefined. -/
def Op.run (compiler : Compiler) : Op T A → Store T A → Option (Store T A)
  | construct i alloc, s => constructAt i ⟨none, alloc.getD M.allocator⟩ s
  | constructCopy i j alloc, s => do
      let that ← s j
      constructAt i ⟨that.value, alloc.getD that.allocator⟩ s
  | constructMove i j alloc, s => do
      let that ← s j
      let s ← constructAt i ⟨that.value, alloc.getD that.allocator⟩ s
      return s.put j { that with value := none }
  | constructValue i v moving, s => do
      let x ← v.read s
      constructAt i ⟨some x, M.allocator⟩ (v.leave M moving s)
  | assign i j, s => do
      let _ ← s i
      let that ← s j
      return s.put i that
  | moveAssign i j, s => Maybe.moveAssign M compiler i j s
  | assignValue i v moving, s => Maybe.emplace M i v moving s
  | emplace i v moving, s => Maybe.emplace M i v moving s
  | setNothing i, s => do
      let m ← s i
      return s.put i { m with value := none }
  | setValue i, s => do
      let m ← s i
      if m.value.isNone then Maybe.emplace M i (.other (M.make m.allocator)) true s else return s
  | swap i j, s => do
      let m ← s i
      let that ← s j
      return (s.put i that).put j m
  | destroy i, s => do
      let _ ← s i
      return Function.update s i none

end

/-! ## What is documented -/

section

variable (M : Members T A)

/-- The object at `i` holds `x`. -/
def Store.hold (s : Store T A) (i : Nat) (x : Option T) : Option (Store T A) :=
  (s i).map fun m => s.put i { m with value := x }

/-- The object at `i` holds the value of `v`, which may be a value that it has held. -/
def Store.holdRef (s : Store T A) (i : Nat) (v : Ref T) (moving : Bool) : Option (Store T A) := do
  let x ← v.read s
  (v.leave M moving s).hold i (some x)

/-- What is documented of an operation; `none` if it cannot be called. An object holds what it is given,
    and is nothing once it has been moved from. -/
def Op.documented : Op T A → Store T A → Option (Store T A)
  | construct i alloc, s => constructAt i ⟨none, alloc.getD M.allocator⟩ s
  | constructCopy i j alloc, s => do
      let that ← s j
      constructAt i ⟨that.value, alloc.getD that.allocator⟩ s
  | constructMove i j alloc, s => do
      let that ← s j
      let s ← constructAt i ⟨that.value, alloc.getD that.allocator⟩ s
      s.hold j none
  | constructValue i v moving, s => do
      let x ← v.read s
      constructAt i ⟨some x, M.allocator⟩ (v.leave M moving s)
  | assign i j, s => do
      let _ ← s i
      let that ← s j
      return s.put i that
  | moveAssign i j, s => do
      let _ ← s i
      let that ← s j
      (s.put i that).hold j none
  | assignValue i v moving, s => s.holdRef M i v moving
  | emplace i v moving, s => s.holdRef M i v moving
  | setNothing i, s => s.hold i none
  | setValue i, s => do
      let m ← s i
      s.hold i (some (m.value.getD (M.make m.allocator)))
  | swap i j, s => do
      let m ← s i
      let that ← s j
      return (s.put i that).put j m
  | destroy i, s => do
      let _ ← s i
      return Function.update s i none

end

/-! ## Where the code does what is documented -/

/-- The operation is no move assignment from an object that holds a value, unless it is written out, and
    no assignment of an object's own value. -/
def Op.Safe (compiler : Compiler) (s : Store T A) : Op T A → Prop
  | moveAssign _ j => compiler = .msvc2013 ∨ s.value j = none
  | assignValue i v _ | emplace i v _ => v ≠ .held i
  | _ => True

section

variable {M : Members T A} {compiler : Compiler} {s t : Store T A} {i j : Nat}

@[simp]
theorem Store.put_self (s : Store T A) (i : Nat) (m : Object T A) : s.put i m i = some m :=
  Function.update_self i _ s

theorem Store.put_of_ne (s : Store T A) (m : Object T A) (h : j ≠ i) : s.put i m j = s j :=
  Function.update_of_ne h _ s

@[simp]
theorem Store.put_put (s : Store T A) (i : Nat) (m m' : Object T A) :
    (s.put i m).put i m' = s.put i m' :=
  Function.update_idem _ _ s

theorem Store.put_comm (s : Store T A) (m m' : Object T A) (h : i ≠ j) :
    (s.put i m).put j m' = (s.put j m').put i m :=
  Function.update_comm h _ _ s

theorem Store.hold_eq {m : Object T A} (h : s i = some m) (x : Option T) :
    s.hold i x = some (s.put i { m with value := x }) := by
  rw [hold, h]
  rfl

/-- A reference to something else does not notice that the object at `i` is emptied. -/
theorem Ref.leave_put {v : Ref T} (hv : v ≠ .held i) (moving : Bool) (m m' : Object T A) :
    (v.leave M moving (s.put i m)).put i m' = (v.leave M moving s).put i m' := by
  cases v with
  | other x => exact Store.put_put s i m m'
  | held j =>
      have hne : j ≠ i := fun h => hv (congrArg Ref.held h)
      simp only [leave, Store.put_of_ne s m hne]
      split
      · split_ifs
        · rw [Store.put_comm s _ _ hne.symm, Store.put_put]
        · exact Store.put_put s i m m'
      · exact Store.put_put s i m m'

theorem Ref.leave_self {v : Ref T} (hv : v ≠ .held i) (moving : Bool) :
    v.leave M moving s i = s i := by
  cases v with
  | other x => rfl
  | held j =>
      have hne : i ≠ j := fun h => hv (congrArg Ref.held h.symm)
      cases hj : s j with
      | none => simp only [leave, hj]
      | some that =>
          simp only [leave, hj]
          split_ifs
          · exact Store.put_of_ne s _ hne
          · rfl

/-- `emplace` holds its argument, but not if that is what it destroys. -/
theorem emplace_eq_iff {v : Ref T} {moving : Bool} (h : s.holdRef M i v moving = some t) :
    emplace M i v moving s = some t ↔ v ≠ .held i := by
  obtain ⟨x, hread, hhold⟩ := Option.bind_eq_some_iff.1 h
  by_cases hv : v = .held i
  · subst hv
    -- the value is destroyed before it is read
    have hnone : emplace M i (.held i) moving s = none := by
      unfold emplace
      cases s i with
      | none => rfl
      | some m => simp [Ref.read, Store.value]
    rw [hnone]
    simp
  · obtain ⟨m, hm, ht⟩ := Option.map_eq_some_iff.1 hhold
    rw [Ref.leave_self hv] at hm
    have hread' : v.read (s.put i { m with value := none }) = some x := by
      rw [← hread]
      cases v with
      | other y => rfl
      | held j =>
          have hne : j ≠ i := fun h => hv (congrArg Ref.held h)
          rw [Ref.read, Ref.read, Store.value, Store.value, Store.put_of_ne s _ hne]
    refine iff_of_true ?_ hv
    unfold emplace
    rw [hm, Option.bind_eq_bind, Option.bind_some]
    dsimp only
    rw [hread', ← ht]
    exact congrArg some (Ref.leave_put hv moving _ _)

/-- The defaulted move assignment leaves the source with what is left of its value. -/
theorem moveAssign_eq_iff {m that : Object T A} (hi : s i = some m) (hj : s j = some that) :
    moveAssign M compiler i j s = (s.put i that).hold j none ↔
      compiler = .msvc2013 ∨ that.value = none := by
  have hself : (s.put i that) j = some that := by
    by_cases hij : j = i
    · rw [hij, Store.put_self]
    · rw [Store.put_of_ne s that hij, hj]
  unfold moveAssign
  rw [hi, hj, Store.hold_eq hself]
  simp only [Option.bind_eq_bind, Option.bind_some, Option.pure_def, Option.some.injEq]
  by_cases hij : i = j
  · subst hij
    obtain rfl := Option.some.inj (hi.symm.trans hj)
    rw [if_pos rfl, if_pos rfl, Store.put_put]
    constructor
    · intro h
      have hvalue := congrArg (fun s => (s i).map Object.value) h
      simp only [Store.put_self, Option.map_some, Option.some.injEq] at hvalue
      split_ifs at hvalue with hc
      · exact .inl hc
      · exact .inr (Option.map_eq_none_iff.1 hvalue)
    · rintro (hc | hnone)
      · rw [if_pos hc]
      · rw [hnone]
        simp
  · rw [if_neg hij, if_neg hij, Store.put_comm s _ _ (Ne.symm hij)]
    constructor
    · intro h
      have hvalue := congrArg (fun s => (s j).map Object.value) h
      simp only [Store.put_self, Option.map_some, Option.some.injEq] at hvalue
      split_ifs at hvalue with hc
      · exact .inl hc
      · exact .inr (Option.map_eq_none_iff.1 hvalue)
    · rintro (hc | hnone)
      · rw [if_pos hc]
      · rw [hnone]
        simp

/-- One operation does what is documented exactly if it is safe. -/
theorem run_eq_iff {op : Op T A} (h : op.documented M s = some t) :
    op.run M compiler s = some t ↔ op.Safe compiler s := by
  cases op with
  | moveAssign i j =>
      obtain ⟨m, hi, h⟩ := Option.bind_eq_some_iff.1 h
      obtain ⟨that, hj, h⟩ := Option.bind_eq_some_iff.1 h
      have hvalue : s.value j = that.value := by
        rw [Store.value, hj]
        rfl
      rw [Op.run, Op.Safe, ← h, moveAssign_eq_iff hi hj, hvalue]
  | assignValue i v moving => exact emplace_eq_iff h
  | emplace i v moving => exact emplace_eq_iff h
  | constructMove i j alloc =>
      obtain ⟨that, hj, h⟩ := Option.bind_eq_some_iff.1 h
      obtain ⟨u, hu, h⟩ := Option.bind_eq_some_iff.1 h
      have hthat : u j = some that := by
        unfold constructAt at hu
        split at hu
        · next hnone =>
            obtain rfl := Option.some.inj hu
            have hne : j ≠ i := fun hij => by rw [hij, hnone] at hj; cases hj
            rw [Store.put_of_ne s _ hne, hj]
        · cases hu
      refine iff_of_true ?_ trivial
      rw [Store.hold_eq hthat] at h
      rw [Op.run, hj, Option.bind_eq_bind, Option.bind_some, hu]
      exact h
  | setNothing i =>
      obtain ⟨m, hi, h⟩ := Option.map_eq_some_iff.1 h
      refine iff_of_true ?_ trivial
      rw [Op.run, hi, ← h]
      rfl
  | setValue i =>
      obtain ⟨m, hi, h⟩ := Option.bind_eq_some_iff.1 h
      rw [Store.hold_eq hi] at h
      refine iff_of_true ?_ trivial
      rw [Op.run, hi, ← h, Option.bind_eq_bind, Option.bind_some]
      cases hm : m.value with
      | some x =>
          have hput : s.put i { m with value := some x } = s := by
            rw [← hm]
            exact Function.update_eq_self_iff.2 hi.symm
          rw [if_neg (by simp), Option.getD_some, hput]
          rfl
      | none =>
          have hhold : s.holdRef M i (.other (M.make m.allocator)) true =
              some (s.put i { m with value := some (M.make m.allocator) }) :=
            Store.hold_eq hi _
          rw [if_pos Option.isNone_none, Option.getD_none]
          exact (emplace_eq_iff hhold).2 nofun
  | _ => exact iff_of_true h trivial

/-- The objects of a program, and those that there should be. -/
def system (M : Members T A) (compiler : Compiler) :
    System (Option (Store T A) × Store T A) (Op T A) where
  step s op := (op.documented M s.2).map fun t => (s.1.bind (op.run M compiler), t)

/-- The objects are what they should be: nothing has been undefined, each object is nothing or holds what
    it has been assigned last, and those that have been moved from are nothing. -/
def Agrees (s : Option (Store T A) × Store T A) : Prop :=
  s.1 = some s.2

/-- In every run from a state without objects, the objects are what is documented in every state reached
    exactly if no operation of the run is a defaulted move assignment from an object that holds a value or
    assigns to an object its own value. -/
theorem agrees_iff_safe (M : Members T A) (compiler : Compiler) (ops : List (Op T A)) :
    (system M compiler).Along Agrees (some fun _ => none, fun _ => none) ops ↔
      (system M compiler).Meets (fun s op => op.Safe compiler s.2)
        (some fun _ => none, fun _ => none) ops := by
  have hstart : Agrees ((some fun _ => none, fun _ => none) : Option (Store T A) × Store T A) := rfl
  refine System.along_iff_meets (I := fun _ => True) (fun _ _ _ _ _ => trivial) ?_ trivial hstart ops
  rintro ⟨c, s⟩ op ⟨c', t⟩ - hagrees hstep
  obtain rfl : c = some s := hagrees
  obtain ⟨t', hdocumented, hpair⟩ := Option.map_eq_some_iff.1 hstep
  obtain ⟨rfl, rfl⟩ := Prod.mk.inj hpair
  exact run_eq_iff hdocumented

end

/-! ### A move assignment -/

/-- Numbers, of which a move leaves a copy. -/
def numbers : Members Nat Unit where
  movedFrom x := x
  selfMoved x := x
  make _ := 0
  allocator := ()

/-- An object that holds 7, and one that it is moved to. -/
def moved : List (Op Nat Unit) :=
  [.constructValue 0 (.other 7) false, .construct 1 none, .moveAssign 1 0]

/-- The object that has been moved from still holds 7. -/
theorem not_agrees_moved :
    ¬ (system numbers .other).Along Agrees (some fun _ => none, fun _ => none) moved := by
  intro h
  have hagrees := (((h.2 _ rfl).2 _ rfl).2 _ rfl).first
  have hvalue := congrArg (fun c => c.bind fun s => s.value 0) hagrees
  revert hvalue
  decide

end Bond.Cpp.Maybe

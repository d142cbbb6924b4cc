import Bond.Lib.System
import Mathlib.Logic.Function.Basic

set_option autoImplicit false

/-! # `any`

`detail::any` (cpp/inc/bond/core/detail/any.h): a value of any type, in place or on the heap. Values are
objects that are made and destroyed; what matters is which of them are alive. -/

namespace Bond.Cpp.Any

open Bond.Lib

variable {τ : Type}

/-! ## State -/

/-- The types that are stored, with their ids and traits. -/
structure Types (τ : Type) where
  /-- `TypeId<T>::value` -/
  id : τ → UInt32
  id_ne_zero : ∀ t, id t ≠ 0
  id_injective : Function.Injective id
  /-- `sizeof(T) <= sizeof(storage)` -/
  isSmall : τ → Bool
  /-- `std::is_copy_assignable<T>` -/
  isCopyAssignable : τ → Bool

/-- `_storage`: the object that is in it or that it has a pointer to. -/
inductive Storage where
  | uninitialized
  | inPlace (object : Nat)
  | pointer (object : Option Nat)
deriving DecidableEq, Repr

/-- The object that `unsafe_cast` finds; none behind a null pointer. -/
def Storage.object : Storage → Option Nat
  | uninitialized => none
  | inPlace o => some o
  | pointer o => o

/-- An `any`; `functions` is the type that its table was made for. -/
structure Object (τ : Type) where
  storage : Storage
  functions : Option τ
  id : UInt32

/-- The state of a program. Objects that have been stored are numbered in the order in which they are
    made. -/
structure State (τ : Type) where
  /-- the `any`s, by their addresses -/
  anys : Nat → Option (Object τ)
  /-- the types of the stored objects that have been made -/
  made : List τ
  /-- the stored objects that have been destroyed, in that order -/
  destroyed : List Nat

namespace State

def put (s : State τ) (i : Nat) (x : Object τ) : State τ :=
  { s with anys := Function.update s.anys i (some x) }

/-- The object is alive. -/
def alive (s : State τ) (o : Nat) : Prop :=
  o < s.made.length ∧ o ∉ s.destroyed

instance (s : State τ) (o : Nat) : Decidable (s.alive o) :=
  inferInstanceAs (Decidable (_ ∧ _))

/-- The destructor of a stored object is called. -/
def destruct (s : State τ) (o : Nat) : State τ :=
  { s with destroyed := s.destroyed ++ [o] }

end State

/-! ## Operations -/

/-- Where a value that is copied comes from: from outside of all `any`s, or from the object that the one at
    `j` stores; it may be a part of this object. -/
inductive Source where
  | outside
  | inside (j : Nat)
deriving DecidableEq, Repr

/-- Another `any`: the one at `j`, or one in the object that it stores, with a value of the type `t` or
    without a value. -/
inductive Other (τ : Type) where
  | whole (j : Nat)
  | inside (j : Nat) (t : Option τ)
deriving DecidableEq, Repr

/-- The operations of a program. `throws` says whether the copy constructor or the copy assignment of the
    value throws, or the allocation for it. There are no move members: a move is a copy, and `std::swap`
    copies three times. -/
inductive Op (τ : Type) where
  | construct (i : Nat)
  /-- `any(other)` -/
  | constructCopy (i : Nat) (other : Other τ) (throws : Bool)
  /-- `any(value)` -/
  | constructValue (i : Nat) (t : τ) (value : Source) (throws : Bool)
  /-- `operator=(other)` -/
  | assign (i : Nat) (other : Other τ) (throws : Bool)
  /-- `operator=(value)` -/
  | assignValue (i : Nat) (t : τ) (value : Source) (throws : Bool)
  | destroy (i : Nat)
deriving DecidableEq, Repr

/-- What is copied: its type, none for an `any` without a value, and the stored object that it is or that
    it is a part of. -/
structure Value (τ : Type) where
  type : Option τ
  object : Option Nat

/-- The object that the `any` at `i` stores. -/
def State.stored (s : State τ) (i : Nat) : Option Nat := do
  let x ← s.anys i
  if x.id = 0 then none else x.storage.object

def Source.value (s : State τ) (t : τ) : Source → Value τ
  | outside => ⟨some t, none⟩
  | inside j => ⟨some t, s.stored j⟩

def Other.value (s : State τ) : Other τ → Value τ
  | whole j => ⟨((s.anys j).filter fun x => x.id ≠ 0).bind Object.functions, s.stored j⟩
  | inside j t => ⟨t, s.stored j⟩

section

variable (T : Types τ)

/-- `_id` of an `any` with a value of the type, or without one -/
def Types.idOf (type : Option τ) : UInt32 :=
  type.elim 0 T.id

/-- `impl<T>::emplace_uninitialized` has made an object. -/
def Types.storage (t : τ) (o : Nat) : Storage :=
  if T.isSmall t then .inPlace o else .pointer (some o)

/-- What is copied is still alive. -/
def Value.readable (s : State τ) (v : Value τ) : Prop :=
  ∀ o, v.object = some o → s.alive o

instance (s : State τ) (v : Value τ) : Decidable (v.readable s) :=
  match h : v.object with
  | none => isTrue fun o ho => by rw [h] at ho; cases ho
  | some o => decidable_of_iff (s.alive o)
      ⟨fun hs o' ho' => Option.some.inj (h.symm.trans ho') ▸ hs, fun hs => hs o h⟩

/-- `emplace_uninitialized`. The id is set once the copy has not thrown. To copy what is not alive any more
    is undefined (`none`). -/
def emplaceUninitialized (throws : Bool) (i : Nat) (x : Object τ) (v : Value τ) (s : State τ) :
    Option (State τ) :=
  if v.readable s then
    match v.type with
    | none => some (s.put i { x with id := 0 })
    | some t =>
        if throws then some (s.put i x)
        else some ({ s with made := s.made ++ [t] }.put i
          ⟨T.storage t s.made.length, some t, T.id t⟩)
  else none

/-- `impl<T>::destroy`: the value in place is destroyed, or the one behind the pointer is deleted. -/
def destroyValue (x : Object τ) (s : State τ) : Option (Object τ × State τ) :=
  match x.storage with
  | .uninitialized => none
  | .inPlace o => some (x, s.destruct o)
  | .pointer (some o) => some ({ x with storage := .pointer none }, s.destruct o)
  | .pointer none => some (x, s)

/-- `destroy` -/
def destroyAny (x : Object τ) (s : State τ) : Option (Object τ × State τ) :=
  if x.id = 0 then some (x, s)
  else (destroyValue x s).map fun r => ({ r.1 with id := 0 }, r.2)

/-- `table<T>::assign` -/
def assignSame (throws : Bool) (i : Nat) (x : Object τ) (t : τ) (v : Value τ) (s : State τ) :
    Option (State τ) :=
  if T.isCopyAssignable t then
    -- the object is assigned to; it stays alive even if that throws
    if v.readable s ∧ ∃ o ∈ x.storage.object, s.alive o then some s else none
  else do
    let (x, s) ← destroyValue x s
    emplaceUninitialized T throws i x v s

/-- `assign`, with `try_assign_same` -/
def assignAny (throws : Bool) (i : Nat) (v : Value τ) (s : State τ) : Option (State τ) := do
  let x ← s.anys i
  if x.id = T.idOf v.type then
    match v.type with
    | none => return s
    | some t => assignSame T throws i x t v s
  else do
    let (x, s) ← destroyAny x s
    emplaceUninitialized T throws i x v s

/-- The constructors that copy. If they throw there is no object. -/
def constructAny (throws : Bool) (i : Nat) (v : Value τ) (s : State τ) : Option (State τ) :=
  if throws ∧ v.type.isSome then (if v.readable s then some s else none)
  else emplaceUninitialized T throws i ⟨.uninitialized, none, 0⟩ v s

def Op.run : Op τ → State τ → Option (State τ)
  | construct i, s => some (s.put i ⟨.uninitialized, none, 0⟩)
  | constructCopy i other throws, s => constructAny T throws i (other.value s) s
  | constructValue i t value throws, s => constructAny T throws i (value.value s t) s
  | assign i other throws, s => assignAny T throws i (other.value s) s
  | assignValue i t value throws, s => assignAny T throws i (value.value s t) s
  | destroy i, s => do
      let x ← s.anys i
      let (_, s) ← destroyAny x s
      return { s with anys := Function.update s.anys i none }

end

/-- There is the `any` at `j`, and it stores an object. -/
def Source.possible (s : State τ) : Source → Bool
  | outside => true
  | inside j => (s.stored j).isSome

def Other.possible (s : State τ) : Other τ → Bool
  | whole j => (s.anys j).isSome
  | inside j _ => (s.stored j).isSome

/-- A program makes an `any` where there is none, and uses those that there are. -/
def Op.possible (s : State τ) : Op τ → Bool
  | construct i => (s.anys i).isNone
  | constructCopy i other _ => (s.anys i).isNone && other.possible s
  | constructValue i _ value _ => (s.anys i).isNone && value.possible s
  | assign i other _ => (s.anys i).isSome && other.possible s
  | assignValue i _ value _ => (s.anys i).isSome && value.possible s
  | destroy i => (s.anys i).isSome

/-- The runs of a program; `none` is the state after something undefined. -/
def system (T : Types τ) : System (Option (State τ)) (Op τ) where
  step c op :=
    match c with
    | none => some none
    | some s => if op.possible s then some (op.run T s) else none

/-! ## What should hold -/

/-- An `any` without a value, or with a live object of the type of its id. -/
def Object.Holds (T : Types τ) (s : State τ) (x : Object τ) : Prop :=
  x.id = 0 ∨ ∃ t o, x.id = T.id t ∧ x.functions = some t ∧ x.storage = T.storage t o ∧
    s.made[o]? = some t ∧ o ∉ s.destroyed

/-- Each `any` has a live object of the type of its id or no value, each object that is alive is stored in
    just one of them, and no object has been destroyed twice. -/
structure State.Sound (T : Types τ) (s : State τ) : Prop where
  holds : ∀ i x, s.anys i = some x → x.Holds T s
  owned : ∀ o, s.alive o → ∃ i, s.stored i = some o
  apart : ∀ i j o, s.stored i = some o → s.stored j = some o → i = j
  once : s.destroyed.Nodup
  made : ∀ o ∈ s.destroyed, o < s.made.length

/-- No assignment copies from the object that it destroys; and none that destroys an object to put another
    one of the same type in its place, throws. -/
def assignSafe (T : Types τ) (throws : Bool) (i : Nat) (v : Value τ) (s : State τ) : Prop :=
  ∀ x, s.anys i = some x →
    match v.type with
    | some t =>
        if x.id = T.id t then T.isCopyAssignable t = true ∨ (throws = false ∧ v.object ≠ s.stored i)
        else s.stored i = none ∨ v.object ≠ s.stored i
    | none => s.stored i = none ∨ v.object ≠ s.stored i

def Op.Safe (T : Types τ) (s : State τ) : Op τ → Prop
  | assign i other throws => assignSafe T throws i (other.value s) s
  | assignValue i t value throws => assignSafe T throws i (value.value s t) s
  | _ => True

/-! ## Objects that are made and destroyed -/

section

variable {T : Types τ} {s : State τ} {i j o : Nat} {x : Object τ} {t : τ} {v : Value τ}
  {throws : Bool}

@[simp]
theorem Types.storage_object (t : τ) (o : Nat) : (T.storage t o).object = some o := by
  unfold storage
  split_ifs <;> rfl

theorem State.stored_eq (h : s.anys i = some x) :
    s.stored i = if x.id = 0 then none else x.storage.object := by
  rw [stored, h]
  rfl

theorem State.stored_none (h : ∀ x, s.anys i = some x → x.id = 0) : s.stored i = none := by
  cases hx : s.anys i with
  | none =>
      rw [stored, hx]
      rfl
  | some x => rw [stored_eq hx, if_pos (h x hx)]

theorem State.stored_congr {s' : State τ} (h : s'.anys i = s.anys i) : s'.stored i = s.stored i := by
  rw [stored, stored, h]

theorem State.put_self (s : State τ) (i : Nat) (x : Object τ) : (s.put i x).anys i = some x :=
  Function.update_self i _ s.anys

theorem State.put_of_ne (s : State τ) (x : Object τ) (h : j ≠ i) : (s.put i x).anys j = s.anys j :=
  Function.update_of_ne h _ s.anys

theorem State.put_put (s : State τ) (i : Nat) (x y : Object τ) : (s.put i x).put i y = s.put i y := by
  simp only [put, Function.update_idem]

/-- An `any` that stores an object. -/
theorem State.Sound.of_stored (h : s.Sound T) (ho : s.stored i = some o) :
    ∃ x t, s.anys i = some x ∧ x.id = T.id t ∧ x.functions = some t ∧ x.storage = T.storage t o ∧
      s.made[o]? = some t ∧ o ∉ s.destroyed := by
  obtain ⟨x, hx, hobject⟩ := Option.bind_eq_some_iff.1 ho
  rcases h.holds i x hx with hid | ⟨t, o', hid, hfunctions, hstorage, hmade, hlive⟩
  · rw [if_pos hid] at hobject
    cases hobject
  · have hne : ¬ x.id = 0 := by
      rw [hid]
      exact T.id_ne_zero t
    rw [if_neg hne, hstorage, T.storage_object] at hobject
    obtain rfl := Option.some.inj hobject
    exact ⟨x, t, hx, hid, hfunctions, hstorage, hmade, hlive⟩

theorem State.Sound.alive (h : s.Sound T) (ho : s.stored i = some o) : s.alive o := by
  obtain ⟨-, t, -, -, -, -, hmade, hlive⟩ := h.of_stored ho
  exact ⟨(List.getElem?_eq_some_iff.1 hmade).1, hlive⟩

/-- An `any` that stores none has no value. -/
theorem State.Sound.id_eq_zero (h : s.Sound T) (hx : s.anys i = some x) (ho : s.stored i = none) :
    x.id = 0 := by
  rcases h.holds i x hx with hid | ⟨t, o, hid, -, hstorage, -⟩
  · exact hid
  · rw [stored_eq hx, hid, if_neg (T.id_ne_zero t), hstorage, T.storage_object] at ho
    cases ho

/-- An `any` without a value is made, changed, or taken away. -/
theorem State.Sound.replace (h : s.Sound T) (hi : s.stored i = none) {anys : Nat → Option (Object τ)}
    (hothers : ∀ j, j ≠ i → anys j = s.anys j) (hnew : ∀ x, anys i = some x → x.id = 0) :
    ({ s with anys := anys } : State τ).Sound T := by
  have hstored (j : Nat) : ({ s with anys := anys } : State τ).stored j = s.stored j := by
    by_cases hj : j = i
    · subst hj
      rw [hi]
      exact stored_none hnew
    · exact stored_congr (hothers j hj)
  refine ⟨fun j x hx => ?_, fun o ho => ?_, fun j k o hj hk => ?_, h.once, h.made⟩
  · by_cases hj : j = i
    · subst hj
      exact .inl (hnew x hx)
    · exact h.holds j x ((hothers j hj).symm.trans hx)
  · obtain ⟨j, hj⟩ := h.owned o ho
    exact ⟨j, (hstored j).trans hj⟩
  · exact h.apart j k o ((hstored j).symm.trans hj) ((hstored k).symm.trans hk)

/-- The object of an `any` is destroyed, and the `any` has no value any more. -/
theorem State.Sound.release (h : s.Sound T) (ho : s.stored i = some o)
    {anys : Nat → Option (Object τ)} (hothers : ∀ j, j ≠ i → anys j = s.anys j)
    (hnew : ∀ x, anys i = some x → x.id = 0) :
    ({ s.destruct o with anys := anys } : State τ).Sound T := by
  have hlive := h.alive ho
  have hstored (j : Nat) (hj : j ≠ i) :
      ({ s.destruct o with anys := anys } : State τ).stored j = s.stored j :=
    stored_congr (hothers j hj)
  have hnone : ({ s.destruct o with anys := anys } : State τ).stored i = none := stored_none hnew
  refine ⟨fun j x hx => ?_, fun p hp => ?_, fun j k p hj hk => ?_, ?_, fun p hp => ?_⟩
  · by_cases hj : j = i
    · subst hj
      exact .inl (hnew x hx)
    · rcases h.holds j x ((hothers j hj).symm.trans hx) with hid | ⟨t, p, hid, hf, hs, hm, hp⟩
      · exact .inl hid
      · refine .inr ⟨t, p, hid, hf, hs, hm, fun hmem => ?_⟩
        rcases List.mem_append.1 hmem with hmem | hmem
        · exact hp hmem
        · obtain rfl := List.mem_singleton.1 hmem
          have hj' : s.stored j = some p := by
            rw [stored_eq ((hothers j hj).symm.trans hx), hid, if_neg (T.id_ne_zero t), hs,
              T.storage_object]
          exact hj (h.apart j i p hj' ho)
  · obtain ⟨hlt, hmem⟩ := hp
    obtain ⟨hmem, hne⟩ := not_or.1 fun hor => hmem (List.mem_append.2 hor)
    obtain ⟨j, hj⟩ := h.owned p ⟨hlt, hmem⟩
    refine ⟨j, (hstored j fun hji => ?_).trans hj⟩
    rw [hji, ho] at hj
    exact hne (List.mem_singleton.2 (Option.some.inj hj).symm)
  · by_cases hji : j = i
    · rw [hji, hnone] at hj
      cases hj
    · by_cases hki : k = i
      · rw [hki, hnone] at hk
        cases hk
      · exact h.apart j k p ((hstored j hji).symm.trans hj) ((hstored k hki).symm.trans hk)
  · refine List.nodup_append.2 ⟨h.once, List.pairwise_singleton _ o, fun p hp q hq hpq => ?_⟩
    rw [hpq, List.mem_singleton.1 hq] at hp
    exact hlive.2 hp
  · rcases List.mem_append.1 hp with hp | hp
    · exact h.made p hp
    · obtain rfl := List.mem_singleton.1 hp
      exact hlive.1

/-- An object is made for an `any` without a value. -/
theorem State.Sound.make (h : s.Sound T) (hi : s.stored i = none) (t : τ) :
    (({ s with made := s.made ++ [t] } : State τ).put i
      ⟨T.storage t s.made.length, some t, T.id t⟩).Sound T := by
  set s' := ({ s with made := s.made ++ [t] } : State τ).put i
    ⟨T.storage t s.made.length, some t, T.id t⟩ with hs'
  have hothers (j : Nat) (hj : j ≠ i) : s'.anys j = s.anys j := State.put_of_ne _ _ hj
  have hself : s'.anys i = some ⟨T.storage t s.made.length, some t, T.id t⟩ := State.put_self _ _ _
  have hnew : s'.stored i = some s.made.length := by
    rw [stored_eq hself, if_neg (T.id_ne_zero t), T.storage_object]
  have hfresh : s.made.length ∉ s.destroyed := fun hmem => Nat.lt_irrefl _ (h.made _ hmem)
  have hold {j p : Nat} (hj : s.stored j = some p) : p < s.made.length := (h.alive hj).1
  refine ⟨fun j x hx => ?_, fun p hp => ?_, fun j k p hj hk => ?_, h.once, fun p hp => ?_⟩
  · by_cases hj : j = i
    · subst hj
      obtain rfl := Option.some.inj (hself.symm.trans hx)
      exact .inr ⟨t, s.made.length, rfl, rfl, rfl, List.getElem?_concat_length, hfresh⟩
    · rcases h.holds j x ((hothers j hj).symm.trans hx) with hid | ⟨u, p, hid, hf, hs, hm, hp⟩
      · exact .inl hid
      · have hlt := (List.getElem?_eq_some_iff.1 hm).1
        exact .inr ⟨u, p, hid, hf, hs, (List.getElem?_append_left hlt).trans hm, hp⟩
  · obtain ⟨hlt, hmem⟩ := hp
    have hlt : p < (s.made ++ [t]).length := hlt
    rw [List.length_append, List.length_singleton] at hlt
    by_cases hp : p = s.made.length
    · exact ⟨i, by rw [hnew, hp]⟩
    · obtain ⟨j, hj⟩ := h.owned p ⟨by omega, hmem⟩
      refine ⟨j, (stored_congr (hothers j fun hji => ?_)).trans hj⟩
      rw [hji, hi] at hj
      cases hj
  · by_cases hji : j = i
    · by_cases hki : k = i
      · rw [hji, hki]
      · rw [hji, hnew] at hj
        rw [stored_congr (hothers k hki)] at hk
        have hlt := hold hk
        rw [Option.some.inj hj] at hlt
        exact absurd hlt (Nat.lt_irrefl _)
    · rw [stored_congr (hothers j hji)] at hj
      by_cases hki : k = i
      · rw [hki, hnew] at hk
        have hlt := hold hj
        rw [Option.some.inj hk] at hlt
        exact absurd hlt (Nat.lt_irrefl _)
      · rw [stored_congr (hothers k hki)] at hk
        exact h.apart j k p hj hk
  · have hlt := h.made p hp
    show p < (s.made ++ [t]).length
    rw [List.length_append]
    omega

/-! ## Each operation -/

/-- Copying what is alive makes an object, or throws and leaves things as they are. -/
theorem emplaceUninitialized_eq (hv : v.readable s) (x : Object τ) :
    emplaceUninitialized T throws i x v s =
      match v.type with
      | none => some (s.put i { x with id := 0 })
      | some t =>
          if throws then some (s.put i x)
          else some ({ s with made := s.made ++ [t] }.put i
            ⟨T.storage t s.made.length, some t, T.id t⟩) :=
  if_pos hv

/-- `emplace_uninitialized` on an `any` whose object is gone. -/
theorem State.Sound.emplace (h : (s.put i x).Sound T) (hx : x.id = 0) (hv : v.readable s) :
    ∃ t, emplaceUninitialized T throws i x v s = some t ∧ t.Sound T := by
  have hnone : (s.put i x).stored i = none := by
    refine stored_none fun y hy => ?_
    obtain rfl := Option.some.inj ((State.put_self s i x).symm.trans hy)
    exact hx
  rw [emplaceUninitialized_eq hv]
  split
  · have hsame : ({ x with id := 0 } : Object τ) = x := by
      rw [← hx]
    rw [hsame]
    exact ⟨_, rfl, h⟩
  · next t _ =>
      split_ifs
      · exact ⟨_, rfl, h⟩
      · refine ⟨_, rfl, ?_⟩
        have hmake := h.make hnone t
        rw [← State.put_put _ i x]
        exact hmake

theorem State.Sound.readable (h : s.Sound T) (hv : v.object = s.stored j) : v.readable s := by
  intro o ho
  rw [hv] at ho
  exact h.alive ho

/-- What an operation copies is alive. -/
theorem State.Sound.source_readable (h : s.Sound T) (t : τ) (source : Source) :
    (source.value s t).readable s := by
  cases source with
  | outside => exact fun o ho => by cases ho
  | inside j => exact h.readable (j := j) rfl

theorem State.Sound.other_readable (h : s.Sound T) (other : Other τ) :
    (other.value s).readable s := by
  cases other with
  | whole j => exact h.readable (j := j) rfl
  | inside j t => exact h.readable (j := j) rfl

/-- The destructor of the object of an `any`. -/
theorem State.Sound.destroyValue_eq (h : s.Sound T) (hx : s.anys i = some x)
    (ho : s.stored i = some o) :
    ∃ x', destroyValue x s = some (x', s.destruct o) ∧ x'.id = x.id ∧
      (x'.storage = .inPlace o ∨ x'.storage = .pointer none) := by
  obtain ⟨y, t, hy, -, -, hstorage, -⟩ := h.of_stored ho
  obtain rfl := Option.some.inj (hx.symm.trans hy)
  unfold destroyValue
  rw [hstorage]
  unfold Types.storage
  split_ifs
  · exact ⟨x, rfl, rfl, .inl (by rw [hstorage]; exact if_pos (by assumption))⟩
  · exact ⟨_, rfl, rfl, .inr rfl⟩

/-- What is alive after the destructor of the object of an `any`. -/
theorem Value.readable_destruct (hv : v.readable s) :
    v.readable (s.destruct o) ↔ v.object ≠ some o := by
  constructor
  · intro h heq
    exact (h o heq).2 (List.mem_append_right _ (List.mem_singleton_self o))
  · intro h p hp
    obtain ⟨hlt, hmem⟩ := hv p hp
    refine ⟨hlt, fun hor => ?_⟩
    rcases List.mem_append.1 hor with hor | hor
    · exact hmem hor
    · exact h (hp.trans (congrArg some (List.mem_singleton.1 hor)))

/-- Of what is not alive there is no copy. -/
theorem emplaceUninitialized_none (hv : ¬ v.readable s) :
    emplaceUninitialized T throws i x v s = none :=
  if_neg hv

theorem State.Sound.put_same (h : s.Sound T) (hx : s.anys i = some x) : (s.put i x).Sound T := by
  have hput : s.put i x = s := by
    unfold State.put
    rw [← hx, Function.update_eq_self]
  rw [hput]
  exact h

/-- The `any` whose object has been destroyed, without a value. -/
theorem State.Sound.put_released (h : s.Sound T) (ho : s.stored i = some o) (hx : x.id = 0) :
    ((s.destruct o).put i x).Sound T := by
  refine h.release ho (fun j hj => State.put_of_ne _ _ hj) fun y hy => ?_
  obtain rfl := Option.some.inj ((State.put_self (s.destruct o) i x).symm.trans hy)
  exact hx

/-- The path that destroys the value and constructs another one. -/
theorem State.Sound.replaced_iff (h : s.Sound T) (hx : s.anys i = some x) (hv : v.readable s) :
    (∃ t, ((destroyAny x s).bind fun r => emplaceUninitialized T throws i r.1 v r.2) = some t ∧
        t.Sound T) ↔
      s.stored i = none ∨ v.object ≠ s.stored i := by
  unfold destroyAny
  split_ifs with hid
  · have hnone : s.stored i = none := by rw [State.stored_eq hx, if_pos hid]
    exact iff_of_true ((h.put_same hx).emplace hid hv) (.inl hnone)
  · cases ho : s.stored i with
    | none => exact absurd (h.id_eq_zero hx ho) hid
    | some o =>
        obtain ⟨x', hdestroy, -, -⟩ := h.destroyValue_eq hx ho
        rw [hdestroy]
        show (∃ t, emplaceUninitialized T throws i { x' with id := 0 } v (s.destruct o) = some t ∧
          t.Sound T) ↔ _
        constructor
        · rintro ⟨t, ht, -⟩
          refine .inr ((Value.readable_destruct hv).1 ?_)
          by_contra hdead
          rw [emplaceUninitialized_none hdead] at ht
          cases ht
        · intro hsafe
          have hne : v.object ≠ some o := hsafe.resolve_left nofun
          exact (h.put_released ho rfl).emplace rfl ((Value.readable_destruct hv).2 hne)

/-- An `any` with the id of a type whose object has been destroyed. -/
theorem State.not_sound_of_dead (hx : x.id = T.id t)
    (hdead : x.storage = .inPlace o ∨ x.storage = .pointer none) (hmem : o ∈ s.destroyed) :
    ¬ (s.put i x).Sound T := by
  intro h
  rcases h.holds i x (State.put_self s i x) with hid | ⟨u, p, -, -, hstorage, -, hlive⟩
  · exact T.id_ne_zero t (hx.symm.trans hid)
  · have hobject : x.storage.object = some p := by rw [hstorage, T.storage_object]
    rcases hdead with hin | hnull
    · rw [hin] at hobject
      obtain rfl := Option.some.inj hobject
      exact hlive hmem
    · rw [hnull] at hobject
      cases hobject

/-- `table<T>::assign` -/
theorem State.Sound.assignSame_iff (h : s.Sound T) (hx : s.anys i = some x) (hid : x.id = T.id t)
    (htype : v.type = some t) (hv : v.readable s) :
    (∃ u, assignSame T throws i x t v s = some u ∧ u.Sound T) ↔
      T.isCopyAssignable t = true ∨ (throws = false ∧ v.object ≠ s.stored i) := by
  have hne : x.id ≠ 0 := by
    rw [hid]
    exact T.id_ne_zero t
  cases ho : s.stored i with
  | none => exact absurd (h.id_eq_zero hx ho) hne
  | some o =>
      unfold assignSame
      split_ifs with hcopy halive
      · exact iff_of_true ⟨s, rfl, h⟩ (.inl hcopy)
      · refine absurd ⟨hv, o, ?_, h.alive ho⟩ halive
        rw [State.stored_eq hx, if_neg hne] at ho
        exact ho
      · obtain ⟨x', hdestroy, hid', hdead⟩ := h.destroyValue_eq hx ho
        rw [hdestroy]
        show (∃ u, emplaceUninitialized T throws i x' v (s.destruct o) = some u ∧ u.Sound T) ↔ _
        by_cases hsame : v.object = some o
        · have hgone : ¬ v.readable (s.destruct o) := fun hr =>
            (Value.readable_destruct hv).1 hr hsame
          rw [emplaceUninitialized_none hgone]
          refine iff_of_false ?_ ?_
          · rintro ⟨u, hu, -⟩
            cases hu
          · rintro (hc | ⟨-, hother⟩)
            · exact hcopy hc
            · exact hother hsame
        · rw [emplaceUninitialized_eq ((Value.readable_destruct hv).2 hsame), htype]
          cases throws with
          | true =>
              -- the id still names the type of the destroyed object
              refine iff_of_false ?_ ?_
              · rintro ⟨u, hu, hsound⟩
                obtain rfl := Option.some.inj hu
                exact State.not_sound_of_dead (hid'.trans hid) hdead
                  (List.mem_append_right _ (List.mem_singleton_self o)) hsound
              · rintro (hc | ⟨hthrows, -⟩)
                · exact hcopy hc
                · cases hthrows
          | false =>
              refine iff_of_true ⟨_, rfl, ?_⟩ (.inr ⟨rfl, hsame⟩)
              set x₀ : Object τ := { x' with id := 0 } with hx₀
              have hreleased := h.put_released (x := x₀) ho rfl
              have hnone : ((s.destruct o).put i x₀).stored i = none := by
                rw [State.stored_eq (State.put_self _ i x₀)]
                exact if_pos rfl
              have hmade := hreleased.make hnone t
              rw [← State.put_put _ i x₀]
              exact hmade

/-- `assign` is sound exactly where it is safe. -/
theorem State.Sound.assignAny_iff (h : s.Sound T) (hx : s.anys i = some x) (hv : v.readable s) :
    (∃ t, assignAny T throws i v s = some t ∧ t.Sound T) ↔ assignSafe T throws i v s := by
  have hsafe : assignSafe T throws i v s ↔
      match v.type with
      | some t =>
          if x.id = T.id t then T.isCopyAssignable t = true ∨ (throws = false ∧ v.object ≠ s.stored i)
          else s.stored i = none ∨ v.object ≠ s.stored i
      | none => s.stored i = none ∨ v.object ≠ s.stored i := by
    unfold assignSafe
    constructor
    · intro hall
      exact hall x hx
    · intro hone y hy
      obtain rfl := Option.some.inj (hx.symm.trans hy)
      exact hone
  rw [hsafe]
  unfold assignAny
  rw [hx]
  cases htype : v.type with
  | none =>
      show (∃ t, (if x.id = 0 then some s else _) = some t ∧ t.Sound T) ↔ _
      split_ifs with hid
      · exact iff_of_true ⟨s, rfl, h⟩ (.inl (by rw [State.stored_eq hx, if_pos hid]))
      · exact h.replaced_iff hx hv
  | some t =>
      show (∃ u, (if x.id = T.id t then assignSame T throws i x t v s else _) = some u ∧
        u.Sound T) ↔ if x.id = T.id t then _ else _
      split_ifs with hid
      · exact h.assignSame_iff hx hid htype hv
      · exact h.replaced_iff hx hv

/-- The constructors. -/
theorem State.Sound.constructAny (h : s.Sound T) (hi : s.anys i = none) (hv : v.readable s) :
    ∃ t, constructAny T throws i v s = some t ∧ t.Sound T := by
  unfold Any.constructAny
  split_ifs with hthrows
  · exact ⟨s, rfl, h⟩
  · refine State.Sound.emplace ?_ rfl hv
    refine h.replace (State.stored_none fun x hx => ?_) (fun j hj => State.put_of_ne _ _ hj)
      fun x hx => ?_
    · rw [hi] at hx
      cases hx
    · obtain rfl := Option.some.inj ((State.put_self s i _).symm.trans hx)
      rfl

/-- The destructor. -/
theorem State.Sound.destroyAny (h : s.Sound T) (hx : s.anys i = some x) :
    ∃ x' t, destroyAny x s = some (x', t) ∧
      ({ t with anys := Function.update t.anys i none } : State τ).Sound T := by
  have hothers (j : Nat) (hj : j ≠ i) : Function.update s.anys i none j = s.anys j :=
    Function.update_of_ne hj _ _
  have hnew (y : Object τ) (hy : Function.update s.anys i none i = some y) : y.id = 0 := by
    rw [Function.update_self] at hy
    cases hy
  unfold Any.destroyAny
  split_ifs with hid
  · refine ⟨x, s, rfl, h.replace ?_ hothers hnew⟩
    rw [State.stored_eq hx, if_pos hid]
  · cases ho : s.stored i with
    | none => exact absurd (h.id_eq_zero hx ho) hid
    | some o =>
        obtain ⟨x', hdestroy, -, -⟩ := h.destroyValue_eq hx ho
        rw [hdestroy]
        exact ⟨_, _, rfl, h.release ho hothers hnew⟩

end

/-! ## Runs -/

section

variable {T : Types τ} {s : State τ}

/-- One operation: it keeps everything sound exactly if it is safe. -/
theorem State.Sound.run_iff (h : s.Sound T) {op : Op τ} (hop : op.possible s = true) :
    (∃ t, op.run T s = some t ∧ t.Sound T) ↔ op.Safe T s := by
  cases op with
  | construct i =>
      have hi : s.anys i = none := Option.isNone_iff_eq_none.1 hop
      refine iff_of_true ⟨_, rfl, ?_⟩ trivial
      refine h.replace (State.stored_none fun x hx => ?_) (fun j hj => State.put_of_ne _ _ hj)
        fun x hx => ?_
      · rw [hi] at hx
        cases hx
      · obtain rfl := Option.some.inj ((State.put_self s i _).symm.trans hx)
        rfl
  | constructCopy i other throws =>
      obtain ⟨hi, -⟩ := (Bool.and_eq_true _ _).mp hop
      exact iff_of_true (h.constructAny (Option.isNone_iff_eq_none.1 hi) (h.other_readable other))
        trivial
  | constructValue i t value throws =>
      obtain ⟨hi, -⟩ := (Bool.and_eq_true _ _).mp hop
      exact iff_of_true (h.constructAny (Option.isNone_iff_eq_none.1 hi) (h.source_readable t value))
        trivial
  | assign i other throws =>
      obtain ⟨hi, -⟩ := (Bool.and_eq_true _ _).mp hop
      obtain ⟨x, hx⟩ := Option.isSome_iff_exists.1 hi
      exact h.assignAny_iff hx (h.other_readable other)
  | assignValue i t value throws =>
      obtain ⟨hi, -⟩ := (Bool.and_eq_true _ _).mp hop
      obtain ⟨x, hx⟩ := Option.isSome_iff_exists.1 hi
      exact h.assignAny_iff hx (h.source_readable t value)
  | destroy i =>
      obtain ⟨x, hx⟩ := Option.isSome_iff_exists.1 hop
      obtain ⟨x', t, hdestroy, hsound⟩ := h.destroyAny hx
      refine iff_of_true ⟨_, ?_, hsound⟩ trivial
      simp only [Op.run, hx, hdestroy, Option.bind_eq_bind, Option.bind_some]
      rfl

/-- A program before its first `any`. -/
def State.start : State τ := ⟨fun _ => none, [], []⟩

theorem State.sound_start : (State.start : State τ).Sound T := by
  refine ⟨fun i x hx => ?_, fun o ho => ?_, fun i j o hi => ?_, List.nodup_nil, fun o ho => ?_⟩
  · cases hx
  · exact absurd ho.1 (Nat.not_lt_zero o)
  · cases hi
  · cases ho

/-- Nothing undefined has happened, and every `any` and every object is as it should be. -/
def Fine (T : Types τ) (c : Option (State τ)) : Prop :=
  ∃ s, c = some s ∧ s.Sound T

/-- The next operation of the program is safe. -/
def SafeNext (T : Types τ) (c : Option (State τ)) (op : Op τ) : Prop :=
  ∀ s, c = some s → op.Safe T s

end

/-- Along a run each stored object is destroyed once and each `any` has a live object of the type of its id
    or no value, exactly if each operation is safe: no assignment copies from the object that it destroys,
    and the copy does not throw where it replaces an object of the same type. -/
theorem fine_iff_safe (T : Types τ) (ops : List (Op τ)) :
    (system T).Along (Fine T) (some State.start) ops ↔
      (system T).Meets (SafeNext T) (some State.start) ops := by
  have hstart : Fine T (some State.start) := ⟨_, rfl, State.sound_start⟩
  refine System.along_iff_meets (I := fun _ => True) (fun _ _ _ _ _ => trivial) ?_ trivial hstart ops
  rintro _ op c - ⟨s, rfl, hs⟩ hstep
  have hstep : (if op.possible s then some (op.run T s) else none) = some c := hstep
  split_ifs at hstep with hop
  obtain rfl := Option.some.inj hstep
  have hone := hs.run_iff hop
  constructor
  · intro hfine s' hs'
    obtain rfl := Option.some.inj hs'
    exact hone.1 hfine
  · intro hsafe
    exact hone.2 (hsafe s rfl)

/-- A small type that cannot be assigned to, such as one with a constant member. -/
def constant : Types Unit where
  id _ := 1
  id_ne_zero _ := by decide
  id_injective _ _ _ := rfl
  isSmall _ := true
  isCopyAssignable _ := false

/-- An assignment of a value of the same type that throws leaves the id of the value that it has destroyed,
    and the destructor of the `any` destroys it again. -/
theorem not_fine_throwing :
    ¬ ∀ ops : List (Op Unit), (system constant).Along (Fine constant) (some State.start) ops := by
  intro h
  have halong := h [.constructValue 0 () .outside false, .assignValue 0 () .outside true, .destroy 0]
  obtain ⟨c, hrun, hdestroyed⟩ : ∃ c, (system constant).run (some State.start)
      [.constructValue 0 () .outside false, .assignValue 0 () .outside true, .destroy 0] = some c ∧
      c.map State.destroyed = some [0, 0] := ⟨_, rfl, rfl⟩
  obtain ⟨s, rfl, hs⟩ := halong.last hrun
  have honce := hs.once
  rw [Option.some.inj hdestroyed] at honce
  exact absurd honce (by decide)

end Bond.Cpp.Any

import Mathlib.Algebra.GroupWithZero.Nat
import Mathlib.Data.List.Basic
import Mathlib.Data.Option.Basic

set_option autoImplicit false

/-! # Arrays of struct lengths

`SimpleArray` (cpp/inc/bond/protocol/detail/simple_array.h), the stack in which Compact Binary keeps
the lengths of structs. Its first items are kept in the array itself, more of them on the heap.
`grow` doubles the recorded capacity before it asks for the storage, so that an allocation that fails
leaves a capacity that there is no storage for. -/

namespace Bond.Cpp.SimpleArray

variable {T : Type}

/-! ## The array -/

/-- What `_data` points to. -/
inductive Pointer where
  | insitu
  | heap (address : Nat)
deriving DecidableEq, Repr

/-- A `SimpleArray`, with the arrays on the heap that have been allocated and not been deleted. An item
    of storage is `none` until it is written. -/
structure State (T : Type) where
  size : UInt32
  capacity : UInt32
  insitu : List (Option T)
  data : Pointer
  heap : Nat → Option (List (Option T))
  /-- Addresses from here on have not been used. -/
  next : Nat

/-- `N`, of which the class asserts that it is not 0 -/
def InsituSize :=
  { N : UInt32 // N ≠ 0 }

/-- `SimpleArray()` -/
def State.initial (N : InsituSize) : State T :=
  ⟨0, N.val, List.replicate N.val.toNat none, .insitu, fun _ => none, 0⟩

/-- A call of a method. Whether storage can be allocated during a `push` is for the allocator to
    say. -/
inductive Call (T : Type) where
  | size
  | pop
  | update (i : UInt32) (x : T)
  | push (x : T) (allocates : Bool)

inductive Outcome (T : Type) where
  | done
  | size (n : UInt32)
  | item (x : Option T)
  | underflowError
  | badAlloc
deriving DecidableEq, Repr

namespace State

/-- The storage at `_data`; there is none behind a pointer that has been deleted. -/
def storage (s : State T) : Option (List (Option T)) :=
  match s.data with
  | .insitu => some s.insitu
  | .heap address => s.heap address

/-- `_data[i] = x`, which is undefined outside of the storage. -/
def write (s : State T) (i : UInt32) (x : T) : Option (State T) := do
  let block ← s.storage
  if i.toNat < block.length then
    match s.data with
    | .insitu => some { s with insitu := s.insitu.set i.toNat (some x) }
    | .heap address =>
        some { s with heap := fun a => if a = address then some (block.set i.toNat (some x))
                                       else s.heap a }
  else
    none

/-- `memfree`, which is undefined for what is not allocated. -/
def memfree (s : State T) : Option (State T) :=
  match s.data with
  | .insitu => some s
  | .heap address => do
      let _ ← s.heap address
      some { s with heap := fun a => if a = address then none else s.heap a }

/-- `_data[_size++] = x` -/
def append (s : State T) (x : T) : Option (State T) := do
  let s ← s.write s.size x
  some { s with size := s.size + 1 }

/-- `grow` -/
def grow (s : State T) (x : T) (allocates : Bool) : Option (Outcome T × State T) :=
  -- cap elements to prevent overflow
  if s.capacity ≥ (0xFFFFFFFF : UInt32) >>> 1 then
    some (.badAlloc, s)
  else do
    let s := { s with capacity := s.capacity <<< 1 }
    if !allocates then
      return (.badAlloc, s)
    let block ← s.storage
    -- `memcpy`
    if block.length < s.size.toNat ∨ s.capacity.toNat < s.size.toNat then
      none
    let newData := block.take s.size.toNat
      ++ List.replicate (s.capacity.toNat - s.size.toNat) none
    let freed ← s.memfree
    let moved := { freed with
      data := .heap s.next
      heap := fun a => if a = s.next then some newData else freed.heap a
      next := s.next + 1 }
    let s ← moved.append x
    return (.done, s)

def push (s : State T) (x : T) (allocates : Bool) : Option (Outcome T × State T) :=
  if s.size < s.capacity then do
    let s ← s.append x
    return (.done, s)
  else
    s.grow x allocates

def pop (s : State T) : Option (Outcome T × State T) :=
  if s.size = 0 then
    some (.underflowError, s)
  else do
    let size := s.size - 1
    let block ← s.storage
    let x ← block[size.toNat]?
    return (.item x, { s with size })

/-- A call; `none` where what it does is undefined. -/
def step (s : State T) : Call T → Option (Outcome T × State T)
  | .size => some (.size s.size, s)
  | .pop => s.pop
  | .update i x => do
      let s ← s.write i x
      return (.done, s)
  | .push x allocates => s.push x allocates

end State

/-! ## The stack -/

/-- What a call may do on a stack, the last item of which is its top. A `push` is refused only where
    storage cannot be allocated, or the number of items comes near to 2^31. -/
inductive StackStep : List T → Call T → Outcome T → List T → Prop
  | size (xs : List T) : StackStep xs .size (.size (UInt32.ofNat xs.length)) xs
  | pop (xs : List T) (x : T) : StackStep (xs ++ [x]) .pop (.item (some x)) xs
  | popEmpty : StackStep [] .pop .underflowError []
  | update (xs : List T) (i : UInt32) (x : T) :
      StackStep xs (.update i x) .done (xs.set i.toNat x)
  | push (xs : List T) (x : T) (allocates : Bool) :
      StackStep xs (.push x allocates) .done (xs ++ [x])
  | pushRefused (xs : List T) (x : T) : StackStep xs (.push x false) .badAlloc xs
  | pushCapped (xs : List T) (x : T) (allocates : Bool) (h : 2 ^ 31 - 1 ≤ xs.length) :
      StackStep xs (.push x allocates) .badAlloc xs

/-- The array holds the items of the stack. On the heap there is its storage and nothing else. -/
structure Represents (s : State T) (xs : List T) : Prop where
  size : s.size.toNat = xs.length
  capacity : s.size ≤ s.capacity
  contents : ∃ block, s.storage = some block ∧ block.take xs.length = xs.map some
  live : ∀ address, (s.heap address).isSome ↔ s.data = .heap address

/-- One step of the array for one of the stack. A capacity that changes is doubled without being
    wrapped. -/
def StepBehaves (s : State T) (xs : List T) (call : Call T) (s' : State T) (xs' : List T) : Prop :=
  ∃ outcome, s.step call = some (outcome, s') ∧ StackStep xs call outcome xs' ∧ Represents s' xs' ∧
    (s'.capacity = s.capacity ∨ s'.capacity.toNat = 2 * s.capacity.toNat)

/-- Every call behaves as on a stack. -/
inductive Behaves : State T → List T → List (Call T) → Prop
  | nil (s : State T) (xs : List T) : Behaves s xs []
  | cons {s s' : State T} {xs xs' : List T} {call : Call T} {calls : List (Call T)}
      (head : StepBehaves s xs call s' xs') (tail : Behaves s' xs' calls) :
      Behaves s xs (call :: calls)

/-! ## When it does -/

/-- How many items there is storage for. -/
def State.stored (s : State T) : Nat :=
  (s.storage.getD []).length

/-- An update is within the storage, and a `push` does not come when the storage is full and the
    capacity is larger, as after an allocation that has failed. -/
def Fine (s : State T) : Call T → Prop
  | .size | .pop => True
  | .update i _ => i.toNat < s.stored
  | .push _ _ => s.size.toNat = s.stored → s.capacity.toNat = s.stored

/-- Every call of a run is fine in the state it comes in. -/
def FineAlong (s : State T) : List (Call T) → Prop
  | [] => True
  | call :: calls => Fine s call ∧ ∀ outcome s', s.step call = some (outcome, s') → FineAlong s' calls

/-! ## The invariant -/

/-- What holds in every state of a run: the items are in the storage, which is not larger than the
    capacity. -/
structure Invariant (s : State T) (xs : List T) (block : List (Option T)) : Prop where
  represents : Represents s xs
  storage : s.storage = some block
  contents : block.take xs.length = xs.map some
  length_le : xs.length ≤ block.length
  block_le : block.length ≤ s.capacity.toNat
  capacity_pos : 0 < s.capacity.toNat
  fresh : ∀ address, s.next ≤ address → s.heap address = none

section

variable {s s' : State T} {xs xs' : List T} {block : List (Option T)} {x : T}

theorem Invariant.stored_eq (h : Invariant s xs block) : s.stored = block.length := by
  rw [State.stored, h.storage, Option.getD_some]

theorem Invariant.initial (N : InsituSize) :
    Invariant (State.initial N : State T) [] (List.replicate N.val.toNat none) where
  represents := {
    size := rfl
    capacity := UInt32.zero_le
    contents := ⟨_, rfl, rfl⟩
    live := fun _ => ⟨nofun, nofun⟩ }
  storage := rfl
  contents := rfl
  length_le := Nat.zero_le _
  block_le := Nat.le_of_eq List.length_replicate
  capacity_pos := by
    have hne : N.val.toNat ≠ 0 := fun h => N.property (UInt32.toNat_inj.1 h)
    exact Nat.pos_of_ne_zero hne
  fresh := fun _ _ => rfl

/-- An array represents one stack. -/
theorem Represents.unique (h : Represents s xs) (h' : Represents s xs') : xs = xs' := by
  obtain ⟨block, hblock, hcontents⟩ := h.contents
  obtain ⟨block', hblock', hcontents'⟩ := h'.contents
  obtain rfl := Option.some.inj (hblock.symm.trans hblock')
  have hlength : xs.length = xs'.length := h.size.symm.trans h'.size
  rw [← hlength, hcontents] at hcontents'
  exact List.map_injective_iff.2 (Option.some_injective T) hcontents'

/-! ## Writing -/

/-- The state is the same but for its storage. -/
structure Written (s s' : State T) (block : List (Option T)) : Prop where
  size : s'.size = s.size
  capacity : s'.capacity = s.capacity
  data : s'.data = s.data
  next : s'.next = s.next
  storage : s'.storage = some block
  heap : ∀ address, (s'.heap address).isSome = (s.heap address).isSome

theorem exists_write (hstorage : s.storage = some block) {i : UInt32} (hi : i.toNat < block.length) :
    ∃ s', s.write i x = some s' ∧ Written s s' (block.set i.toNat (some x)) := by
  simp only [State.write, hstorage, Option.bind_eq_bind, Option.bind_some, if_pos hi]
  unfold State.storage at hstorage
  split at hstorage
  · next hdata =>
      obtain rfl := Option.some.inj hstorage
      rw [hdata]
      exact ⟨_, rfl, rfl, rfl, hdata.symm, rfl, rfl, fun _ => rfl⟩
  · next address hdata =>
      rw [hdata]
      refine ⟨_, rfl, rfl, rfl, hdata.symm, rfl, if_pos rfl, fun a => ?_⟩
      dsimp only
      split
      · next ha =>
          rw [ha, hstorage]
          rfl
      · rfl

/-- A write outside of the storage is undefined. -/
theorem write_eq_none (hstorage : s.storage = some block) {i : UInt32}
    (hi : ¬ i.toNat < block.length) : s.write i x = none := by
  simp only [State.write, hstorage, Option.bind_eq_bind, Option.bind_some, if_neg hi]

theorem Written.live (h : Written s s' block)
    (hlive : ∀ address, (s.heap address).isSome ↔ s.data = .heap address) (address : Nat) :
    (s'.heap address).isSome ↔ s'.data = .heap address := by
  rw [h.heap, h.data]
  exact hlive address

theorem Written.fresh (h : Written s s' block)
    (hfresh : ∀ address, s.next ≤ address → s.heap address = none) (address : Nat)
    (hle : s'.next ≤ address) : s'.heap address = none := by
  have hsome := h.heap address
  rw [hfresh address (h.next ▸ hle), Option.isSome_none] at hsome
  exact Option.isSome_eq_false_iff.1 hsome |> Option.isNone_iff_eq_none.1

theorem take_set_eq {i : Nat} (h : block.take xs.length = xs.map some) :
    (block.set i (some x)).take (xs.set i x).length = (xs.set i x).map some := by
  rw [List.length_set, List.take_set, h, List.map_set]

theorem take_append_eq (h : block.take xs.length = xs.map some) (hlt : xs.length < block.length) :
    (block.set xs.length (some x)).take (xs ++ [x]).length = (xs ++ [x]).map some := by
  have hlength : (block.take xs.length).length = xs.length :=
    List.length_take_of_le (Nat.le_of_lt hlt)
  rw [List.length_append, List.length_singleton, List.take_set, List.map_append, ← h,
    List.take_add_one, List.getElem?_eq_getElem hlt, Option.toList_some,
    List.set_append_right _ _ (Nat.le_of_eq hlength), hlength, Nat.sub_self]
  rfl

/-- The top of the stack is in its place, and the others in front of it. -/
theorem top_of_contents {ys : List T} {y : T}
    (h : block.take (ys ++ [y]).length = (ys ++ [y]).map some) :
    block[ys.length]? = some (some y) ∧ block.take ys.length = ys.map some := by
  obtain ⟨rest, rfl⟩ : ∃ rest, block = ys.map some ++ some y :: rest := by
    refine ⟨block.drop (ys ++ [y]).length, ?_⟩
    have hsplit := List.take_append_drop (ys ++ [y]).length block
    rw [h, List.map_append, List.append_assoc] at hsplit
    exact hsplit.symm
  constructor
  · simp
  · simp

/-- An item behind those that are there, where there is storage for it. -/
theorem exists_append (h : Invariant s xs block) (hlt : xs.length < block.length) :
    ∃ s', s.append x = some s' ∧ s'.capacity = s.capacity ∧
      Invariant s' (xs ++ [x]) (block.set xs.length (some x)) := by
  have hsize := h.represents.size
  obtain ⟨s', hwrite, hwritten⟩ := exists_write (x := x) (i := s.size) h.storage (by omega)
  rw [hsize] at hwritten
  have hbound := s.capacity.toNat_lt
  have hblock := h.block_le
  have hsucc : (s.size + 1).toNat = xs.length + 1 := by
    rw [UInt32.toNat_add, hsize]
    exact Nat.mod_eq_of_lt (by show xs.length + 1 < _; omega)
  have hcontents := take_append_eq (x := x) h.contents hlt
  refine ⟨{ s' with size := s.size + 1 }, ?_, hwritten.capacity, ?_⟩
  · rw [State.append, hwrite, ← hwritten.size]
    rfl
  · refine ⟨⟨?_, ?_, ⟨_, hwritten.storage, hcontents⟩, ?_⟩, hwritten.storage, hcontents, ?_, ?_, ?_,
      ?_⟩
    · rw [List.length_append, List.length_singleton]
      exact hsucc
    · show s.size + 1 ≤ s'.capacity
      rw [hwritten.capacity, UInt32.le_iff_toNat_le, hsucc]
      omega
    · exact hwritten.live h.represents.live
    · rw [List.length_append, List.length_singleton, List.length_set]
      exact hlt
    · show _ ≤ s'.capacity.toNat
      rw [List.length_set, hwritten.capacity]
      exact hblock
    · show 0 < s'.capacity.toNat
      rw [hwritten.capacity]
      exact h.capacity_pos
    · exact hwritten.fresh h.fresh

/-! ## Each call -/

theorem exists_update (h : Invariant s xs block) {i : UInt32} (hi : i.toNat < block.length) :
    ∃ s' xs' block', StepBehaves s xs (.update i x) s' xs' ∧ Invariant s' xs' block' := by
  obtain ⟨s', hwrite, hwritten⟩ := exists_write (x := x) h.storage hi
  have hcontents := take_set_eq (x := x) (i := i.toNat) h.contents
  have hrepresents : Represents s' (xs.set i.toNat x) := by
    refine ⟨?_, ?_, ⟨_, hwritten.storage, hcontents⟩, hwritten.live h.represents.live⟩
    · rw [hwritten.size, List.length_set, h.represents.size]
    · rw [hwritten.size, hwritten.capacity]
      exact h.represents.capacity
  refine ⟨s', xs.set i.toNat x, _, ⟨.done, ?_, .update xs i x, hrepresents, .inl hwritten.capacity⟩,
    hrepresents, hwritten.storage, hcontents, ?_, ?_, ?_, hwritten.fresh h.fresh⟩
  · show (s.write i x).bind _ = _
    rw [hwrite]
    rfl
  · rw [List.length_set, List.length_set]
    exact h.length_le
  · rw [List.length_set, hwritten.capacity]
    exact h.block_le
  · rw [hwritten.capacity]
    exact h.capacity_pos

theorem exists_pop (h : Invariant s xs block) :
    ∃ s' xs' block', StepBehaves s xs .pop s' xs' ∧ Invariant s' xs' block' := by
  have hsize := h.represents.size
  rcases List.eq_nil_or_concat xs with rfl | ⟨ys, y, rfl⟩
  · have hzero : s.size = 0 := UInt32.toNat_inj.1 hsize
    exact ⟨s, [], block, ⟨.underflowError, if_pos hzero, .popEmpty, h.represents, .inl rfl⟩, h⟩
  · rw [List.concat_eq_append] at h hsize ⊢
    rw [List.length_append, List.length_singleton] at hsize
    have hne : s.size ≠ 0 := by
      intro hzero
      rw [hzero] at hsize
      exact absurd hsize (by show 0 ≠ _; omega)
    have hpred : (s.size - 1).toNat = ys.length := by
      have hle : (1 : UInt32) ≤ s.size := by
        rw [UInt32.le_iff_toNat_le, hsize]
        exact Nat.le_add_left 1 _
      rw [UInt32.toNat_sub_of_le _ _ hle, hsize]
      rfl
    obtain ⟨hlast, hfront⟩ := top_of_contents h.contents
    have hle := h.length_le
    rw [List.length_append, List.length_singleton] at hle
    have hrepresents : Represents { s with size := s.size - 1 } ys := by
      refine ⟨hpred, ?_, ⟨block, h.storage, hfront⟩, h.represents.live⟩
      have hcapacity := h.represents.capacity
      rw [UInt32.le_iff_toNat_le] at hcapacity ⊢
      show (s.size - 1).toNat ≤ s.capacity.toNat
      omega
    refine ⟨{ s with size := s.size - 1 }, ys, block, ⟨.item (some y), ?_, .pop ys y, hrepresents,
      .inl rfl⟩, hrepresents, h.storage, hfront, by omega, h.block_le, h.capacity_pos, h.fresh⟩
    show s.pop = _
    rw [State.pop, if_neg hne, h.storage]
    show (block[(s.size - 1).toNat]?).bind _ = _
    rw [hpred, hlast]
    rfl

/-- The half of the largest `uint32_t` -/
theorem cap_toNat : ((0xFFFFFFFF : UInt32) >>> 1).toNat = 2 ^ 31 - 1 := by
  decide

/-- A capacity below the cap is doubled. -/
theorem shiftLeft_toNat {capacity : UInt32} (h : capacity.toNat < 2 ^ 31 - 1) :
    (capacity <<< 1).toNat = 2 * capacity.toNat := by
  rw [UInt32.toNat_shiftLeft, Nat.shiftLeft_eq]
  show capacity.toNat * 2 ^ 1 % 2 ^ 32 = _
  rw [Nat.mod_eq_of_lt (by omega)]
  omega

/-- The capacity has been doubled for an allocation that fails. -/
theorem Invariant.double (h : Invariant s xs block) (hcap : s.capacity.toNat < 2 ^ 31 - 1) :
    Invariant { s with capacity := s.capacity <<< 1 } xs block := by
  have hdouble := shiftLeft_toNat hcap
  have hpos := h.capacity_pos
  have hblock := h.block_le
  have hlength := h.length_le
  refine ⟨⟨h.represents.size, ?_, h.represents.contents, h.represents.live⟩, h.storage, h.contents,
    hlength, ?_, ?_, h.fresh⟩
  · rw [UInt32.le_iff_toNat_le, h.represents.size]
    show _ ≤ (s.capacity <<< 1).toNat
    omega
  · show _ ≤ (s.capacity <<< 1).toNat
    omega
  · show 0 < (s.capacity <<< 1).toNat
    omega

/-- The items after they have been copied to larger storage. -/
def grown (s : State T) (xs : List T) : List (Option T) :=
  xs.map some ++ List.replicate (s.capacity.toNat - xs.length) none

/-- `memfree`, also at the end of the life of the array, leaves nothing on the heap. -/
theorem exists_memfree (h : Represents s xs) :
    ∃ freed, s.memfree = some freed ∧ freed.size = s.size ∧ freed.capacity = s.capacity ∧
      ∀ address, freed.heap address = none := by
  have hnone (address : Nat) (hne : s.data ≠ .heap address) : s.heap address = none :=
    Option.not_isSome_iff_eq_none.1 fun hsome => hne ((h.live address).1 hsome)
  unfold State.memfree
  split
  · next hdata =>
      refine ⟨s, rfl, rfl, rfl, fun address => hnone address ?_⟩
      rw [hdata]
      nofun
  · next address hdata =>
      obtain ⟨block, hblock⟩ := Option.isSome_iff_exists.1 ((h.live address).2 hdata)
      rw [hblock]
      refine ⟨_, rfl, rfl, rfl, fun a => ?_⟩
      dsimp only
      split
      · rfl
      · next hne =>
          refine hnone a fun heq => hne ?_
          rw [hdata] at heq
          exact (Pointer.heap.inj heq).symm

/-- The items are copied to larger storage, and the storage on the heap that they were in is
    deleted. -/
theorem exists_move (h : Invariant s xs block) :
    ∃ freed, s.memfree = some freed ∧ freed.capacity = s.capacity ∧
      Invariant { freed with
        data := .heap s.next
        heap := fun a => if a = s.next then some (grown s xs) else freed.heap a
        next := s.next + 1 } xs (grown s xs) := by
  have hlength : (grown s xs).length = s.capacity.toNat := by
    have hle := h.length_le
    have hblock := h.block_le
    rw [grown, List.length_append, List.length_map, List.length_replicate]
    omega
  have hcontents : (grown s xs).take xs.length = xs.map some := by
    simp [grown]
  obtain ⟨freed, hfreed, hsize, hcapacity, hheap⟩ := exists_memfree h.represents
  have hle := h.length_le
  have hblock := h.block_le
  refine ⟨freed, hfreed, hcapacity, ⟨hsize ▸ h.represents.size, ?_, ⟨_, if_pos rfl, hcontents⟩,
    fun a => ?_⟩, if_pos rfl, hcontents, ?_, ?_, ?_, fun a hnext => ?_⟩
  · show freed.size ≤ freed.capacity
    rw [hsize, hcapacity]
    exact h.represents.capacity
  · show (if a = s.next then _ else freed.heap a).isSome ↔ _
    split
    · next ha => exact ⟨fun _ => by rw [ha], fun _ => rfl⟩
    · next hne =>
        rw [hheap]
        exact ⟨nofun, fun heq => absurd (Pointer.heap.inj heq).symm hne⟩
  · omega
  · show _ ≤ freed.capacity.toNat
    rw [hcapacity]
    exact Nat.le_of_eq hlength
  · show 0 < freed.capacity.toNat
    rw [hcapacity]
    exact h.capacity_pos
  · have hne : a ≠ s.next := Nat.ne_of_gt hnext
    exact (if_neg hne).trans (hheap a)

theorem exists_grow (h : Invariant s xs block) (hfull : xs.length = s.capacity.toNat)
    (hstored : block.length = s.capacity.toNat) (allocates : Bool) :
    ∃ s' xs' block', (∃ outcome, s.grow x allocates = some (outcome, s') ∧
        StackStep xs (.push x allocates) outcome xs') ∧ Invariant s' xs' block' ∧
      (s'.capacity = s.capacity ∨ s'.capacity.toNat = 2 * s.capacity.toNat) := by
  have hcap := cap_toNat
  by_cases hlarge : s.capacity ≥ (0xFFFFFFFF : UInt32) >>> 1
  · refine ⟨s, xs, block, ⟨.badAlloc, if_pos hlarge, .pushCapped xs x allocates ?_⟩, h, .inl rfl⟩
    rw [ge_iff_le, UInt32.le_iff_toNat_le, hcap] at hlarge
    omega
  have hlt : s.capacity.toNat < 2 ^ 31 - 1 := by
    rw [ge_iff_le, UInt32.le_iff_toNat_le, hcap] at hlarge
    omega
  have hdouble := shiftLeft_toNat hlt
  have hdoubled := h.double hlt
  set s₁ : State T := { s with capacity := s.capacity <<< 1 } with hs₁
  cases allocates with
  | false =>
      refine ⟨s₁, xs, block, ⟨.badAlloc, ?_, .pushRefused xs x⟩, hdoubled, .inr hdouble⟩
      rw [State.grow, if_neg hlarge]
      rfl
  | true =>
      obtain ⟨freed, hfreed, hcapacity, hmoved⟩ := exists_move hdoubled
      have hpos := h.capacity_pos
      have hroom : xs.length < (grown s₁ xs).length := by
        have hlength : s₁.capacity.toNat = 2 * s.capacity.toNat := hdouble
        rw [grown, List.length_append, List.length_map, List.length_replicate]
        omega
      obtain ⟨s', happend, hsame, hs'⟩ := exists_append (x := x) hmoved hroom
      refine ⟨s', xs ++ [x], _, ⟨.done, ?_, .push xs x true⟩, hs', .inr ?_⟩
      · have hsize : s₁.size.toNat = xs.length := h.represents.size
        have hfits : ¬ (block.length < s₁.size.toNat ∨ s₁.capacity.toNat < s₁.size.toNat) := by
          have hlength : s₁.capacity.toNat = 2 * s.capacity.toNat := hdouble
          omega
        have hcopy : block.take s₁.size.toNat
            ++ List.replicate (s₁.capacity.toNat - s₁.size.toNat) none = grown s₁ xs := by
          rw [hsize, h.contents, grown]
        rw [State.grow, if_neg hlarge]
        show (s₁.storage.bind _) = _
        rw [hdoubled.storage, Option.bind_some, if_neg hfits]
        show (s₁.memfree.bind _) = _
        rw [hfreed, Option.bind_some, hcopy]
        show (State.append _ x).bind _ = _
        rw [happend]
        rfl
      · rw [hsame]
        exact (congrArg UInt32.toNat hcapacity).trans hdouble

theorem exists_push (h : Invariant s xs block) {allocates : Bool} (hfine : Fine s (.push x allocates)) :
    ∃ s' xs' block', StepBehaves s xs (.push x allocates) s' xs' ∧ Invariant s' xs' block' := by
  have hsize := h.represents.size
  have hle := h.length_le
  have hblock := h.block_le
  have hstored := h.stored_eq
  by_cases hlt : s.size < s.capacity
  · have hroom : xs.length < block.length := by
      rw [UInt32.lt_iff_toNat_lt] at hlt
      have hcapacity : s.size.toNat = s.stored → s.capacity.toNat = s.stored := hfine
      omega
    obtain ⟨s', happend, hsame, hs'⟩ := exists_append (x := x) h hroom
    refine ⟨s', xs ++ [x], _, ⟨.done, ?_, .push xs x allocates, hs'.represents, .inl hsame⟩, hs'⟩
    show s.push x allocates = _
    rw [State.push, if_pos hlt, happend]
    rfl
  · have hcapacity := h.represents.capacity
    rw [UInt32.lt_iff_toNat_lt] at hlt
    rw [UInt32.le_iff_toNat_le] at hcapacity
    have hsame : s.size.toNat = s.stored → s.capacity.toNat = s.stored := hfine
    obtain ⟨s', xs', block', ⟨outcome, hgrow, hstack⟩, hs', hchange⟩ :=
      exists_grow (x := x) h (by omega) (by omega) allocates
    refine ⟨s', xs', block', ⟨outcome, ?_, hstack, hs'.represents, hchange⟩, hs'⟩
    show s.push x allocates = _
    rw [State.push, if_neg (by rw [UInt32.lt_iff_toNat_lt]; exact hlt), hgrow]

/-- A fine call does what it does on a stack, and keeps the invariant. -/
theorem exists_step (h : Invariant s xs block) {call : Call T} (hfine : Fine s call) :
    ∃ s' xs' block', StepBehaves s xs call s' xs' ∧ Invariant s' xs' block' := by
  cases call with
  | size =>
      refine ⟨s, xs, block, ⟨.size s.size, rfl, ?_, h.represents, .inl rfl⟩, h⟩
      have hsize : s.size = UInt32.ofNat xs.length := by
        rw [← h.represents.size, UInt32.ofNat_toNat]
      rw [hsize]
      exact .size xs
  | pop => exact exists_pop h
  | update i x => exact exists_update h (h.stored_eq ▸ hfine)
  | push x allocates => exact exists_push h hfine

/-- What a call does that is not fine is undefined. -/
theorem step_eq_none (h : Invariant s xs block) {call : Call T} (hfine : ¬ Fine s call) :
    s.step call = none := by
  have hstored := h.stored_eq
  cases call with
  | size => exact absurd trivial hfine
  | pop => exact absurd trivial hfine
  | update i x =>
      have hout : ¬ i.toNat < block.length := hstored ▸ hfine
      show (s.write i x).bind _ = _
      rw [write_eq_none h.storage hout]
      rfl
  | push x allocates =>
      obtain ⟨hfull, hlarger⟩ := Classical.not_imp.1 hfine
      have hblock := h.block_le
      have hlt : s.size < s.capacity := by
        rw [UInt32.lt_iff_toNat_lt]
        omega
      show s.push x allocates = _
      rw [State.push, if_pos hlt]
      show ((s.write s.size x).bind _).bind _ = _
      rw [write_eq_none h.storage (by omega)]
      rfl

end

/-! ## Runs -/

theorem behaves_iff_of_invariant {s : State T} {xs : List T} {block : List (Option T)}
    (h : Invariant s xs block) (calls : List (Call T)) : Behaves s xs calls ↔ FineAlong s calls := by
  induction calls generalizing s xs block with
  | nil => exact ⟨fun _ => trivial, fun _ => .nil s xs⟩
  | cons call calls ih =>
      constructor
      · intro hbehaves
        obtain - | ⟨⟨outcome, hstep, hstack, hrepresents, hchange⟩, htail⟩ := hbehaves
        have hfine : Fine s call := by
          by_contra hnot
          rw [step_eq_none h hnot] at hstep
          cases hstep
        obtain ⟨s', xs', block', ⟨outcome', hstep', -, -, -⟩, hs'⟩ := exists_step h hfine
        rw [hstep] at hstep'
        obtain ⟨rfl, rfl⟩ := Prod.mk.inj (Option.some.inj hstep')
        obtain rfl := hrepresents.unique hs'.represents
        refine ⟨hfine, fun outcome'' s'' hstep'' => ?_⟩
        rw [hstep] at hstep''
        obtain ⟨rfl, rfl⟩ := Prod.mk.inj (Option.some.inj hstep'')
        exact (ih hs').1 htail
      · intro hfine
        obtain ⟨s', xs', block', hhead, hs'⟩ := exists_step h hfine.1
        have ⟨outcome, hstep, _⟩ := hhead
        exact .cons hhead ((ih hs').2 (hfine.2 outcome s' hstep))

/-- A new array behaves as a stack in a run if and only if every call of the run is fine: its updates
    are within the storage, and no `push` comes when the storage is full and an allocation has
    failed. -/
theorem behaves_iff (N : InsituSize) (calls : List (Call T)) :
    Behaves (State.initial N) [] calls ↔ FineAlong (State.initial N) calls :=
  behaves_iff_of_invariant (.initial N) calls

/-- A second attempt after an allocation has failed writes behind the end of the array. -/
theorem push_after_badAlloc :
    ¬ ∀ (N : InsituSize) (calls : List (Call UInt32)), Behaves (State.initial N) [] calls := by
  intro h
  have hfine := (behaves_iff_of_invariant (.initial ⟨1, by decide⟩) _).1
    (h ⟨1, by decide⟩ [.push 7 true, .push 8 false, .push 8 true])
  have hsecond := (hfine.2 _ _ rfl).2 _ _ rfl
  -- There is storage for one item and it is there, but the capacity is two.
  exact absurd (hsecond.1 rfl) (by decide)

end Bond.Cpp.SimpleArray

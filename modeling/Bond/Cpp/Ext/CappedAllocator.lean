import Bond.Lib.Pool
import Bond.Lib.System
import Mathlib.Data.Nat.Cast.Basic
import Mathlib.Tactic.Ring

set_option autoImplicit false

/-! # Capped allocation

`capped_allocator` (cpp/inc/bond/ext/capped_allocator.h) over a counter that its copies share:
`single_threaded_counter`, of which each call is one step, and `multi_threaded_counter`, of which
each atomic operation is. Sizes are computed in the `size_type` of the allocator and converted to
the `value_type` of the counter. -/

namespace Bond.Cpp.Ext

open Bond.Lib

namespace CappedAllocator

/-! ## Numbers -/

/-- An integral type. -/
structure ValueType where
  bits : Nat
  signed : Bool
deriving DecidableEq, Repr

/-- Conversion to the type. -/
def ValueType.convert (T : ValueType) (x : Int) : Int :=
  if T.signed then x.bmod (2 ^ T.bits) else x % 2 ^ T.bits

def ValueType.max (T : ValueType) : Int :=
  if T.signed then 2 ^ (T.bits - 1) - 1 else 2 ^ T.bits - 1

theorem ValueType.convert_eq {T : ValueType} {x : Int} (h0 : 0 ≤ x) (h : x ≤ T.max) :
    T.convert x = x := by
  unfold convert
  unfold max at h
  split_ifs with hsigned
  · rw [if_pos hsigned] at h
    refine Int.bmod_eq_of_le_mul_two ?_ ?_
    · have hpos : (0 : Int) ≤ ((2 ^ T.bits : Nat) : Int) := Int.natCast_nonneg _
      omega
    · push_cast
      cases hbits : T.bits with
      | zero =>
          rw [hbits] at h
          have hx : x ≤ 0 := by simpa using h
          omega
      | succ k =>
          rw [hbits, Nat.add_sub_cancel] at h
          have hdouble : (2 : Int) ^ (k + 1) = 2 ^ k * 2 := pow_succ 2 k
          omega
  · rw [if_neg hsigned] at h
    exact Int.emod_eq_of_lt h0 (by omega)

/-- A counter and the allocators over it: the `value_type` of the counter and its `max_value`, which is
    one of the values of the type and not negative, and the width of `size_type`. -/
structure Config where
  valueType : ValueType
  sizeBits : Nat
  maxValue : Int
  nonneg : 0 ≤ maxValue
  representable : maxValue ≤ valueType.max

/-- What `allocate` is asked for: a number of items of some size, by an allocator that subtracts on
    deallocation or does not. -/
structure Block where
  n : Nat
  sizeof : Nat
  subtracts : Bool
deriving DecidableEq, Repr

def Block.bytes (b : Block) : Nat :=
  b.n * b.sizeof

/-- `n * sizeof(value_type)`, as the counter is given it -/
def Block.size (c : Config) (b : Block) : Int :=
  c.valueType.convert (b.bytes % 2 ^ c.sizeBits : Nat)

/-! ## States -/

/-- What a thread is doing. -/
inductive Phase where
  | idle
  /-- `try_add` is about to load the value -/
  | loading (block : Block)
  /-- `try_add` is about to compare and exchange the value it has seen -/
  | comparing (block : Block) (value : Int)
  /-- `try_add` has returned true, the underlying allocation is under way -/
  | reserved (block : Block)
  /-- the underlying allocation has thrown, `subtract` is next -/
  | unwinding (block : Block)
  /-- the underlying deallocation is done, `subtract` is next -/
  | subtracting (block : Block)
deriving DecidableEq, Repr

/-- Whether `try_add` has refused a block, and the value of the counter that made it decide. -/
structure Decision where
  block : Block
  value : Int
  granted : Bool
deriving DecidableEq, Repr

structure State where
  /-- the value of the counter -/
  value : Int
  threads : List Phase
  live : List Block
  /-- the blocks deallocated by allocators that do not subtract -/
  kept : List Block
  decisions : List Decision
deriving DecidableEq, Repr

/-- A new counter, with `threads` threads. -/
def State.init (threads : Nat) : State where
  value := 0
  threads := List.replicate threads .idle
  live := []
  kept := []
  decisions := []

variable (c : Config)

def State.decide (s : State) (block : Block) (granted : Bool) : State :=
  { s with decisions := s.decisions ++ [⟨block, s.value, granted⟩] }

/-- `subtract` -/
def State.subtract (s : State) (block : Block) : State :=
  { s with value := c.valueType.convert (s.value - block.size c) }

/-! ## One thread -/

/-- A call on an allocator, and whether the underlying allocation returns. -/
inductive Call where
  | allocate (block : Block) (returns : Bool)
  /-- `deallocate` of one of the live blocks -/
  | deallocate (index : Nat)
deriving DecidableEq, Repr

namespace SingleThreaded

/-- `single_threaded_counter::try_add` -/
def tryAdd (s : State) (block : Block) : State × Bool :=
  let n := block.size c
  if n ≤ c.maxValue ∧ s.value ≤ c.maxValue - n then
    ({ s.decide block true with value := c.valueType.convert (s.value + n) }, true)
  else
    (s.decide block false, false)

def call (s : State) : Call → Option State
  | .allocate block returns =>
      let (s, added) := tryAdd c s block
      if added then
        if returns then some { s with live := s.live ++ [block] } else some (s.subtract c block)
      else some s
  | .deallocate index =>
      match s.live[index]? with
      | some block =>
          let s := { s with live := s.live.eraseIdx index }
          if block.subtracts then some (s.subtract c block)
          else some { s with kept := s.kept ++ [block] }
      | none => none

/-- The calls, one after the other. -/
def system : System State Call where
  step := call c

end SingleThreaded

/-- `shared_counter::allocate_counter`: the counter itself takes `own` bytes of what it counts. They are
    allocated by a capped allocator over a `single_threaded_counter`, and added to the new counter. -/
def allocateCounter (own : Nat) (returns : Bool) (threads : Nat) : Option State :=
  match SingleThreaded.call c (.init 0) (.allocate ⟨own, 1, true⟩ returns) with
  | some counter =>
      if counter.live = [] then none
      else if counter.value ≤ c.maxValue ∧ 0 ≤ c.maxValue - counter.value then
        some { State.init threads with value := counter.value, live := counter.live }
      else some { State.init threads with live := counter.live }
  | none => none


/-! ## Any number of threads -/

inductive Action where
  /-- the call of `allocate`, and the first comparison of `try_add` -/
  | allocate (thread : Nat) (block : Block)
  /-- `_value.load` -/
  | load (thread : Nat)
  /-- `_value.compare_exchange_weak`, which may fail for no reason -/
  | compareExchange (thread : Nat) (spurious : Bool)
  /-- the underlying allocation returns or throws -/
  | allocated (thread : Nat) (returns : Bool)
  /-- the call of `deallocate` for one of the live blocks, and the underlying deallocation -/
  | deallocate (thread index : Nat)
  /-- `_value.fetch_sub` -/
  | subtract (thread : Nat)
deriving DecidableEq, Repr

namespace MultiThreaded

def setPhase (s : State) (thread : Nat) (phase : Phase) : State :=
  { s with threads := s.threads.set thread phase }

/-- The condition of the loop in `try_add`, for the value just seen. -/
def loop (s : State) (thread : Nat) (block : Block) : State :=
  if s.value ≤ c.maxValue - block.size c then
    setPhase s thread (.comparing block s.value)
  else
    setPhase (s.decide block false) thread .idle

def step (s : State) : Action → Option State
  | .allocate thread block =>
      match s.threads[thread]? with
      | some .idle =>
          if block.size c ≤ c.maxValue then some (setPhase s thread (.loading block))
          else some (s.decide block false)
      | _ => none
  | .load thread =>
      match s.threads[thread]? with
      | some (.loading block) => some (loop c s thread block)
      | _ => none
  | .compareExchange thread spurious =>
      match s.threads[thread]? with
      | some (.comparing block value) =>
          if s.value = value ∧ spurious = false then
            some { setPhase (s.decide block true) thread (.reserved block) with
              value := c.valueType.convert (value + block.size c) }
          else
            some (loop c s thread block)
      | _ => none
  | .allocated thread returns =>
      match s.threads[thread]? with
      | some (.reserved block) =>
          if returns then some { setPhase s thread .idle with live := s.live ++ [block] }
          else some (setPhase s thread (.unwinding block))
      | _ => none
  | .deallocate thread index =>
      match s.threads[thread]?, s.live[index]? with
      | some .idle, some block =>
          let s := { s with live := s.live.eraseIdx index }
          if block.subtracts then some (setPhase s thread (.subtracting block))
          else some { s with kept := s.kept ++ [block] }
      | _, _ => none
  | .subtract thread =>
      match s.threads[thread]? with
      | some (.unwinding block) | some (.subtracting block) =>
          some (setPhase (s.subtract c block) thread .idle)
      | _ => none

def system : System State Action where
  step := step c

end MultiThreaded

/-! ## The property -/

/-- The bytes that the counter has to account for while a thread is in `allocate` or `deallocate`. -/
def Phase.counted : Phase → Nat
  | .reserved block | .unwinding block | .subtracting block => block.bytes
  | _ => 0

/-- The counter stands for the live blocks, for those that an allocator which does not subtract has
    deallocated, and for those that a thread is about to allocate or to subtract; it is never above
    its maximum, and a block is refused exactly if it would bring it there. -/
structure State.Safe (s : State) : Prop where
  value_eq : s.value = (Pool.total Block.bytes s.live + Pool.total Block.bytes s.kept +
    Pool.total Phase.counted s.threads : Nat)
  value_live : (∀ p ∈ s.threads, p = .idle) → s.kept = [] →
    s.value = (Pool.total Block.bytes s.live : Nat)
  value_le : s.value ≤ c.maxValue
  kept_of : ∀ block ∈ s.kept, block.subtracts = false
  decided : ∀ d ∈ s.decisions, d.granted = true ↔ d.value + d.block.bytes ≤ c.maxValue

/-- The number of bytes is one of the values of `size_type` and of the `value_type` of the counter. -/
def Block.Fits (b : Block) : Prop :=
  b.bytes < 2 ^ c.sizeBits ∧ b.bytes ≤ c.valueType.max

instance (b : Block) : Decidable (b.Fits c) :=
  inferInstanceAs (Decidable (_ ∧ _))

/-- The states of a counter before the first call on an allocator. -/
inductive Starts : State → Prop
  | init (threads : Nat) : Starts (.init threads)
  | shared {own : Nat} {returns : Bool} {threads : Nat} {s : State}
      (hfits : Block.Fits c ⟨own, 1, true⟩)
      (h : allocateCounter c own returns threads = some s) : Starts s

def Call.Fits (call : Call) : Prop :=
  match call with
  | .allocate block _ => block.Fits c
  | .deallocate _ => True

def Action.Fits (action : Action) : Prop :=
  match action with
  | .allocate _ block => block.Fits c
  | _ => True

instance (action : Action) : Decidable (action.Fits c) := by
  cases action <;> unfold Action.Fits <;> infer_instance

/-! ## The invariant -/

/-- What a thread knows about its block. -/
def Phase.Fits : Phase → Prop
  | .idle => True
  | .comparing block value => block.Fits c ∧ value + block.bytes ≤ c.maxValue
  | .loading block | .reserved block | .unwinding block | .subtracting block => block.Fits c

structure State.Invariant (s : State) : Prop where
  value_eq : s.value = (Pool.total Block.bytes s.live + Pool.total Block.bytes s.kept +
    Pool.total Phase.counted s.threads : Nat)
  value_le : s.value ≤ c.maxValue
  kept_of : ∀ block ∈ s.kept, block.subtracts = false
  decided : ∀ d ∈ s.decisions, d.granted = true ↔ d.value + d.block.bytes ≤ c.maxValue
  live_fits : ∀ block ∈ s.live, block.Fits c
  threads_fit : ∀ p ∈ s.threads, p.Fits c

variable {c} {s t : State} {block : Block}

theorem Block.size_eq (h : block.Fits c) : block.size c = block.bytes := by
  rw [Block.size, Nat.mod_eq_of_lt h.1]
  exact ValueType.convert_eq (Int.natCast_nonneg _) h.2

namespace State

theorem Invariant.nonneg (hs : s.Invariant c) : 0 ≤ s.value := by
  rw [hs.value_eq]
  exact Int.natCast_nonneg _

theorem init_invariant (c : Config) (threads : Nat) : (init threads).Invariant c := by
  have hcounted : Pool.total Phase.counted (List.replicate threads .idle) = 0 :=
    Pool.total_eq_zero fun p hp => List.eq_of_mem_replicate hp ▸ rfl
  refine ⟨?_, c.nonneg, nofun, nofun, nofun, ?_⟩
  · simp [init, hcounted]
  · intro p hp
    rw [List.eq_of_mem_replicate hp]
    trivial

theorem Invariant.decide (hs : s.Invariant c) (block : Block) (granted : Bool)
    (h : granted = true ↔ s.value + block.bytes ≤ c.maxValue) :
    (s.decide block granted).Invariant c := by
  refine ⟨hs.value_eq, hs.value_le, hs.kept_of, ?_, hs.live_fits, hs.threads_fit⟩
  intro d hd
  rcases List.mem_append.1 hd with hd | hd
  · exact hs.decided d hd
  · rw [List.mem_singleton.1 hd]
    exact h

/-- Numbers up to the maximum are not changed by a conversion. -/
theorem convert_of_le {x : Int} (h0 : 0 ≤ x) (h : x ≤ c.maxValue) : c.valueType.convert x = x :=
  ValueType.convert_eq h0 (Int.le_trans h c.representable)

theorem subtract_eq (hfits : block.Fits c) (hle : block.bytes ≤ s.value)
    (hmax : s.value ≤ c.maxValue) :
    s.subtract c block = { s with value := s.value - block.bytes } := by
  rw [State.subtract, Block.size_eq hfits, convert_of_le (by omega) (by omega)]

end State

/-! ## One thread -/

namespace SingleThreaded

theorem tryAdd_eq (hs : s.Invariant c) (hfits : block.Fits c) :
    tryAdd c s block =
      if s.value + block.bytes ≤ c.maxValue then
        ({ s.decide block true with value := s.value + block.bytes }, true)
      else (s.decide block false, false) := by
  have hnonneg := hs.nonneg
  have hiff : (block.bytes : Int) ≤ c.maxValue ∧ s.value ≤ c.maxValue - block.bytes ↔
      s.value + block.bytes ≤ c.maxValue := by omega
  simp only [tryAdd, Block.size_eq hfits, hiff]
  split_ifs with hle
  · rw [State.convert_of_le (by omega) hle]
  · rfl

theorem invariant_call (hs : s.Invariant c) {a : Call} (ha : a.Fits c)
    (h : call c s a = some t) : t.Invariant c := by
  have hvalue := hs.value_eq
  have hnonneg := hs.nonneg
  cases a with
  | allocate block returns =>
      simp only [call, tryAdd_eq hs ha] at h
      by_cases hle : s.value + block.bytes ≤ c.maxValue
      · have hdecide := hs.decide block true (by simpa using hle)
        rw [if_pos hle] at h
        cases returns with
        | true =>
            cases h
            refine ⟨?_, hle, hdecide.kept_of, hdecide.decided, ?_, hs.threads_fit⟩
            · simp only [State.decide, Pool.total_append, Pool.total_cons, Pool.total_nil]
              push_cast at hvalue ⊢
              omega
            · intro b hb
              rcases List.mem_append.1 hb with hb | hb
              · exact hs.live_fits b hb
              · rw [List.mem_singleton.1 hb]
                exact ha
        | false =>
            simp only [if_true, Bool.false_eq_true, if_false] at h
            cases h
            rw [State.subtract_eq ha (by simp only; omega) hle]
            simp only [Int.add_sub_cancel]
            exact hdecide
      · rw [if_neg hle] at h
        cases h
        exact hs.decide _ _ (by simpa using hle)
  | deallocate index =>
      simp only [call] at h
      split at h
      · next block hget =>
          have hfits := hs.live_fits block (List.mem_of_getElem? hget)
          have htotal := Pool.total_eraseIdx (f := Block.bytes) hget
          have hrest (b : Block) (hb : b ∈ s.live.eraseIdx index) : b.Fits c :=
            hs.live_fits b (List.mem_of_mem_eraseIdx hb)
          split_ifs at h with hsubtracts
          · cases h
            have hsubtract := State.subtract_eq (s := { s with live := s.live.eraseIdx index })
              hfits (show (block.bytes : Int) ≤ s.value by omega) hs.value_le
            rw [hsubtract]
            refine ⟨?_, ?_, hs.kept_of, hs.decided, hrest, hs.threads_fit⟩
            · push_cast at hvalue ⊢
              omega
            · have hle := hs.value_le
              simp only
              omega
          · cases h
            refine ⟨?_, hs.value_le, ?_, hs.decided, hrest, hs.threads_fit⟩
            · simp only [Pool.total_append, Pool.total_cons, Pool.total_nil]
              push_cast at hvalue ⊢
              omega
            · intro b hb
              rcases List.mem_append.1 hb with hb | hb
              · exact hs.kept_of b hb
              · rw [List.mem_singleton.1 hb]
                exact Bool.eq_false_iff.2 hsubtracts
      · cases h

end SingleThreaded

/-! ## Any number of threads -/

namespace MultiThreaded

variable {p q : Phase} {thread : Nat}

theorem threads_fit_set {threads : List Phase} (h : ∀ p ∈ threads, p.Fits c) (hq : q.Fits c) :
    ∀ x ∈ threads.set thread q, x.Fits c := by
  intro x hx
  rcases List.mem_or_eq_of_mem_set hx with hx | rfl
  · exact h x hx
  · exact hq

/-- A thread that goes on and has to account for as much as before. -/
theorem invariant_setPhase (hs : s.Invariant c) (h : s.threads[thread]? = some p) (hq : q.Fits c)
    (hcounted : q.counted = p.counted) : (setPhase s thread q).Invariant c := by
  refine ⟨?_, hs.value_le, hs.kept_of, hs.decided, hs.live_fits,
    threads_fit_set hs.threads_fit hq⟩
  have htotal := Pool.total_set (f := Phase.counted) (y := q) h
  have hvalue := hs.value_eq
  simp only [setPhase]
  omega

theorem invariant_loop (hs : s.Invariant c) (h : s.threads[thread]? = some p)
    (hp : p.counted = 0) (hfits : block.Fits c) : (loop c s thread block).Invariant c := by
  unfold loop
  rw [Block.size_eq hfits]
  split_ifs with hle
  · exact invariant_setPhase hs h ⟨hfits, by omega⟩ hp.symm
  · have hdecide := hs.decide block false (by simp; omega)
    exact invariant_setPhase hdecide h trivial hp.symm

theorem invariant_step (hs : s.Invariant c) {a : Action} (ha : a.Fits c)
    (h : step c s a = some t) : t.Invariant c := by
  have hvalue := hs.value_eq
  have hnonneg := hs.nonneg
  cases a with
  | allocate thread block =>
      simp only [step] at h
      split at h
      · next hidle =>
          rw [Block.size_eq ha] at h
          split_ifs at h with hle
          · cases h
            exact invariant_setPhase hs hidle ha rfl
          · cases h
            exact hs.decide _ _ (by simp; omega)
      · cases h
  | load thread =>
      simp only [step] at h
      split at h
      · next block hloading =>
          cases h
          exact invariant_loop hs hloading rfl
            (hs.threads_fit _ (List.mem_of_getElem? hloading))
      · cases h
  | compareExchange thread spurious =>
      simp only [step] at h
      split at h
      · next block value hcomparing =>
          obtain ⟨hfits, hle⟩ := hs.threads_fit _ (List.mem_of_getElem? hcomparing)
          split_ifs at h with hsame
          · cases h
            obtain ⟨rfl, -⟩ := hsame
            have hdecide := hs.decide block true (by simpa using hle)
            have htotal :=
              Pool.total_set (f := Phase.counted) (y := .reserved block) hcomparing
            rw [Block.size_eq hfits, State.convert_of_le (by omega) hle]
            refine ⟨?_, hle, hs.kept_of, hdecide.decided, hs.live_fits,
              threads_fit_set hs.threads_fit hfits⟩
            simp only [setPhase, State.decide, Phase.counted] at htotal ⊢
            push_cast at hvalue ⊢
            omega
          · cases h
            exact invariant_loop hs hcomparing rfl hfits
      · cases h
  | allocated thread returns =>
      simp only [step] at h
      split at h
      · next block hreserved =>
          have hfits := hs.threads_fit _ (List.mem_of_getElem? hreserved)
          split_ifs at h
          · cases h
            have htotal := Pool.total_set (f := Phase.counted) (y := .idle) hreserved
            refine ⟨?_, hs.value_le, hs.kept_of, hs.decided, ?_,
              threads_fit_set hs.threads_fit trivial⟩
            · simp only [setPhase, Phase.counted, Pool.total_append, Pool.total_cons,
                Pool.total_nil] at htotal ⊢
              push_cast at hvalue ⊢
              omega
            · intro b hb
              rcases List.mem_append.1 hb with hb | hb
              · exact hs.live_fits b hb
              · rw [List.mem_singleton.1 hb]
                exact hfits
          · cases h
            exact invariant_setPhase hs hreserved hfits rfl
      · cases h
  | deallocate thread index =>
      simp only [step] at h
      split at h
      · next block hidle hget =>
          have hfits := hs.live_fits block (List.mem_of_getElem? hget)
          have hlive := Pool.total_eraseIdx (f := Block.bytes) hget
          have hrest (b : Block) (hb : b ∈ s.live.eraseIdx index) : b.Fits c :=
            hs.live_fits b (List.mem_of_mem_eraseIdx hb)
          split_ifs at h with hsubtracts
          · cases h
            have htotal := Pool.total_set (f := Phase.counted) (y := .subtracting block) hidle
            refine ⟨?_, hs.value_le, hs.kept_of, hs.decided, hrest,
              threads_fit_set hs.threads_fit hfits⟩
            simp only [setPhase, Phase.counted] at htotal ⊢
            push_cast at hvalue ⊢
            omega
          · cases h
            refine ⟨?_, hs.value_le, ?_, hs.decided, hrest, hs.threads_fit⟩
            · simp only [Pool.total_append, Pool.total_cons, Pool.total_nil]
              push_cast at hvalue ⊢
              omega
            · intro b hb
              rcases List.mem_append.1 hb with hb | hb
              · exact hs.kept_of b hb
              · rw [List.mem_singleton.1 hb]
                exact Bool.eq_false_iff.2 hsubtracts
      · cases h
  | subtract thread =>
      have hsubtract {block : Block} {p : Phase} (hget : s.threads[thread]? = some p)
          (hp : p.counted = block.bytes) (hfits : block.Fits c) :
          (setPhase (s.subtract c block) thread .idle).Invariant c := by
        have htotal := Pool.total_set (f := Phase.counted) (y := .idle) hget
        have hle := hs.value_le
        rw [hp, show Phase.counted .idle = 0 from rfl] at htotal
        rw [State.subtract_eq hfits (by omega) hle]
        refine ⟨?_, ?_, hs.kept_of, hs.decided, hs.live_fits,
          threads_fit_set hs.threads_fit trivial⟩
        · simp only [setPhase]
          push_cast at hvalue ⊢
          omega
        · simp only [setPhase]
          omega
      simp only [step] at h
      split at h
      · next block hunwinding =>
          cases h
          exact hsubtract hunwinding rfl (hs.threads_fit _ (List.mem_of_getElem? hunwinding))
      · next block hsubtracting =>
          cases h
          exact hsubtract hsubtracting rfl (hs.threads_fit _ (List.mem_of_getElem? hsubtracting))
      · cases h

end MultiThreaded

namespace State

theorem Invariant.safe (hs : s.Invariant c) : s.Safe c where
  value_eq := hs.value_eq
  value_live hidle hkept := by
    have hcounted : Pool.total Phase.counted s.threads = 0 :=
      Pool.total_eq_zero fun p hp => hidle p hp ▸ rfl
    rw [hs.value_eq, hkept, hcounted]
    simp
  value_le := hs.value_le
  kept_of := hs.kept_of
  decided := hs.decided

end State

theorem Starts.invariant (h : Starts c s) : s.Invariant c := by
  cases h with
  | init threads => exact State.init_invariant c threads
  | @shared own returns threads _ hfits h =>
      have hinit := State.init_invariant c threads
      have hnonneg := c.nonneg
      have hstart : (State.init 0).value = 0 := rfl
      unfold allocateCounter at h
      simp only [SingleThreaded.call, SingleThreaded.tryAdd_eq (State.init_invariant c 0) hfits,
        hstart, Int.zero_add] at h
      by_cases hle : ((⟨own, 1, true⟩ : Block).bytes : Int) ≤ c.maxValue
      · rw [if_pos hle] at h
        cases returns with
        | true =>
            have hadd : 0 ≤ c.maxValue - ((⟨own, 1, true⟩ : Block).bytes : Int) := by omega
            simp only [if_true, State.decide, State.init, List.nil_append, List.cons_ne_nil,
              if_false, hle, hadd, and_self, Option.some.injEq] at h
            subst h
            refine ⟨?_, hle, nofun, nofun, ?_, hinit.threads_fit⟩
            · have hvalue := hinit.value_eq
              simp only [State.init, Pool.total_nil, Pool.total_cons] at hvalue ⊢
              push_cast at hvalue ⊢
              omega
            · intro b hb
              rw [List.mem_singleton.1 hb]
              exact hfits
        | false => simp [State.subtract, State.decide, State.init] at h
      · simp [hle, State.decide, State.init] at h

/-- From a new counter on, whatever the calls and whoever makes them, the property holds all along, as
    long as the size of each block asked for can be represented. -/
theorem allocator_safe_along (hstart : Starts c s) :
    (∀ calls, (SingleThreaded.system c).Meets (fun _ call => call.Fits c) s calls →
      (SingleThreaded.system c).Along (State.Safe c) s calls) ∧
    ∀ actions, (MultiThreaded.system c).Meets (fun _ action => action.Fits c) s actions →
      (MultiThreaded.system c).Along (State.Safe c) s actions := by
  constructor
  · intro calls hmeets
    refine (System.along_of_meets (I := State.Invariant c) ?_ hstart.invariant hmeets).mono
      fun _ hs => hs.safe
    exact fun s call t hs hfits h => SingleThreaded.invariant_call hs hfits h
  · intro actions hmeets
    refine (System.along_of_meets (I := State.Invariant c) ?_ hstart.invariant hmeets).mono
      fun _ hs => hs.safe
    exact fun s action t hs hfits h => MultiThreaded.invariant_step hs hfits h

/-- An eight-bit counter with the maximum 10. -/
def ten : Config where
  valueType := ⟨8, false⟩
  sizeBits := 64
  maxValue := 10
  nonneg := by decide
  representable := by decide

/-- Two threads ask for six bytes each; the one that comes second has seen the counter at zero, too. -/
def contended : List Action :=
  [.allocate 0 ⟨6, 1, true⟩, .allocate 1 ⟨3, 2, true⟩, .load 0, .load 1, .compareExchange 1 false,
    .compareExchange 0 false, .allocated 1 false, .subtract 1]

theorem contended_safe :
    (MultiThreaded.system ten).Along (State.Safe ten) (State.init 2) contended :=
  (allocator_safe_along (.init 2)).2 contended (by decide)

/-- An allocator that does not subtract: after the deallocation the counter stands where it stood. -/
theorem kept_not_live : ∃ t,
    (SingleThreaded.system ten).run (State.init 0)
      [.allocate ⟨1, 4, false⟩ true, .deallocate 0] = some t ∧
    t.live = [] ∧ t.value ≠ (Pool.total Block.bytes t.live : Nat) :=
  ⟨_, rfl, rfl, by decide⟩

end CappedAllocator

end Bond.Cpp.Ext

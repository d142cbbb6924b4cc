import Bond.Lib.Pool
import Bond.Lib.System

set_option autoImplicit false

/-! # Unary calls

The shared ownership of a `unary_call_impl` (cpp/inc/bond/ext/grpc/detail/unary_call_impl.h): the
reference count, the flag that a response has been sent, and the notification of the completion
queue that the response has gone out. Threads hold copies of the call; an action is one atomic
operation, one call on the responder or the deletion, so that a run is an interleaving of them. -/

namespace Bond.Cpp.Ext

open Bond.Lib

namespace UnaryCall

/-- What the thread that holds a reference is doing with it. -/
inductive Phase where
  | held
  /-- `Finish` has won `_responseSentFlag` and is about to call `_responder.Finish` -/
  | finishing
  /-- `TryFinishWithError` has loaded this `_refCount` -/
  | loaded (refCount : Nat)
  /-- `TryFinishWithError` has won `_responseSentFlag` and is about to call
      `_responder.FinishWithError` -/
  | failing
  /-- `TryFinishWithError` has returned, `Release` is about to decrement `_refCount` -/
  | releasing
deriving DecidableEq, Repr

structure State where
  refCount : Nat
  responseSentFlag : Bool
  /-- the references that users hold -/
  refs : List Phase
  /-- the responses handed to the responder -/
  scheduled : Nat
  /-- the notifications for them whose `invoke` has not called `Release` yet -/
  tags : Nat
  /-- the threads that have seen the count drop from one and are about to `delete this` -/
  deleting : Nat
  deleted : Nat
deriving DecidableEq, Repr

/-- A call that has been received, with the one reference that its callback is given. Another one
    has been there from the start: the call keeps itself alive until the response has been sent. -/
def State.init : State where
  refCount := 2
  responseSentFlag := false
  refs := [.held]
  scheduled := 0
  tags := 0
  deleting := 0
  deleted := 0

inductive Action where
  /-- `AddRef` for a copy of a reference -/
  | copy (ref : Nat)
  /-- `Finish`, with a response or with a status: `_responseSentFlag.test_and_set()` -/
  | finish (ref : Nat)
  /-- the call on the responder in `Finish` -/
  | respond (ref : Nat)
  /-- `intrusive_ptr_release`: `TryFinishWithError` loads `_refCount` -/
  | drop (ref : Nat)
  /-- the comparison with 2, and `_responseSentFlag.test_and_set()` behind it -/
  | tryFinishWithError (ref : Nat)
  /-- the call on the responder behind it -/
  | respondWithError (ref : Nat)
  /-- `_refCount.fetch_sub` of `Release` for a reference -/
  | release (ref : Nat)
  /-- `invoke` for a notification: `_refCount.fetch_sub` of `Release` -/
  | invoke
  /-- `delete this` -/
  | delete
deriving DecidableEq, Repr

def State.setPhase (s : State) (ref : Nat) (phase : Phase) : State :=
  { s with refs := s.refs.set ref phase }

/-- `_responder.Finish`, `_responder.FinishWithError` -/
def State.schedule (s : State) : State :=
  { s with scheduled := s.scheduled + 1, tags := s.tags + 1 }

/-- `_refCount.fetch_sub`; who sees the count at one goes on to `delete this`. -/
def State.fetchSub (s : State) : State :=
  { s with
    refCount := s.refCount - 1
    deleting := if s.refCount = 1 then s.deleting + 1 else s.deleting }

def step (s : State) : Action → Option State
  | .copy ref =>
      match s.refs[ref]? with
      | some .held => some { s with refCount := s.refCount + 1, refs := s.refs ++ [.held] }
      | _ => none
  | .finish ref =>
      match s.refs[ref]? with
      | some .held =>
          if s.responseSentFlag then some s
          else some ({ s with responseSentFlag := true }.setPhase ref .finishing)
      | _ => none
  | .respond ref =>
      match s.refs[ref]? with
      | some .finishing => some (s.schedule.setPhase ref .held)
      | _ => none
  | .drop ref =>
      match s.refs[ref]? with
      | some .held => some (s.setPhase ref (.loaded s.refCount))
      | _ => none
  | .tryFinishWithError ref =>
      match s.refs[ref]? with
      | some (.loaded refCount) =>
          if refCount = 2 ∧ s.responseSentFlag = false then
            some ({ s with responseSentFlag := true }.setPhase ref .failing)
          else
            some (s.setPhase ref .releasing)
      | _ => none
  | .respondWithError ref =>
      match s.refs[ref]? with
      | some .failing => some (s.schedule.setPhase ref .releasing)
      | _ => none
  | .release ref =>
      match s.refs[ref]? with
      | some .releasing => some { s.fetchSub with refs := s.refs.eraseIdx ref }
      | _ => none
  | .invoke =>
      if 0 < s.tags then some { s.fetchSub with tags := s.tags - 1 } else none
  | .delete =>
      if 0 < s.deleting then
        some { s with deleting := s.deleting - 1, deleted := s.deleted + 1 }
      else none

/-- The threads that hold references, and the completion queue, in any order. -/
def system : System State Action where
  step := step

/-! ## The property -/

/-- At most one response is scheduled; the call is deleted at most once, after the last reference is
    gone, users' and its own; when the users have dropped theirs, a response has been scheduled; and
    when nothing is left to be done, the call has been deleted. -/
structure State.Safe (s : State) : Prop where
  scheduled_le : s.scheduled ≤ 1
  deleted_le : s.deleted ≤ 1
  deleted_last : 0 < s.deleted → s.refCount = 0 ∧ s.refs = [] ∧ s.scheduled = 1 ∧ s.tags = 0
  responded : s.refs = [] → s.scheduled = 1
  deleted_once : s.refs = [] → s.tags = 0 → s.deleting = 0 → s.deleted = 1

/-- A reference is not released while it is the last one of the users and no response has been
    claimed. -/
def State.InTime (s : State) : Action → Prop
  | .release _ => ¬ (s.refCount = 2 ∧ s.responseSentFlag = false)
  | _ => True

/-! ## The invariant -/

/-- Whether the thread has won the flag and not called the responder yet. -/
def Phase.claim : Phase → Nat
  | .finishing | .failing => 1
  | _ => 0

/-- The count is that of the users' references and of the call's own, which lasts until the response
    has been sent. Whoever wins the flag schedules the response. -/
structure State.Invariant (s : State) : Prop where
  refCount_eq : s.refCount + s.scheduled = s.refs.length + 1 + s.tags
  tags_le : s.tags ≤ s.scheduled
  claims_eq : s.scheduled + Pool.total Phase.claim s.refs = if s.responseSentFlag then 1 else 0
  deleted_eq : s.deleting + s.deleted = if s.refCount = 0 then 1 else 0

namespace State

variable {s t : State} {ref : Nat} {old phase : Phase} {a : Action}

theorem init_invariant : init.Invariant where
  refCount_eq := rfl
  tags_le := Nat.le_refl 0
  claims_eq := rfl
  deleted_eq := rfl

theorem Invariant.scheduled_le (hs : s.Invariant) : s.scheduled ≤ 1 := by
  have hclaims := hs.claims_eq
  split at hclaims <;> omega

theorem claims_setPhase (phase : Phase) (h : s.refs[ref]? = some old) :
    Pool.total Phase.claim (s.setPhase ref phase).refs + old.claim =
      Pool.total Phase.claim s.refs + phase.claim :=
  Pool.total_set h

/-- A thread that goes on without having won the flag. -/
theorem Invariant.setPhase (hs : s.Invariant) (h : s.refs[ref]? = some old)
    (hclaim : old.claim = phase.claim) : (s.setPhase ref phase).Invariant where
  refCount_eq := by
    have hcount := hs.refCount_eq
    simpa [State.setPhase] using hcount
  tags_le := hs.tags_le
  claims_eq := by
    have hclaims := claims_setPhase phase h
    have heq := hs.claims_eq
    show s.scheduled + _ = if s.responseSentFlag then 1 else 0
    omega
  deleted_eq := hs.deleted_eq

/-- A thread that wins the flag. -/
theorem Invariant.win (hs : s.Invariant) (h : s.refs[ref]? = some old)
    (hflag : s.responseSentFlag = false) (hold : old.claim = 0) (hphase : phase.claim = 1) :
    ({ s with responseSentFlag := true }.setPhase ref phase).Invariant where
  refCount_eq := by
    have hcount := hs.refCount_eq
    simpa [State.setPhase] using hcount
  tags_le := hs.tags_le
  claims_eq := by
    have hclaims := claims_setPhase phase h
    have heq := hs.claims_eq
    rw [hflag] at heq
    show s.scheduled + Pool.total Phase.claim (s.setPhase ref phase).refs = 1
    simp only [Bool.false_eq_true, if_false] at heq
    omega
  deleted_eq := hs.deleted_eq

/-- The thread that has won the flag calls the responder. -/
theorem Invariant.schedule (hs : s.Invariant) (h : s.refs[ref]? = some old)
    (hold : old.claim = 1) (hphase : phase.claim = 0) :
    (s.schedule.setPhase ref phase).Invariant where
  refCount_eq := by
    have hcount := hs.refCount_eq
    simp only [State.setPhase, State.schedule, List.length_set]
    omega
  tags_le := Nat.succ_le_succ hs.tags_le
  claims_eq := by
    have hclaims := claims_setPhase phase h
    have heq := hs.claims_eq
    show s.scheduled + 1 + Pool.total Phase.claim (s.setPhase ref phase).refs =
      if s.responseSentFlag then 1 else 0
    omega
  deleted_eq := hs.deleted_eq

/-- Who sees the count drop from one is the only one. -/
theorem deleting_fetchSub (hs : s.Invariant) (hpos : 0 < s.refCount) :
    s.fetchSub.deleting + s.deleted = if s.refCount - 1 = 0 then 1 else 0 := by
  have hdeleted := hs.deleted_eq
  rw [if_neg (by omega)] at hdeleted
  unfold fetchSub
  by_cases hone : s.refCount = 1
  · simp only [hone, if_true, Nat.sub_self]
    omega
  · rw [if_neg hone, if_neg (by omega)]
    exact hdeleted

theorem Invariant.step (hs : s.Invariant) (h : UnaryCall.step s a = some t) : t.Invariant := by
  cases a with
  | copy ref =>
      simp only [UnaryCall.step] at h
      split at h
      · next hheld =>
          cases h
          obtain ⟨hlt, _⟩ := List.getElem?_eq_some_iff.1 hheld
          have hcount := hs.refCount_eq
          have hle := hs.scheduled_le
          have hdeleted := hs.deleted_eq
          have hpos : s.refCount ≠ 0 := by omega
          refine ⟨?_, hs.tags_le, ?_, ?_⟩
          · simp only [List.length_append, List.length_singleton]
            omega
          · simpa [Phase.claim] using hs.claims_eq
          · rw [if_neg hpos] at hdeleted
            exact hdeleted
      · cases h
  | finish ref =>
      simp only [UnaryCall.step] at h
      split at h
      · next hheld =>
          split_ifs at h with hflag
          · cases h
            exact hs
          · cases h
            exact hs.win hheld (Bool.eq_false_iff.2 hflag) rfl rfl
      · cases h
  | respond ref =>
      simp only [UnaryCall.step] at h
      split at h
      · next hfinishing =>
          cases h
          exact hs.schedule hfinishing rfl rfl
      · cases h
  | drop ref =>
      simp only [UnaryCall.step] at h
      split at h
      · next hheld =>
          cases h
          exact hs.setPhase hheld rfl
      · cases h
  | tryFinishWithError ref =>
      simp only [UnaryCall.step] at h
      split at h
      · next hloaded =>
          split_ifs at h with hlast
          · cases h
            exact hs.win hloaded hlast.2 rfl rfl
          · cases h
            exact hs.setPhase hloaded rfl
      · cases h
  | respondWithError ref =>
      simp only [UnaryCall.step] at h
      split at h
      · next hfailing =>
          cases h
          exact hs.schedule hfailing rfl rfl
      · cases h
  | release ref =>
      simp only [UnaryCall.step] at h
      split at h
      · next hreleasing =>
          cases h
          have hlength := Pool.length_eraseIdx hreleasing
          have hclaims := Pool.total_eraseIdx (f := Phase.claim) hreleasing
          have hcount := hs.refCount_eq
          have hle := hs.scheduled_le
          have heq := hs.claims_eq
          refine ⟨?_, hs.tags_le, ?_, deleting_fetchSub hs (by omega)⟩
          · show s.refCount - 1 + s.scheduled = (s.refs.eraseIdx ref).length + 1 + s.tags
            omega
          · show s.scheduled + Pool.total Phase.claim (s.refs.eraseIdx ref) =
              if s.responseSentFlag then 1 else 0
            simp only [Phase.claim, Nat.add_zero] at hclaims
            rw [hclaims]
            exact heq
      · cases h
  | invoke =>
      simp only [UnaryCall.step] at h
      split_ifs at h with htag
      cases h
      have hcount := hs.refCount_eq
      have htags := hs.tags_le
      have hle := hs.scheduled_le
      refine ⟨?_, ?_, hs.claims_eq, deleting_fetchSub hs (by omega)⟩
      · show s.refCount - 1 + s.scheduled = s.refs.length + 1 + (s.tags - 1)
        omega
      · show s.tags - 1 ≤ s.scheduled
        omega
  | delete =>
      simp only [UnaryCall.step] at h
      split_ifs at h with hdeleting
      cases h
      refine ⟨hs.refCount_eq, hs.tags_le, hs.claims_eq, ?_⟩
      have hdeleted := hs.deleted_eq
      show s.deleting - 1 + (s.deleted + 1) = if s.refCount = 0 then 1 else 0
      omega

/-! ## When the property holds -/

/-- In a state that can be reached all but one part of the property holds: what remains is that some
    response has been claimed when the users' last reference is gone. -/
theorem Invariant.safe_iff (hs : s.Invariant) :
    s.Safe ↔ (s.refs = [] → s.responseSentFlag = true) := by
  have hcount := hs.refCount_eq
  have htags := hs.tags_le
  have hclaims := hs.claims_eq
  have hdeleted := hs.deleted_eq
  constructor
  · intro hsafe hnil
    have hscheduled := hsafe.responded hnil
    by_contra hflag
    rw [if_neg hflag] at hclaims
    omega
  · intro hflag
    have hle := hs.scheduled_le
    have hresponded (hnil : s.refs = []) : s.scheduled = 1 := by
      rw [hflag hnil, hnil] at hclaims
      simpa using hclaims
    refine ⟨hle, ?_, ?_, hresponded, ?_⟩
    · split at hdeleted <;> omega
    · intro hpos
      have hzero : s.refCount = 0 := by
        by_contra hne
        rw [if_neg hne] at hdeleted
        omega
      have hnil : s.refs = [] := List.length_eq_zero_iff.1 (by omega)
      have hscheduled := hresponded hnil
      rw [hnil, List.length_nil] at hcount
      exact ⟨hzero, hnil, hscheduled, by omega⟩
    · intro hnil hno hdone
      have hscheduled := hresponded hnil
      rw [hnil, List.length_nil] at hcount
      rw [if_pos (by omega)] at hdeleted
      omega

/-- Only a release takes a reference away, and no step takes the flag back. -/
theorem step_refs (h : UnaryCall.step s a = some t) (hnil : t.refs = []) :
    t.responseSentFlag = s.responseSentFlag ∧
      (s.refs = [] ∧ (∀ ref, a ≠ .release ref) ∨ ∃ ref, a = .release ref ∧ s.refs.length = 1) := by
  have hset {ref : Nat} {phase old : Phase} (hget : s.refs[ref]? = some old)
      (hnil : s.refs.set ref phase = []) : False := by
    rw [List.set_eq_nil_iff] at hnil
    rw [hnil] at hget
    cases hget
  cases a <;> simp only [UnaryCall.step] at h
  case copy ref =>
    split at h
    · cases h
      exact absurd hnil (List.append_ne_nil_of_right_ne_nil _ (List.cons_ne_nil _ _))
    · cases h
  case finish ref =>
    split at h
    · next hheld =>
        split_ifs at h
        · cases h
          rw [hnil] at hheld
          cases hheld
        · cases h
          exact (hset hheld hnil).elim
    · cases h
  case tryFinishWithError ref =>
    split at h
    · next hloaded =>
        split_ifs at h <;> cases h <;> exact (hset hloaded hnil).elim
    · cases h
  case release ref =>
    split at h
    · next hreleasing =>
        cases h
        have hlength := Pool.length_eraseIdx hreleasing
        rw [show s.refs.eraseIdx ref = [] from hnil] at hlength
        exact ⟨rfl, Or.inr ⟨ref, rfl, hlength.symm⟩⟩
    · cases h
  case invoke | delete =>
    split_ifs at h
    cases h
    exact ⟨rfl, Or.inl ⟨hnil, fun _ => nofun⟩⟩
  case respond ref | drop ref | respondWithError ref =>
    split at h
    · next hphase =>
        cases h
        exact (hset hphase hnil).elim
    · cases h

/-- A step keeps the property exactly if it does not release the users' last reference too late. -/
theorem safe_step_iff (hs : s.Invariant) (hsafe : s.Safe) (h : UnaryCall.step s a = some t) :
    t.Safe ↔ s.InTime a := by
  rw [(hs.step h).safe_iff]
  rw [hs.safe_iff] at hsafe
  have hcount := hs.refCount_eq
  have htags := hs.tags_le
  have hclaims := hs.claims_eq
  constructor
  · intro ht
    cases a with
    | release ref =>
        rintro ⟨htwo, hflag⟩
        simp only [UnaryCall.step] at h
        split at h
        · next hreleasing =>
            cases h
            have hlength := Pool.length_eraseIdx hreleasing
            rw [hflag] at hclaims
            simp only [Bool.false_eq_true, if_false] at hclaims
            have hnil : s.refs.eraseIdx ref = [] := List.length_eq_zero_iff.1 (by omega)
            have hsent : s.responseSentFlag = true := ht hnil
            rw [hflag] at hsent
            cases hsent
        · cases h
    | _ => trivial
  · intro htime hnil
    obtain ⟨hflag, hcase⟩ := step_refs h hnil
    rw [hflag]
    rcases hcase with ⟨hbefore, _⟩ | ⟨ref, rfl, hone⟩
    · exact hsafe hbefore
    · by_contra hclear
      rw [Bool.not_eq_true] at hclear
      rw [hclear] at hclaims
      simp only [Bool.false_eq_true, if_false] at hclaims
      exact htime ⟨by omega, hclear⟩

end State

/-- Along a run of threads that copy, use and drop references, the property holds exactly if no thread
    releases the users' last reference while no response has been claimed. -/
theorem safe_along_iff (run : List Action) :
    system.Along State.Safe State.init run ↔ system.Meets State.InTime State.init run :=
  System.along_iff_meets (I := State.Invariant) (fun _ _ _ hs h => hs.step h)
    (fun _ _ _ hs hsafe h => State.safe_step_iff hs hsafe h) State.init_invariant
    (State.init_invariant.safe_iff.2 (by simp [State.init])) run

/-- Two threads drop the last two references, and both load the count before either decrements it:
    neither is the one to send the error. -/
def lostResponse : List Action :=
  [.copy 0, .drop 0, .drop 1, .tryFinishWithError 0, .tryFinishWithError 1, .release 0, .release 0]

theorem lostResponse_not_safe : ∃ t, system.run State.init lostResponse = some t ∧
    t.refs = [] ∧ t.scheduled = 0 ∧ ¬ system.Along State.Safe State.init lostResponse := by
  refine ⟨_, rfl, rfl, rfl, fun h => ?_⟩
  have hsafe := h.last rfl
  exact absurd (hsafe.responded rfl) (by decide)

end UnaryCall

end Bond.Cpp.Ext

import Bond.Lib.Pool
import Bond.Lib.System
import Mathlib.Data.List.Perm.Basic

set_option autoImplicit false

/-! # Receiving unary calls

How a service receives the calls of one method (`service::unary_call_data`,
cpp/inc/bond/ext/grpc/detail/service.h): a request to gRPC for the next call is issued before the
call just received is handed to its callback, so another thread of the `io_manager` may be told of
the next call meanwhile. Each access to `_receivedCall`, the request and the scheduling of the
callback are actions of their own, and so is the delivery of a notification. -/

namespace Bond.Cpp.Ext

open Bond.Lib

namespace UnaryCallData

/-- A `unary_call_impl`, by the order in which they are allocated. -/
abbrev Call := Nat

/-- What `RequestAsyncUnary` is given to populate: the calls of which these are the parts. -/
structure Request where
  context : Call
  requestBuffer : Call
  responder : Call
deriving DecidableEq, Repr

def Request.of (call : Call) : Request :=
  ⟨call, call, call⟩

/-- Who has called `queue_receive`; `invoke` does so for a notification about a request. -/
inductive Caller where
  | constructor
  | invoke (request : Request)
deriving DecidableEq, Repr

/-- The arguments of `RequestAsyncUnary` that have been evaluated so far, in whatever order. -/
structure Arguments where
  context : Option Call
  requestBuffer : Option Call
  responder : Option Call
deriving DecidableEq, Repr

/-- What a thread is about to do. -/
inductive Phase where
  /-- to call `_cq->Next` -/
  | next
  /-- to call `invoke(ok)` -/
  | invoked (ok : Bool) (request : Request)
  /-- `_receivedCall.release()` -/
  | receiving (caller : Caller)
  /-- `_receivedCall.reset(new unary_call_impl)` -/
  | released (caller : Caller) (receivedCall : Option Call)
  /-- to evaluate the arguments of `RequestAsyncUnary`, and to call it -/
  | requesting (caller : Caller) (receivedCall : Option Call) (arguments : Arguments)
  /-- to schedule the callback with what `queue_receive` has returned -/
  | scheduling (receivedCall : Option Call)
deriving DecidableEq, Repr

structure State where
  /-- `_receivedCall` -/
  receivedCall : Option Call
  /-- the next call to be allocated -/
  fresh : Call
  threads : List Phase
  /-- the requests that gRPC has not notified a thread of -/
  outstanding : List Request
  /-- the requests for which gRPC has received a call -/
  received : List Request
  /-- what the scheduled callbacks are given -/
  scheduled : List (Option Call)
  /-- the calls that were destroyed when `_receivedCall` was overwritten -/
  destroyed : List Call
deriving DecidableEq, Repr

/-- One thread is in the constructor of `unary_call_data`, `n` others may be waiting already. -/
def State.init (n : Nat) : State where
  receivedCall := none
  fresh := 0
  threads := .receiving .constructor :: List.replicate n .next
  outstanding := []
  received := []
  scheduled := []
  destroyed := []

/-- What a caller goes on with when `queue_receive` has returned: `invoke` schedules the callback. -/
def Caller.return (receivedCall : Option Call) : Caller → Phase
  | .constructor => .next
  | .invoke _ => .scheduling receivedCall

inductive Action where
  /-- `_cq->Next` returns the tag of an outstanding request to a thread -/
  | deliver (thread request : Nat) (ok : Bool)
  | invoke (thread : Nat)
  | release (thread : Nat)
  | reset (thread : Nat)
  | context (thread : Nat)
  | requestBuffer (thread : Nat)
  | responder (thread : Nat)
  | requestAsyncUnary (thread : Nat)
  | schedule (thread : Nat)
deriving DecidableEq, Repr

def State.setPhase (s : State) (thread : Nat) (phase : Phase) : State :=
  { s with threads := s.threads.set thread phase }

/-- One argument of `RequestAsyncUnary`; null must not be dereferenced. -/
def State.evaluate (s : State) (thread : Nat) (set : Arguments → Call → Arguments) :
    Option State :=
  match s.threads[thread]? with
  | some (.requesting caller receivedCall arguments) =>
      s.receivedCall.map fun call =>
        s.setPhase thread (.requesting caller receivedCall (set arguments call))
  | _ => none

def step (s : State) : Action → Option State
  | .deliver thread request ok =>
      match s.threads[thread]?, s.outstanding[request]? with
      | some .next, some r =>
          some { s.setPhase thread (.invoked ok r) with
            outstanding := s.outstanding.eraseIdx request
            received := if ok then s.received ++ [r] else s.received }
      | _, _ => none
  | .invoke thread =>
      match s.threads[thread]? with
      | some (.invoked ok request) =>
          some (s.setPhase thread (if ok then .receiving (.invoke request) else .next))
      | _ => none
  | .release thread =>
      match s.threads[thread]? with
      | some (.receiving caller) =>
          some { s.setPhase thread (.released caller s.receivedCall) with receivedCall := none }
      | _ => none
  | .reset thread =>
      match s.threads[thread]? with
      | some (.released caller receivedCall) =>
          some { s.setPhase thread (.requesting caller receivedCall ⟨none, none, none⟩) with
            receivedCall := some s.fresh
            fresh := s.fresh + 1
            destroyed := s.destroyed ++ s.receivedCall.toList }
      | _ => none
  | .context thread =>
      s.evaluate thread fun arguments call => { arguments with context := some call }
  | .requestBuffer thread =>
      s.evaluate thread fun arguments call => { arguments with requestBuffer := some call }
  | .responder thread =>
      s.evaluate thread fun arguments call => { arguments with responder := some call }
  | .requestAsyncUnary thread =>
      match s.threads[thread]? with
      | some (.requesting caller receivedCall ⟨some context, some requestBuffer, some responder⟩) =>
          some { s.setPhase thread (caller.return receivedCall) with
            outstanding := s.outstanding ++ [⟨context, requestBuffer, responder⟩] }
      | _ => none
  | .schedule thread =>
      match s.threads[thread]? with
      | some (.scheduling receivedCall) =>
          some { s.setPhase thread .next with scheduled := s.scheduled ++ [receivedCall] }
      | _ => none

/-- The threads of the `io_manager` and gRPC, in any order. -/
def system : System State Action where
  step := step

/-! ## The property -/

/-- Whether a thread is about to access `_receivedCall`. -/
def Phase.accesses : Phase → Bool
  | .receiving _ | .released _ _ => true
  | .requesting _ _ arguments =>
      arguments.context.isNone || arguments.requestBuffer.isNone || arguments.responder.isNone
  | _ => false

/-- The received call that a thread has still to hand to a callback. -/
def Phase.holds : Phase → List (Option Call)
  | .invoked true request => [some request.context]
  | .receiving (.invoke request) => [some request.context]
  | .released (.invoke _) receivedCall => [receivedCall]
  | .requesting (.invoke _) receivedCall _ => [receivedCall]
  | .scheduling receivedCall => [receivedCall]
  | _ => []

/-- At most one request is outstanding, and no two threads access `_receivedCall` at the same time, nor
    one of them when it is null. The received calls are all different, gRPC has populated one
    `unary_call_impl` for each, and each is either with the one callback that it was handed to or
    with the one thread that is about to hand it over; none was destroyed. -/
structure State.Safe (s : State) : Prop where
  outstanding_le : s.outstanding.length ≤ 1
  exclusive : ∀ (i j : Nat) (p q : Phase), s.threads[i]? = some p → s.threads[j]? = some q →
    p.accesses = true → q.accesses = true → i = j
  not_null : ∀ caller receivedCall arguments,
    .requesting caller receivedCall arguments ∈ s.threads → s.receivedCall ≠ none
  populated : ∀ r ∈ s.received, r = .of r.context
  received_nodup : (s.received.map Request.context).Nodup
  handed : (s.scheduled ++ s.threads.flatMap Phase.holds).Perm
    (s.received.map fun r => some r.context)
  destroyed_eq : s.destroyed = []
  handed_all : (∀ p ∈ s.threads, p = .next) →
    s.scheduled.Perm (s.received.map fun r => some r.context)

/-! ## The invariant -/

/-- Whether a thread has been told of a received call, or constructs the object, and has not issued the
    next request yet. -/
def Phase.inside : Phase → Nat
  | .invoked ok _ => if ok then 1 else 0
  | .receiving _ | .released _ _ | .requesting _ _ _ => 1
  | _ => 0

/-- The call that `queue_receive` returns. -/
def Caller.call : Caller → Option Call
  | .constructor => none
  | .invoke request => some request.context

/-- The arguments are parts of one call. -/
def Arguments.Within (arguments : Arguments) (call : Call) : Prop :=
  ∀ c, (arguments.context = some c ∨ arguments.requestBuffer = some c ∨
    arguments.responder = some c) → c = call

/-- What a thread that has not issued the next request knows about `_receivedCall`. -/
def Phase.Fits (s : State) : Phase → Prop
  | .invoked true request => s.receivedCall = some request.context
  | .receiving caller => s.receivedCall = caller.call
  | .released caller receivedCall => s.receivedCall = none ∧ receivedCall = caller.call
  | .requesting caller receivedCall arguments =>
      receivedCall = caller.call ∧ ∃ call, s.receivedCall = some call ∧
        call ∉ s.received.map Request.context ∧ arguments.Within call
  | _ => True

/-- Either one request is outstanding or at most one thread is on its way to issue the next one. -/
structure State.Invariant (s : State) : Prop where
  inside_le : Pool.total Phase.inside s.threads + s.outstanding.length ≤ 1
  fits : ∀ p ∈ s.threads, p.Fits s
  outstanding_of : ∀ r ∈ s.outstanding, ∃ call, r = .of call ∧ s.receivedCall = some call ∧
    call ∉ s.received.map Request.context
  populated : ∀ r ∈ s.received, r = .of r.context
  received_nodup : (s.received.map Request.context).Nodup
  handed : (s.scheduled ++ s.threads.flatMap Phase.holds).Perm
    (s.received.map fun r => some r.context)
  received_lt : ∀ r ∈ s.received, r.context < s.fresh
  receivedCall_lt : ∀ call, s.receivedCall = some call → call < s.fresh
  destroyed_eq : s.destroyed = []

theorem Phase.holds_next : Phase.holds .next = [] := rfl

theorem Phase.holds_invoked (request : Request) :
    Phase.holds (.invoked true request) = [some request.context] := rfl

theorem Phase.holds_scheduling (receivedCall : Option Call) :
    Phase.holds (.scheduling receivedCall) = [receivedCall] := rfl

namespace State

variable {s t : State} {before after : List Phase} {p q : Phase} {i : Nat} {a : Action}

theorem fits_of_outside (s : State) (h : p.inside = 0) : p.Fits s := by
  cases p with
  | invoked ok request =>
      cases ok with
      | true => cases h
      | false => trivial
  | next | scheduling _ => trivial
  | receiving _ | released _ _ | requesting _ _ _ => cases h

theorem setPhase_threads (h : s.threads = before ++ p :: after) :
    (s.setPhase before.length q).threads = before ++ q :: after := by
  rw [setPhase, h, Pool.set_split]

/-- While a thread is inside or a request is outstanding, all the others are outside. -/
theorem Invariant.others (hs : s.Invariant) (h : s.threads = before ++ p :: after)
    (hp : 0 < p.inside + s.outstanding.length) : ∀ x ∈ before ++ after, x.inside = 0 := by
  have hinside := hs.inside_le
  rw [h, Pool.total_append, Pool.total_cons] at hinside
  intro x hx
  have hle := Pool.le_total (f := Phase.inside) hx
  rw [Pool.total_append] at hle
  omega

/-- While a thread is inside no request is outstanding, and all the others are outside. -/
theorem Invariant.alone (hs : s.Invariant) (h : s.threads = before ++ p :: after)
    (hp : p.inside = 1) : s.outstanding = [] ∧ ∀ x ∈ before ++ after, x.inside = 0 := by
  refine ⟨List.length_eq_zero_iff.1 ?_, hs.others h (by omega)⟩
  have hinside := hs.inside_le
  rw [h, Pool.total_append, Pool.total_cons] at hinside
  omega

/-- If all the others are outside, only the thread that goes on has to fit. -/
theorem fits_split (t : State) (hothers : ∀ x ∈ before ++ after, x.inside = 0) (hq : q.Fits t) :
    ∀ x ∈ before ++ q :: after, x.Fits t := by
  intro x hx
  rcases List.mem_append.1 hx with hx | hx
  · exact fits_of_outside t (hothers x (List.mem_append_left _ hx))
  · rcases List.mem_cons.1 hx with rfl | hx
    · exact hq
    · exact fits_of_outside t (hothers x (List.mem_append_right _ hx))

theorem Invariant.deliver (hs : s.Invariant) {r : Request} {request : Nat} {ok : Bool}
    (h : s.threads = before ++ .next :: after) (hr : s.outstanding[request]? = some r) :
    Invariant { s.setPhase before.length (.invoked ok r) with
      outstanding := s.outstanding.eraseIdx request
      received := if ok then s.received ++ [r] else s.received } := by
  have hlength := Pool.length_eraseIdx hr
  have hinside := hs.inside_le
  rw [h, Pool.total_append, Pool.total_cons] at hinside
  obtain ⟨call, rfl, hcall, hnew⟩ := hs.outstanding_of r (List.mem_of_getElem? hr)
  have hnone : s.outstanding.eraseIdx request = [] := List.length_eq_zero_iff.1 (by omega)
  have hhanded := hs.handed
  rw [h, List.flatMap_append, List.flatMap_cons] at hhanded
  have hothers := hs.others h (by omega)
  have hthreads := setPhase_threads (q := .invoked ok (.of call)) h
  cases ok with
  | false =>
      refine ⟨?_, ?_, ?_, hs.populated, hs.received_nodup, ?_, hs.received_lt,
        hs.receivedCall_lt, hs.destroyed_eq⟩
      · simp only [hthreads, hnone, Pool.total_append, Pool.total_cons, Phase.inside]
        simp
        omega
      · simp only [hthreads]
        exact fits_split _ hothers trivial
      · simp [hnone]
      · simp only [hthreads, List.flatMap_append, List.flatMap_cons]
        exact hhanded
  | true =>
      refine ⟨?_, ?_, ?_, ?_, ?_, ?_, ?_, hs.receivedCall_lt, hs.destroyed_eq⟩
      · simp only [hthreads, hnone, Pool.total_append, Pool.total_cons, Phase.inside]
        simp
        omega
      · simp only [hthreads]
        exact fits_split _ hothers hcall
      · simp [hnone]
      · intro r hr
        rcases List.mem_append.1 hr with hr | hr
        · exact hs.populated r hr
        · rw [List.mem_singleton.1 hr]
          rfl
      · simp only [if_true, List.map_append, List.map_singleton]
        refine List.nodup_append.2 ⟨hs.received_nodup, List.pairwise_singleton _ _, ?_⟩
        intro x hx y hy hxy
        rw [hxy, List.mem_singleton.1 hy] at hx
        exact hnew hx
      · rw [Phase.holds_next, List.nil_append, ← List.append_assoc] at hhanded
        simp only [hthreads, if_true, List.flatMap_append, List.flatMap_cons, List.map_append,
          List.map_singleton, Phase.holds_invoked, List.singleton_append]
        rw [← List.append_assoc]
        exact List.perm_middle.trans ((hhanded.cons _).trans (List.perm_append_singleton _ _).symm)
      · intro r hr
        rcases List.mem_append.1 hr with hr | hr
        · exact hs.received_lt r hr
        · rw [List.mem_singleton.1 hr]
          exact hs.receivedCall_lt call hcall

/-- A thread that goes on with the same call, and leaves the requests alone. -/
theorem Invariant.move (hs : s.Invariant) (h : s.threads = before ++ p :: after)
    (hinside : q.inside ≤ p.inside) (hholds : q.holds = p.holds) (hfits : q.Fits s) :
    (s.setPhase before.length q).Invariant := by
  have hthreads := setPhase_threads (q := q) h
  refine ⟨?_, ?_, hs.outstanding_of, hs.populated, hs.received_nodup, ?_, hs.received_lt,
    hs.receivedCall_lt, hs.destroyed_eq⟩
  · have hle := hs.inside_le
    rw [h, Pool.total_append, Pool.total_cons] at hle
    rw [hthreads, Pool.total_append, Pool.total_cons]
    show _ + s.outstanding.length ≤ 1
    omega
  · rw [hthreads]
    have hall := hs.fits
    rw [h] at hall
    intro x hx
    rcases List.mem_append.1 hx with hx | hx
    · exact hall x (List.mem_append_left _ hx)
    · rcases List.mem_cons.1 hx with rfl | hx
      · exact hfits
      · exact hall x (List.mem_append_right _ (List.mem_cons_of_mem _ hx))
  · have hhanded := hs.handed
    rw [h, List.flatMap_append, List.flatMap_cons] at hhanded
    rw [hthreads, List.flatMap_append, List.flatMap_cons, hholds]
    exact hhanded

theorem Invariant.release (hs : s.Invariant) {caller : Caller}
    (h : s.threads = before ++ .receiving caller :: after) :
    Invariant { s.setPhase before.length (.released caller s.receivedCall) with
      receivedCall := none } := by
  have hthreads := setPhase_threads (q := .released caller s.receivedCall) h
  obtain ⟨hnone, hothers⟩ := hs.alone h rfl
  have hcall : s.receivedCall = caller.call :=
    hs.fits (.receiving caller) (h ▸ List.mem_append_right _ List.mem_cons_self)
  have hle := hs.inside_le
  rw [h, Pool.total_append, Pool.total_cons] at hle
  refine ⟨?_, ?_, ?_, hs.populated, hs.received_nodup, ?_, hs.received_lt, ?_, hs.destroyed_eq⟩
  · simp only [hthreads, Pool.total_append, Pool.total_cons]
    exact hle
  · simp only [hthreads]
    exact fits_split _ hothers ⟨rfl, hcall⟩
  · show ∀ r ∈ s.outstanding, _
    rw [hnone]
    nofun
  · have hhanded := hs.handed
    rw [h, List.flatMap_append, List.flatMap_cons] at hhanded
    show (s.scheduled ++ (s.setPhase _ _).threads.flatMap Phase.holds).Perm _
    rw [hthreads, List.flatMap_append, List.flatMap_cons, hcall]
    cases caller <;> exact hhanded
  · intro call hnull
    cases hnull

theorem Invariant.reset (hs : s.Invariant) {caller : Caller} {receivedCall : Option Call}
    (h : s.threads = before ++ .released caller receivedCall :: after) :
    Invariant { s.setPhase before.length
        (.requesting caller receivedCall ⟨none, none, none⟩) with
      receivedCall := some s.fresh
      fresh := s.fresh + 1
      destroyed := s.destroyed ++ s.receivedCall.toList } := by
  have hthreads :=
    setPhase_threads (q := .requesting caller receivedCall ⟨none, none, none⟩) h
  obtain ⟨hnone, hothers⟩ := hs.alone h rfl
  obtain ⟨hnull, hcall⟩ : s.receivedCall = none ∧ receivedCall = caller.call :=
    hs.fits (.released caller receivedCall) (h ▸ List.mem_append_right _ List.mem_cons_self)
  have hle := hs.inside_le
  rw [h, Pool.total_append, Pool.total_cons] at hle
  have hfresh : s.fresh ∉ s.received.map Request.context := by
    intro hmem
    obtain ⟨r, hr, heq⟩ := List.mem_map.1 hmem
    exact absurd (hs.received_lt r hr) (heq ▸ Nat.lt_irrefl _)
  refine ⟨?_, ?_, ?_, hs.populated, hs.received_nodup, ?_, ?_, ?_, ?_⟩
  · simp only [hthreads, Pool.total_append, Pool.total_cons]
    exact hle
  · simp only [hthreads]
    exact fits_split _ hothers ⟨hcall, s.fresh, rfl, hfresh, by simp [Arguments.Within]⟩
  · show ∀ r ∈ s.outstanding, _
    rw [hnone]
    nofun
  · have hhanded := hs.handed
    rw [h, List.flatMap_append, List.flatMap_cons] at hhanded
    show (s.scheduled ++ (s.setPhase _ _).threads.flatMap Phase.holds).Perm _
    rw [hthreads, List.flatMap_append, List.flatMap_cons]
    cases caller <;> exact hhanded
  · intro r hr
    exact Nat.lt_succ_of_lt (hs.received_lt r hr)
  · intro call hsome
    cases hsome
    exact Nat.lt_succ_self _
  · show s.destroyed ++ s.receivedCall.toList = []
    rw [hs.destroyed_eq, hnull]
    rfl

/-- `set` writes one of the arguments. -/
theorem Invariant.evaluate (hs : s.Invariant) {thread : Nat} {set : Arguments → Call → Arguments}
    (hset : ∀ arguments call, arguments.Within call → (set arguments call).Within call)
    (h : s.evaluate thread set = some t) : t.Invariant := by
  unfold State.evaluate at h
  split at h
  · next caller receivedCall arguments hget =>
      obtain ⟨call, hsome, rfl⟩ := Option.map_eq_some_iff.1 h
      obtain ⟨before, after, hthreads, rfl⟩ := Pool.exists_split hget
      obtain ⟨hcall, call', hsome', hnew, hwithin⟩ := hs.fits _ (List.mem_of_getElem? hget)
      obtain rfl : call = call' := Option.some.inj (hsome.symm.trans hsome')
      have hfits : (Phase.requesting caller receivedCall (set arguments call)).Fits s :=
        ⟨hcall, call, hsome, hnew, hset _ _ hwithin⟩
      refine hs.move hthreads (Nat.le_refl _) ?_ hfits
      cases caller <;> rfl
  · cases h

theorem Invariant.requestAsyncUnary (hs : s.Invariant) {caller : Caller}
    {receivedCall : Option Call} {context requestBuffer responder : Call}
    (h : s.threads = before ++
      .requesting caller receivedCall ⟨some context, some requestBuffer, some responder⟩ :: after) :
    Invariant { s.setPhase before.length (caller.return receivedCall) with
      outstanding := s.outstanding ++ [⟨context, requestBuffer, responder⟩] } := by
  have hthreads := setPhase_threads (q := caller.return receivedCall) h
  obtain ⟨hnone, hothers⟩ := hs.alone h rfl
  obtain ⟨-, call, hsome, hnew, hwithin⟩ := hs.fits _
    (h ▸ List.mem_append_right _ List.mem_cons_self)
  obtain rfl : context = call := hwithin context (Or.inl rfl)
  obtain rfl : requestBuffer = context := hwithin requestBuffer (Or.inr (Or.inl rfl))
  obtain rfl : responder = requestBuffer := hwithin responder (Or.inr (Or.inr rfl))
  have hle := hs.inside_le
  rw [h, Pool.total_append, Pool.total_cons] at hle
  have hoff : (caller.return receivedCall).inside = 0 := by
    cases caller <;> rfl
  refine ⟨?_, ?_, ?_, hs.populated, hs.received_nodup, ?_, hs.received_lt, hs.receivedCall_lt,
    hs.destroyed_eq⟩
  · simp only [hthreads, Pool.total_append, Pool.total_cons, List.length_append,
      List.length_singleton]
    simp only [Phase.inside] at hle
    omega
  · simp only [hthreads]
    exact fits_split _ hothers (fits_of_outside _ hoff)
  · show ∀ r ∈ s.outstanding ++ _, _
    rw [hnone]
    intro r hr
    exact ⟨responder, List.mem_singleton.1 hr, hsome, hnew⟩
  · have hhanded := hs.handed
    rw [h, List.flatMap_append, List.flatMap_cons] at hhanded
    show (s.scheduled ++ (s.setPhase _ _).threads.flatMap Phase.holds).Perm _
    rw [hthreads, List.flatMap_append, List.flatMap_cons]
    cases caller <;> exact hhanded

theorem Invariant.schedule (hs : s.Invariant) {receivedCall : Option Call}
    (h : s.threads = before ++ .scheduling receivedCall :: after) :
    Invariant { s.setPhase before.length .next with
      scheduled := s.scheduled ++ [receivedCall] } := by
  have hthreads := setPhase_threads (q := .next) h
  have hfits := hs.fits
  have hle := hs.inside_le
  rw [h] at hfits
  rw [h, Pool.total_append, Pool.total_cons] at hle
  refine ⟨?_, ?_, hs.outstanding_of, hs.populated, hs.received_nodup, ?_, hs.received_lt,
    hs.receivedCall_lt, hs.destroyed_eq⟩
  · simp only [hthreads, Pool.total_append, Pool.total_cons]
    exact hle
  · simp only [hthreads]
    intro x hx
    rcases List.mem_append.1 hx with hx | hx
    · exact hfits x (List.mem_append_left _ hx)
    · rcases List.mem_cons.1 hx with rfl | hx
      · trivial
      · exact hfits x (List.mem_append_right _ (List.mem_cons_of_mem _ hx))
  · have hhanded := hs.handed
    rw [h, List.flatMap_append, List.flatMap_cons, Phase.holds_scheduling,
      List.singleton_append] at hhanded
    simp only [hthreads, List.flatMap_append, List.flatMap_cons, Phase.holds_next, List.nil_append]
    rw [List.append_assoc, List.singleton_append]
    exact (List.Perm.append_left _ List.perm_middle.symm).trans hhanded

theorem Invariant.step (hs : s.Invariant) (h : UnaryCallData.step s a = some t) :
    t.Invariant := by
  cases a with
  | deliver thread request ok =>
      simp only [UnaryCallData.step] at h
      split at h
      · next r hget hr =>
          cases h
          obtain ⟨before, after, hthreads, rfl⟩ := Pool.exists_split hget
          exact hs.deliver hthreads hr
      · cases h
  | invoke thread =>
      simp only [UnaryCallData.step] at h
      split at h
      · next ok request hget =>
          cases h
          obtain ⟨before, after, hthreads, rfl⟩ := Pool.exists_split hget
          have hfits := hs.fits _ (List.mem_of_getElem? hget)
          cases ok with
          | false => exact hs.move hthreads (Nat.le_refl _) rfl trivial
          | true => exact hs.move hthreads (Nat.le_refl _) rfl hfits
      · cases h
  | release thread =>
      simp only [UnaryCallData.step] at h
      split at h
      · next caller hget =>
          cases h
          obtain ⟨before, after, hthreads, rfl⟩ := Pool.exists_split hget
          exact hs.release hthreads
      · cases h
  | reset thread =>
      simp only [UnaryCallData.step] at h
      split at h
      · next caller receivedCall hget =>
          cases h
          obtain ⟨before, after, hthreads, rfl⟩ := Pool.exists_split hget
          exact hs.reset hthreads
      · cases h
  | context thread =>
      refine hs.evaluate ?_ h
      rintro arguments call hwithin c (hc | hc)
      · exact (Option.some.inj hc).symm
      · exact hwithin c (Or.inr hc)
  | requestBuffer thread =>
      refine hs.evaluate ?_ h
      rintro arguments call hwithin c (hc | hc | hc)
      · exact hwithin c (Or.inl hc)
      · exact (Option.some.inj hc).symm
      · exact hwithin c (Or.inr (Or.inr hc))
  | responder thread =>
      refine hs.evaluate ?_ h
      rintro arguments call hwithin c (hc | hc | hc)
      · exact hwithin c (Or.inl hc)
      · exact hwithin c (Or.inr (Or.inl hc))
      · exact (Option.some.inj hc).symm
  | requestAsyncUnary thread =>
      simp only [UnaryCallData.step] at h
      split at h
      · next hget =>
          cases h
          obtain ⟨before, after, hthreads, rfl⟩ := Pool.exists_split hget
          exact hs.requestAsyncUnary hthreads
      · cases h
  | schedule thread =>
      simp only [UnaryCallData.step] at h
      split at h
      · next receivedCall hget =>
          cases h
          obtain ⟨before, after, hthreads, rfl⟩ := Pool.exists_split hget
          exact hs.schedule hthreads
      · cases h

theorem init_invariant (n : Nat) : (init n).Invariant := by
  have hinside : Pool.total Phase.inside (List.replicate n .next) = 0 :=
    Pool.total_eq_zero fun p hp => List.eq_of_mem_replicate hp ▸ rfl
  have hholds : (List.replicate n Phase.next).flatMap Phase.holds = [] := by
    rw [List.flatMap_eq_nil_iff]
    intro p hp
    rw [List.eq_of_mem_replicate hp]
    rfl
  refine ⟨?_, ?_, nofun, nofun, List.Pairwise.nil, ?_, nofun, nofun, rfl⟩
  · simp only [init, Pool.total_cons, hinside]
    exact Nat.le_refl 1
  · intro p hp
    rcases List.mem_cons.1 hp with rfl | hp
    · rfl
    · rw [List.eq_of_mem_replicate hp]
      trivial
  · simp only [init, List.flatMap_cons, hholds]
    exact List.Perm.nil

/-! ## The property follows -/

theorem inside_of_accesses (h : p.accesses = true) : p.inside = 1 := by
  cases p <;> first | rfl | cases h

/-- No two threads are inside. -/
theorem Invariant.eq_of_inside (hs : s.Invariant) {i j : Nat} (hp : s.threads[i]? = some p)
    (hq : s.threads[j]? = some q) (hpin : p.inside = 1) (hqin : q.inside = 1) : i = j := by
  by_contra hne
  have hle := hs.inside_le
  have herase := Pool.total_eraseIdx (f := Phase.inside) hp
  have hmem : q ∈ s.threads.eraseIdx i :=
    List.mem_eraseIdx_iff_getElem?.2 ⟨j, fun h => hne h.symm, hq⟩
  have hpos := Pool.le_total (f := Phase.inside) hmem
  omega

theorem Invariant.safe (hs : s.Invariant) : s.Safe where
  outstanding_le := by
    have hle := hs.inside_le
    omega
  exclusive i j p q hp hq hpacc hqacc :=
    hs.eq_of_inside hp hq (inside_of_accesses hpacc) (inside_of_accesses hqacc)
  not_null caller receivedCall arguments hmem hnull := by
    obtain ⟨_, call, hsome, _⟩ := hs.fits _ hmem
    rw [hnull] at hsome
    cases hsome
  populated := hs.populated
  received_nodup := hs.received_nodup
  handed := hs.handed
  destroyed_eq := hs.destroyed_eq
  handed_all hnext := by
    have hhanded := hs.handed
    have hnone : s.threads.flatMap Phase.holds = [] := by
      rw [List.flatMap_eq_nil_iff]
      intro p hp
      rw [hnext p hp]
      rfl
    rwa [hnone, List.append_nil] at hhanded

end State

/-- In whatever order any number of threads and gRPC take their steps, the property holds all along. -/
theorem callData_safe_along (n : Nat) (run : List Action) : system.Along State.Safe (State.init n) run :=
  (System.along_of_step (I := State.Invariant) (fun _ _ _ hs h => hs.step h)
    (State.init_invariant n) run).mono fun _ hs => hs.safe

end UnaryCallData

end Bond.Cpp.Ext

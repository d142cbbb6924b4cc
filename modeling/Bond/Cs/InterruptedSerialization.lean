import Bond.Cs.CompactBinaryCounter
import Bond.Managed.InterruptedPasses

set_option autoImplicit false

/-! # Serializations that throw in C#

One `CompactBinaryWriter` of version 2 for a history of serializations, some of which throw
(cs/src/core/protocols/CompactBinary.cs, cs/src/core/Serializer.cs). The lengths of the first pass
and the stack of its counter are kept in the writer, and `GetFirstPassWriter` takes lengths that are
there for those of a second pass under way. -/

namespace Bond.Cs.CompactBinary

open Bond.Cpp (BondDataType)
open Bond.Lib Bond.Managed
open Bond.Lib.Interrupted (Interruption Run)
open IntegerHelper

/-! ## What a serializer does -/

/-- A call on the writer, or `IBonded.Serialize`, which starts a serialization with the same
    writer. -/
inductive Action where
  | call (call : WriterCall)
  | serialize (body : List Action)

def structActions (body : List Action) : List Action :=
  .call .writeStructBegin :: (body ++ [.call .writeStructEnd])

mutual

/-- What the serializer does for a value -/
def valueActions : Value → List Action
  | .basic v => [.call (.write v)]
  | .list _ element items =>
      .call (.writeContainerBegin (Int32.ofNat items.length) element) :: itemsActions items
  | .blob element data =>
      [.call (.writeContainerBegin (Int32.ofNat data.length) element), .call (.writeBytes data)]
  | .map key element items =>
      .call (.writeMapBegin (Int32.ofNat items.length) key element) :: pairsActions items
  | .struct s => structActions (bodyActions s)
  | .bonded s => [.serialize (structActions (bodyActions s))]

def itemsActions : List Value → List Action
  | [] => []
  | v :: vs => valueActions v ++ itemsActions vs

def pairsActions : List (Value × Value) → List Action
  | [] => []
  | (k, v) :: kvs => (valueActions k ++ valueActions v) ++ pairsActions kvs

def fieldsActions : List (UInt16 × Value) → List Action
  | [] => []
  | (id, v) :: fs => (.call (.writeFieldBegin v.typeId id) :: valueActions v) ++ fieldsActions fs

/-- What the serializer does for a base -/
def baseActions : StructValue → List Action
  | .root fields => [.call .writeBaseBegin] ++ [] ++ fieldsActions fields ++ [.call .writeBaseEnd]
  | .derived base fields =>
      [.call .writeBaseBegin] ++ baseActions base ++ fieldsActions fields ++ [.call .writeBaseEnd]

/-- What the serializer does between the begin and the end of a struct -/
def bodyActions : StructValue → List Action
  | .root fields => fieldsActions fields
  | .derived base fields => baseActions base ++ fieldsActions fields

end

mutual

/-- The calls that come of an action; on the first pass `IBonded.Serialize` makes one pass only. -/
def Action.calls : Action → List WriterCall
  | .call call => [call]
  | .serialize body => actionsCalls body

def actionsCalls : List Action → List WriterCall
  | [] => []
  | action :: actions => action.calls ++ actionsCalls actions

end

/-! ## The writer -/

/-- The state that a `CompactBinaryWriter` keeps from one serialization to the next: its output, its
    `lengths` and the `counterStack` of its `firstPassWriter`. A frame that is left on the stack has
    no `lengthSlot` in `lengths` any more; no later pass comes down to it. The checks of a debug
    build are left out. -/
structure WriterState where
  output : List UInt8
  lengths : List UInt32
  counterStack : List (Nat × UInt32)
deriving DecidableEq, Repr

/-- A call on the first pass -/
def WriterState.first (w : WriterState) (call : WriterCall) : Option WriterState :=
  (Counter.step ⟨w.counterStack, w.lengths⟩ call).map fun counter =>
    { w with counterStack := counter.stack, lengths := counter.lengths }

/-- A call on the second pass -/
def WriterState.second (w : WriterState) (call : WriterCall) : Option WriterState :=
  (Writer.step 2 ⟨w.output, w.lengths⟩ call).map fun writer =>
    { w with output := writer.output, lengths := writer.lengths }

/-- A call on the second pass that throws when it has written some of its bytes. A length is removed
    from `lengths` before it is written. -/
def WriterState.tornSecond (w : WriterState) (call : WriterCall) (bytes : Nat) : WriterState :=
  match w.second call with
  | none => w
  | some w' => { w' with output := w'.output.take (w.output.length + bytes) }

/-- The first pass over the calls of an object; a counter writes nothing. -/
def firstCalls (calls : List WriterCall) (r : Run WriterState) : Run WriterState :=
  r.calls WriterState.first (fun w _ _ => w) calls

/-- `GetFirstPassWriter`, and the first pass if there is one -/
def firstPassWriter (calls : List WriterCall) (r : Run WriterState) : Run WriterState :=
  if r.state.lengths = [] then firstCalls calls r else r

mutual

/-- An action on the second pass. `TwoPassSerializerHelper.Serialize` makes both passes. -/
def Action.second : Action → Run WriterState → Run WriterState
  | .call call, r => r.call WriterState.second WriterState.tornSecond call
  | .serialize body, r => secondPass body (firstPassWriter (actionsCalls body) r)

def secondPass : List Action → Run WriterState → Run WriterState
  | [], r => r
  | action :: actions, r => secondPass actions (action.second r)

end

/-- `Serialize` of an object with the writer -/
def serialize (obj : StructValue) (r : Run WriterState) : Run WriterState :=
  (Action.serialize (structActions (bodyActions obj))).second r

/-- The writer after a history of serializations, each with the exception that comes in it. -/
def WriterState.after (w : WriterState) (history : List (StructValue × Option Interruption)) :
    WriterState :=
  history.foldl (fun w call => (serialize call.1 ⟨w, call.2, false⟩).state) w

/-- A serialization of any object comes to its end and writes the encoding of the object. -/
def WritesExactly (w : WriterState) : Prop :=
  ∀ obj : StructValue, ∃ w', serialize obj ⟨w, none, false⟩ = ⟨w', none, false⟩ ∧
    w'.output = w.output ++ (Value.struct obj).encode format

/-! ## Calls and actions -/

theorem actionsCalls_append (actions rest : List Action) :
    actionsCalls (actions ++ rest) = actionsCalls actions ++ actionsCalls rest := by
  induction actions with
  | nil => rfl
  | cons action actions ih =>
      rw [List.cons_append, actionsCalls, actionsCalls, ih, List.append_assoc]

theorem structActions_calls {body : List Action} {calls : List WriterCall}
    (h : actionsCalls body = calls) :
    actionsCalls (structActions body) = .writeStructBegin :: (calls ++ [.writeStructEnd]) := by
  rw [structActions, actionsCalls, actionsCalls_append, h]
  rfl

mutual

/-- The actions for a value come to its calls. -/
theorem valueActions_calls : ∀ v : Value, actionsCalls (valueActions v) = v.calls .within
  | .basic _ => rfl
  | .list _ _ items => congrArg (List.cons _) (itemsActions_calls items)
  | .blob _ _ => rfl
  | .map _ _ items => congrArg (List.cons _) (pairsActions_calls items)
  | .struct s => structActions_calls (bodyActions_calls s)
  | .bonded s => by
      rw [valueActions, actionsCalls, Action.calls, structActions_calls (bodyActions_calls s)]
      exact List.append_nil _

theorem itemsActions_calls : ∀ vs : List Value,
    actionsCalls (itemsActions vs) = itemsCalls .within vs
  | [] => rfl
  | v :: vs => by
      rw [itemsActions, actionsCalls_append, valueActions_calls v, itemsActions_calls vs]
      rfl

theorem pairsActions_calls : ∀ kvs : List (Value × Value),
    actionsCalls (pairsActions kvs) = pairsCalls .within kvs
  | [] => rfl
  | (k, v) :: kvs => by
      rw [pairsActions, actionsCalls_append, actionsCalls_append, valueActions_calls k,
        valueActions_calls v, pairsActions_calls kvs]
      rfl

theorem fieldsActions_calls : ∀ fs : List (UInt16 × Value),
    actionsCalls (fieldsActions fs) = fieldsCalls .within fs
  | [] => rfl
  | (id, v) :: fs => by
      rw [fieldsActions, actionsCalls_append, actionsCalls, valueActions_calls v,
        fieldsActions_calls fs]
      rfl

theorem baseActions_calls : ∀ s : StructValue, actionsCalls (baseActions s) = s.baseCalls .within
  | .root fields => by
      simp only [baseActions, actionsCalls_append, fieldsActions_calls fields]
      rfl
  | .derived base fields => by
      simp only [baseActions, actionsCalls_append, fieldsActions_calls fields,
        baseActions_calls base]
      rfl

theorem bodyActions_calls : ∀ s : StructValue, actionsCalls (bodyActions s) = s.bodyCalls .within
  | .root fields => fieldsActions_calls fields
  | .derived base fields => by
      rw [bodyActions, actionsCalls_append, baseActions_calls base, fieldsActions_calls fields]
      rfl

end

/-! ## The second pass -/

theorem secondPass_append (actions rest : List Action) (r : Run WriterState) :
    secondPass (actions ++ rest) r = secondPass rest (secondPass actions r) := by
  induction actions generalizing r with
  | nil => rfl
  | cons action actions ih => rw [List.cons_append, secondPass, secondPass, ih]

/-- The actions come to calls whose second pass they make, unless the calls fail by themselves. -/
def MakesCalls (actions : List Action) (calls : List WriterCall) : Prop :=
  ∀ r : Run WriterState, r.Able WriterState.second calls →
    secondPass actions r = r.calls WriterState.second WriterState.tornSecond calls

theorem MakesCalls.nil : MakesCalls [] [] := fun _ _ => rfl

theorem MakesCalls.call (call : WriterCall) : MakesCalls [.call call] [call] := fun _ _ => rfl

theorem MakesCalls.append {actions rest : List Action} {calls calls' : List WriterCall}
    (h : MakesCalls actions calls) (h' : MakesCalls rest calls') :
    MakesCalls (actions ++ rest) (calls ++ calls') := by
  intro r hable
  rw [secondPass_append, h r hable.left, h' _ hable.right, Run.calls_append]

theorem MakesCalls.cons {actions : List Action} {calls : List WriterCall} (call : WriterCall)
    (h : MakesCalls actions calls) : MakesCalls (.call call :: actions) (call :: calls) :=
  (MakesCalls.call call).append h

theorem MakesCalls.struct {body : List Action} {calls : List WriterCall}
    (h : MakesCalls body calls) :
    MakesCalls (structActions body) (.writeStructBegin :: (calls ++ [.writeStructEnd])) :=
  (h.append (MakesCalls.call _)).cons _

/-- To begin a struct takes a length, so that a nested serialization makes no first pass. -/
theorem firstPassWriter_of_able {r : Run WriterState} {calls : List WriterCall}
    (h : r.Able WriterState.second (.writeStructBegin :: calls)) (first : List WriterCall) :
    firstPassWriter first r = r := by
  unfold firstPassWriter
  split
  · next hlengths =>
      rcases h with hthrown | ⟨w', h⟩
      · exact Run.calls_of_thrown hthrown first
      · simp [WriterState.second, Writer.step, hlengths] at h
  · rfl

theorem MakesCalls.serialize {body : List Action} {calls : List WriterCall}
    (h : MakesCalls body (.writeStructBegin :: calls)) :
    MakesCalls [.serialize body] (.writeStructBegin :: calls) := by
  intro r hable
  rw [secondPass, secondPass, Action.second, firstPassWriter_of_able hable, h r hable]

mutual

theorem makesCalls_value : ∀ v : Value, MakesCalls (valueActions v) (v.calls .within)
  | .basic _ => MakesCalls.call _
  | .list _ _ items => (makesCalls_items items).cons _
  | .blob _ _ => (MakesCalls.call _).cons _
  | .map _ _ items => (makesCalls_pairs items).cons _
  | .struct s => (makesCalls_body s).struct
  | .bonded s => (makesCalls_body s).struct.serialize

theorem makesCalls_items : ∀ vs : List Value, MakesCalls (itemsActions vs) (itemsCalls .within vs)
  | [] => MakesCalls.nil
  | v :: vs => (makesCalls_value v).append (makesCalls_items vs)

theorem makesCalls_pairs : ∀ kvs : List (Value × Value),
    MakesCalls (pairsActions kvs) (pairsCalls .within kvs)
  | [] => MakesCalls.nil
  | (k, v) :: kvs =>
      ((makesCalls_value k).append (makesCalls_value v)).append (makesCalls_pairs kvs)

theorem makesCalls_fields : ∀ fs : List (UInt16 × Value),
    MakesCalls (fieldsActions fs) (fieldsCalls .within fs)
  | [] => MakesCalls.nil
  | (_, v) :: fs => ((makesCalls_value v).cons _).append (makesCalls_fields fs)

theorem makesCalls_base : ∀ s : StructValue, MakesCalls (baseActions s) (s.baseCalls .within)
  | .root fields =>
      (((MakesCalls.call _).append .nil).append (makesCalls_fields fields)).append (.call _)
  | .derived base fields =>
      (((MakesCalls.call _).append (makesCalls_base base)).append
        (makesCalls_fields fields)).append (.call _)

theorem makesCalls_body : ∀ s : StructValue, MakesCalls (bodyActions s) (s.bodyCalls .within)
  | .root fields => makesCalls_fields fields
  | .derived base fields => (makesCalls_base base).append (makesCalls_fields fields)

end

theorem makesCalls_struct (s : StructValue) :
    MakesCalls (structActions (bodyActions s)) (s.calls .within) :=
  (makesCalls_body s).struct

theorem serialize_eq (obj : StructValue) (r : Run WriterState) :
    serialize obj r
      = secondPass (structActions (bodyActions obj)) (firstPassWriter (obj.calls .within) r) := by
  rw [serialize, Action.second, structActions_calls (bodyActions_calls obj)]
  rfl

/-! ## The passes of a serialization -/

theorem firsts_of_counter {w : WriterState} {calls : List WriterCall} {counter : Counter}
    (h : calls.foldlM Counter.step ⟨w.counterStack, w.lengths⟩ = some counter) :
    calls.foldlM WriterState.first w
      = some { w with counterStack := counter.stack, lengths := counter.lengths } := by
  induction calls generalizing w with
  | nil =>
      obtain rfl := Option.some.inj h
      rfl
  | cons call calls ih =>
      rw [List.foldlM_cons] at h ⊢
      obtain ⟨mid, hmid, hrest⟩ := Option.bind_eq_some_iff.1 h
      have hfirst : w.first call
          = some { w with counterStack := mid.stack, lengths := mid.lengths } := by
        rw [WriterState.first, hmid]
        rfl
      rw [hfirst]
      exact ih hrest

theorem seconds_of_writer {w : WriterState} {calls : List WriterCall} {writer : Writer}
    (h : calls.foldlM format.second ⟨w.output, w.lengths⟩ = some writer) :
    calls.foldlM WriterState.second w
      = some { w with output := writer.output, lengths := writer.lengths } := by
  rw [← Writer.step_eq] at h
  induction calls generalizing w with
  | nil =>
      obtain rfl := Option.some.inj h
      rfl
  | cons call calls ih =>
      rw [List.foldlM_cons] at h ⊢
      obtain ⟨mid, hmid, hrest⟩ := Option.bind_eq_some_iff.1 h
      have hsecond : w.second call
          = some { w with output := mid.output, lengths := mid.lengths } := by
        rw [WriterState.second, hmid]
        rfl
      rw [hsecond]
      exact ih hrest

/-- The first pass over an object, with whatever failed runs have left on the stack. -/
theorem first_calls (s : StructValue) (stack : List (Nat × UInt32)) :
    ∃ structs stack', format.Counts (s.calls .within) (Value.count format (.struct s))
        (Value.encode format (.struct s)) structs ∧
      (s.calls .within).foldlM format.first ⟨stack, []⟩ = some ⟨stack', structs.map Prod.fst⟩ := by
  obtain ⟨structs, h⟩ := isWriter.structBody .within s
  obtain ⟨stack', hrun⟩ := h.first_struct_of_stack (o := .writeStructBegin) (c := .writeStructEnd)
    rfl rfl stack
  exact ⟨_, stack', h.struct rfl rfl, hrun⟩

/-- Both passes over an object, without an exception. -/
theorem passes_calls {w : WriterState} (hclean : w.lengths = []) (obj : StructValue) :
    ∃ lengths stack, lengths.length = TwoPass.begins WriterCall.kind (obj.calls .within) ∧
      (obj.calls .within).foldlM WriterState.first w = some ⟨w.output, lengths, stack⟩ ∧
      (obj.calls .within).foldlM WriterState.second ⟨w.output, lengths, stack⟩
        = some ⟨w.output ++ (Value.struct obj).encode format, [], stack⟩ := by
  obtain ⟨structs, stack, hcounts, hfirst⟩ := first_calls obj w.counterStack
  have hlength := (TwoPass.Format.firsts_extends hfirst).length_eq
  rw [List.length_nil, Nat.zero_add] at hlength
  have hcounter := TwoPass.foldlM_of_step (fun _ _ _ => Counter.step_of_first) hfirst
  rw [← hclean] at hcounter
  have hwriter := hcounts.second w.output []
  rw [List.append_nil] at hwriter
  exact ⟨structs.map Prod.fst, stack, hlength, firsts_of_counter hcounter,
    seconds_of_writer (w := ⟨w.output, structs.map Prod.fst, stack⟩) hwriter⟩

/-- A serialization that comes to no exception. -/
theorem serialize_of_clean {w : WriterState} (hclean : w.lengths = []) (obj : StructValue) :
    ∃ stack, serialize obj ⟨w, none, false⟩
      = ⟨⟨w.output ++ (Value.struct obj).encode format, [], stack⟩, none, false⟩ := by
  obtain ⟨lengths, stack, -, hfirst, hsecond⟩ := passes_calls hclean obj
  refine ⟨stack, ?_⟩
  rw [serialize_eq, firstPassWriter, if_pos hclean, firstCalls, Run.calls_of_steps hfirst,
    makesCalls_struct obj _ (Or.inr ⟨_, hsecond⟩), Run.calls_of_steps hsecond]

/-! ## Lengths that a failed run leaves behind -/

/-- A second pass that is cut short has taken the lengths of the structs that have begun, and that
    of a struct that was about to. -/
theorem interrupted_lengths {w : WriterState} {calls : List WriterCall}
    (h : TwoPass.begins WriterCall.kind calls ≤ w.lengths.length) {k : Nat} (hk : k < calls.length)
    (within : Option Nat) :
    (Run.calls WriterState.second WriterState.tornSecond ⟨w, some ⟨k, within⟩, false⟩
        calls).state.lengths
      = w.lengths.drop (TwoPass.begins WriterCall.kind
          (calls.take (k + if within.isSome then 1 else 0))) := by
  refine Run.calls_of_lt_torn WriterState.lengths
    (g := fun m => w.lengths.drop (TwoPass.begins WriterCall.kind (calls.take m))) ?_ ?_ hk within
  · intro w c w' bytes hstep
    rw [WriterState.tornSecond, hstep]
  · intro m
    obtain ⟨output, hrun⟩ := TwoPass.Format.seconds_lengths format (calls.take m) w.output w.lengths
      (Nat.le_trans (begins_take_le calls m) h)
    exact ⟨_, seconds_of_writer hrun, rfl⟩

theorem serialize_lengths {w : WriterState} (hclean : w.lengths = []) (obj : StructValue)
    (interruption : Option Interruption) :
    (serialize obj ⟨w, interruption, false⟩).state.lengths = []
      ↔ leavesNoLengths .within obj interruption := by
  rcases interruption with _ | ⟨k, within⟩
  · obtain ⟨stack, hrun⟩ := serialize_of_clean hclean obj
    simp [hrun, leavesNoLengths]
  rw [serialize_eq, firstPassWriter, if_pos hclean, firstCalls]
  by_cases hk : (obj.calls .within).length ≤ k
  · -- the first pass is complete
    obtain ⟨lengths, stack, hlength, hfirst, hsecond⟩ := passes_calls hclean obj
    have hpositive : k ≠ 0 := by
      rintro rfl
      simp [StructValue.calls] at hk
    rw [Run.calls_of_le hfirst hk, makesCalls_struct obj _ (Or.inr ⟨_, hsecond⟩)]
    simp only [leavesNoLengths, hk, true_and, hpositive, false_or]
    by_cases hrest : (obj.calls .within).length ≤ k - (obj.calls .within).length
    · rw [Run.calls_of_le hsecond hrest, List.drop_eq_nil_of_le (by omega)]
      simp
    · rw [interrupted_lengths (by simp [hlength]) (Nat.lt_of_not_le hrest),
        drop_begins_eq_nil (by rw [Nat.zero_add, hlength])]
      simp
  · -- the exception comes on the first pass
    obtain ⟨structs, stack, -, hfirst⟩ := first_calls obj w.counterStack
    rw [Nat.not_le] at hk
    rw [← List.take_append_drop k (obj.calls .within), List.foldlM_append] at hfirst
    obtain ⟨mid, hmid, -⟩ := Option.bind_eq_some_iff.1 hfirst
    have hlength := (TwoPass.Format.firsts_extends hmid).length_eq
    rw [List.length_nil, Nat.zero_add] at hlength
    have hcounter := TwoPass.foldlM_of_step (fun _ _ _ => Counter.step_of_first) hmid
    rw [← hclean] at hcounter
    have hstate (w : WriterState) (c : WriterCall) :
        Lib.Interrupted.cut (fun w _ _ => w) within w c = w := by
      cases within <;> rfl
    rw [Run.calls_of_lt _ hk (firsts_of_counter hcounter), hstate,
      makesCalls_struct obj _ (Or.inl rfl), Run.calls_of_thrown rfl]
    simp only [leavesNoLengths, Nat.not_le_of_lt hk, false_and, or_false]
    rw [← List.length_eq_zero_iff, hlength]
    exact begins_take_eq_zero

/-! ## Runs of a writer -/

/-- With a length left behind an object is written with that length, which is not that of every
    object. -/
theorem not_writesExactly {w : WriterState} (h : w.lengths ≠ []) : ¬ WritesExactly w := by
  obtain ⟨output, lengths, stack⟩ := w
  cases lengths with
  | nil => exact absurd rfl h
  | cons length lengths =>
      intro hwrites
      have hempty : serialize (.root []) ⟨⟨output, length :: lengths, stack⟩, none, false⟩
          = ⟨⟨output ++ encodeVarUInt32 length ++ [0], lengths, stack⟩, none, false⟩ := rfl
      have hbool : serialize (.root [(0, .basic (.bool true))])
            ⟨⟨output, length :: lengths, stack⟩, none, false⟩
          = ⟨⟨output ++ encodeVarUInt32 length ++ [2] ++ [1] ++ [0], lengths, stack⟩, none,
              false⟩ := rfl
      obtain ⟨w', hrun, hout⟩ := hwrites (.root [])
      obtain ⟨w'', hrun', hout'⟩ := hwrites (.root [(0, .basic (.bool true))])
      rw [hempty, Run.mk.injEq] at hrun
      rw [hbool, Run.mk.injEq] at hrun'
      obtain ⟨rfl, -, -⟩ := hrun
      obtain ⟨rfl, -, -⟩ := hrun'
      simp only [List.append_assoc, List.append_cancel_left_eq] at hout hout'
      have hone : encodeVarUInt32 length ++ [0] = [1] ++ [0] := hout
      have hthree : encodeVarUInt32 length ++ [2, 1, 0] = [3] ++ [2, 1, 0] := hout'
      have hlength := eq_of_encodeVarUInt_singleton (List.append_cancel_right hone)
      have hlength' := eq_of_encodeVarUInt_singleton (List.append_cancel_right hthree)
      rw [hlength] at hlength'
      exact absurd hlength' (by decide)

theorem writesExactly_iff_lengths (w : WriterState) : WritesExactly w ↔ w.lengths = [] := by
  constructor
  · intro h
    by_contra hlengths
    exact not_writesExactly hlengths h
  · intro hclean obj
    obtain ⟨stack, hrun⟩ := serialize_of_clean hclean obj
    exact ⟨_, hrun, rfl⟩

theorem after_append (w : WriterState) (history rest : List (StructValue × Option Interruption)) :
    w.after (history ++ rest) = (w.after history).after rest :=
  List.foldl_append

/-- A writer has no lengths at the end of each serialization if and only if none of them leaves
    lengths behind. -/
theorem after_lengths {w : WriterState} (hclean : w.lengths = [])
    (history : List (StructValue × Option Interruption)) :
    (∀ k, (w.after (history.take k)).lengths = []) ↔
      ∀ call ∈ history, leavesNoLengths .within call.1 call.2 := by
  induction history generalizing w with
  | nil => simp [WriterState.after, hclean]
  | cons call history ih =>
      rw [List.forall_mem_cons, ← serialize_lengths hclean call.1 call.2]
      constructor
      · intro h
        have hnext := h 1
        refine ⟨hnext, (ih hnext).1 fun k => h (k + 1)⟩
      · rintro ⟨hnext, hrest⟩ k
        cases k with
        | zero => exact hclean
        | succ k => exact (ih hnext).2 hrest k

/-- After every serialization of a history the writer writes the encoding of whatever object
    follows, if and only if each serialization that failed did so before the first struct of its
    first pass or past the begin of the last struct of its second. -/
theorem writesExactly_iff (output : List UInt8)
    (history : List (StructValue × Option Interruption)) :
    (∀ k, WritesExactly (WriterState.after ⟨output, [], []⟩ (history.take k))) ↔
      ∀ call ∈ history, leavesNoLengths .within call.1 call.2 := by
  simp only [writesExactly_iff_lengths]
  exact after_lengths rfl history

/-- An exception after the begin of a struct on the first pass: the next object is written with the
    length that is left, which is 0. -/
theorem not_writesExactly_after : ¬ ∀ history : List (StructValue × Option Interruption),
    WritesExactly (WriterState.after ⟨[], [], []⟩ history) := by
  intro h
  obtain ⟨w', hrun, hout⟩ := h [(.root [(0, .basic (.bool true))], some ⟨1, none⟩)] (.root [])
  have hafter : serialize (.root []) ⟨WriterState.after ⟨[], [], []⟩
      [(.root [(0, .basic (.bool true))], some ⟨1, none⟩)], none, false⟩
        = ⟨⟨[0, 0], [], [(0, 0)]⟩, none, false⟩ := rfl
  rw [hafter, Run.mk.injEq] at hrun
  obtain ⟨rfl, -, -⟩ := hrun
  exact absurd hout (by decide)

end Bond.Cs.CompactBinary

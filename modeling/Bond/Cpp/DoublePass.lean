import Bond.Cpp.CompactBinary
import Bond.Cpp.WriterCalls

set_option autoImplicit false

/-! # The two passes of Compact Binary v2

A struct of Compact Binary v2 starts with its length, so `CompactBinaryWriter` makes two passes
over the same calls: `Pass0` counts and records the lengths, the second pass writes and takes one
recorded length for each struct it begins. -/

namespace Bond.Cpp

open Varint

namespace CompactBinary

/-! ## First pass -/

/-- The writer of the first pass: the count of its `OutputCounter`, the indices of the structs that
    have begun, innermost first, and a length for each struct that is not a base. -/
structure Pass0 where
  count : UInt32
  stack : List Nat
  lengths : List UInt32
deriving DecidableEq, Repr

def Pass0.init : Pass0 :=
  ⟨0, [], []⟩

/-- A call on the first pass. `LengthBegin` keeps the count in the place of the length, `LengthEnd`
    counts the length itself as well. Ending a struct that has not begun is an error. -/
def Pass0.step (st : Pass0) : WriterCall → Option Pass0
  | .writeStructBegin true => some st
  | .writeStructBegin false =>
      some { st with stack := st.lengths.length :: st.stack, lengths := st.lengths ++ [st.count] }
  | .writeStructEnd true => some { st with count := outputCount st.count (writeStructEnd true) }
  | .writeStructEnd false =>
      let count := outputCount st.count (writeStructEnd false)
      match st.stack with
      | [] => none
      | i :: stack => do
          let begin_ ← st.lengths[i]?
          let length := count - begin_
          return { count := outputCount count [.writeVariableUnsigned (.uint32 length)]
                   stack := stack
                   lengths := st.lengths.set i length }
  | call => some { st with count := outputCount st.count ((writer .v2).callOutput call) }

def Pass0.run (st : Pass0) (calls : List WriterCall) : Option Pass0 :=
  calls.foldlM Pass0.step st

/-! ## Second pass -/

/-- The writer of the second pass: what it has written, and the lengths that `_it` still points
    to. -/
structure Pass1 where
  output : List UInt8
  it : List UInt32
deriving DecidableEq, Repr

/-- A call on the second pass; `*_it++` beyond the recorded lengths is an error. -/
def Pass1.step (st : Pass1) : WriterCall → Option Pass1
  | .writeStructBegin true => some st
  | .writeStructBegin false =>
      match st.it with
      | [] => none
      | length :: it => some ⟨st.output ++ outputBytes (lengthBegin .v2 length), it⟩
  | call => some { st with output := st.output ++ outputBytes ((writer .v2).callOutput call) }

def Pass1.run (st : Pass1) (calls : List WriterCall) : Option Pass1 :=
  calls.foldlM Pass1.step st

/-- `DoublePassApply`, over the calls that both passes make. -/
def doublePass (calls : List WriterCall) : Option (Pass0 × Pass1) := do
  let pass0 ← Pass0.init.run calls
  let pass1 ← Pass1.run ⟨[], pass0.lengths⟩ calls
  return (pass0, pass1)

/-- What a `CompactBinaryWriter` has written after a sequence of calls. -/
def writeCalls (version : Version) (calls : List WriterCall) : Option (List UInt8) :=
  if version = .v2 then
    (doublePass calls).map fun passes => passes.2.output
  else
    some (outputBytes (calls.flatMap (writer .v1).callOutput))

/-! ## Balanced calls -/

theorem Pass0.run_append (st : Pass0) (calls calls' : List WriterCall) :
    st.run (calls ++ calls') = (st.run calls).bind fun st' => st'.run calls' := by
  rw [run, List.foldlM_append]
  rfl

theorem Pass1.run_append (st : Pass1) (calls calls' : List WriterCall) :
    st.run (calls ++ calls') = (st.run calls).bind fun st' => st'.run calls' := by
  rw [run, List.foldlM_append]
  rfl

theorem Pass0.step_of_not_struct (st : Pass0) {c : WriterCall} (h : c.isStruct = false) :
    st.step c = some { st with count := outputCount st.count ((writer .v2).callOutput c) } := by
  cases c <;> first | rfl | simp [WriterCall.isStruct] at h

theorem Pass1.step_of_not_struct (st : Pass1) {c : WriterCall} (h : c.isStruct = false) :
    st.step c = some
      { st with output := st.output ++ outputBytes ((writer .v2).callOutput c) } := by
  cases c <;> first | rfl | simp [WriterCall.isStruct] at h

theorem Pass1.run_singleton (st : Pass1) (c : WriterCall) : st.run [c] = st.step c := by
  simp [run]

theorem Pass0.run_singleton (st : Pass0) (c : WriterCall) : st.run [c] = st.step c := by
  simp [run]

theorem Pass0.run_base (st st' : Pass0) (cs : List WriterCall) (h : st.run cs = some st') :
    st.run ([.writeStructBegin true] ++ cs ++ [.writeStructEnd true])
      = some { st' with count := st'.count + 1 } := by
  rw [run_append, run_append, run_singleton, step, Option.bind_some, h, Option.bind_some,
    run_singleton, step]
  rfl

theorem Pass0.step_structEnd {st : Pass0} {i : Nat} {stack : List Nat} {count : UInt32}
    (hstack : st.stack = i :: stack) (hlength : st.lengths[i]? = some count) :
    st.step (.writeStructEnd false)
      = some ⟨outputCount (st.count + 1)
            [.writeVariableUnsigned (.uint32 (st.count + 1 - count))],
          stack, st.lengths.set i (st.count + 1 - count)⟩ := by
  simp only [step, hstack, hlength]
  rfl

theorem Pass0.run_struct (st : Pass0) (cs : List WriterCall) (count : UInt32) (lengths : List UInt32)
    (h : ∀ st : Pass0, st.run cs = some ⟨st.count + count, st.stack, st.lengths ++ lengths⟩) :
    st.run ([.writeStructBegin false] ++ cs ++ [.writeStructEnd false])
      = some ⟨outputCount (st.count + count + 1) [.writeVariableUnsigned (.uint32 (count + 1))],
          st.stack, st.lengths ++ (count + 1) :: lengths⟩ := by
  have hlength : (st.lengths ++ [st.count] ++ lengths)[st.lengths.length]? = some st.count := by
    simp
  have hcount : st.count + count + 1 - st.count = count + 1 := by
    rw [UInt32.add_assoc, UInt32.add_comm, UInt32.add_sub_cancel]
  rw [run_append, run_append, run_singleton, step, Option.bind_some, h, Option.bind_some,
    run_singleton, step_structEnd rfl hlength, hcount]
  simp

theorem ofNat_length_stop (bytes : List UInt8) (base : Bool) :
    UInt32.ofNat (bytes ++ stopBytes base).length = UInt32.ofNat bytes.length + 1 := by
  rw [List.length_append, stopBytes_length, UInt32.ofNat_add]
  rfl

/-- On the first pass balanced calls append their lengths and leave the stack as it was. -/
theorem pass0_of_writes {calls : List WriterCall} {bytes : List UInt8} {lengths : List UInt32}
    (h : Writes (writer .v2) calls bytes lengths) (st : Pass0) :
    st.run calls = some ⟨st.count + UInt32.ofNat bytes.length, st.stack, st.lengths ++ lengths⟩ := by
  induction h generalizing st with
  | nil => simp [Pass0.run]
  | call c hc =>
      rw [Pass0.run_singleton, Pass0.step_of_not_struct st hc, outputCount_eq, List.append_nil]
  | append h h' ih ih' =>
      rw [Pass0.run_append, ih, Option.bind_some, ih', List.length_append, UInt32.ofNat_add,
        UInt32.add_assoc, List.append_assoc]
  | base h ih => rw [Pass0.run_base st _ _ (ih st), ofNat_length_stop, UInt32.add_assoc]
  | struct h ih =>
      rw [Pass0.run_struct st _ _ _ ih, outputCount_eq, ofNat_length_stop, List.length_append,
        UInt32.ofNat_add, ofNat_length_stop, outputBytes_lengthBegin, outputBytes_cons,
        outputBytes_nil, List.append_nil, bytes_writeVariableUnsigned, VarUnsigned.toNat,
        UInt32.add_comm (UInt32.ofNat _) (_ + 1)]
      simp only [UInt32.add_assoc]

/-- On the second pass balanced calls take their lengths and write what the grammar has for
    them. -/
theorem pass1_of_writes {calls : List WriterCall} {bytes : List UInt8} {lengths : List UInt32}
    (h : Writes (writer .v2) calls bytes lengths) (output : List UInt8) (it : List UInt32) :
    Pass1.run ⟨output, lengths ++ it⟩ calls = some ⟨output ++ bytes, it⟩ := by
  induction h generalizing output it with
  | nil => simp [Pass1.run]
  | call c hc => rw [Pass1.run_singleton, Pass1.step_of_not_struct _ hc, List.nil_append]
  | append h h' ih ih' =>
      rw [Pass1.run_append, List.append_assoc, ih, Option.bind_some, ih', List.append_assoc]
  | base h ih =>
      rw [Pass1.run_append, Pass1.run_append, Pass1.run_singleton, Pass1.step, Option.bind_some,
        ih, Option.bind_some, Pass1.run_singleton, ← List.append_assoc]
      rfl
  | struct h ih =>
      rw [Pass1.run_append, Pass1.run_append, Pass1.run_singleton, List.cons_append, Pass1.step,
        Option.bind_some, ih, Option.bind_some, Pass1.run_singleton]
      simp only [← List.append_assoc]
      rfl

/-- Both passes over the calls for a value: the writer puts out its encoding. -/
theorem writeCalls_calls (version : Version) (v : Value) :
    writeCalls version v.calls = some (v.encode (writer version)) := by
  obtain ⟨lengths, h⟩ := v.writes (P := writer version)
  cases version with
  | v1 => exact congrArg some (h.bytes_eq fun _ => rfl)
  | v2 =>
      have hpass1 := pass1_of_writes h [] []
      rw [List.append_nil] at hpass1
      simp only [writeCalls, if_true, doublePass, pass0_of_writes h, Pass0.init, List.nil_append,
        Option.bind_eq_bind, Option.bind_some, hpass1]
      rfl

/-! ## Which length belongs to which struct -/

/-- The structs with a length of their own that begin in a sequence of calls. -/
def begins (calls : List WriterCall) : Nat :=
  calls.count (.writeStructBegin false)

theorem begins_append (calls calls' : List WriterCall) :
    begins (calls ++ calls') = begins calls + begins calls' :=
  List.count_append

/-- What calls leave of the first pass: `n` lengths are new, and among the old ones only those of
    the structs that had begun may have changed. -/
structure Pass0.Extends (st st' : Pass0) (n : Nat) : Prop where
  length_eq : st'.lengths.length = st.lengths.length + n
  stack : ∀ i ∈ st'.stack, i ∈ st.stack ∨ st.lengths.length ≤ i
  stack_lt : (∀ i ∈ st.stack, i < st.lengths.length) → ∀ i ∈ st'.stack, i < st'.lengths.length
  frame : ∀ i < st.lengths.length, i ∉ st.stack → st'.lengths[i]? = st.lengths[i]?

theorem Pass0.Extends.refl (st : Pass0) : st.Extends st 0 where
  length_eq := rfl
  stack _ hi := Or.inl hi
  stack_lt h := h
  frame _ _ _ := rfl

theorem Pass0.Extends.trans {st st' st'' : Pass0} {n n' : Nat} (h : st.Extends st' n)
    (h' : st'.Extends st'' n') : st.Extends st'' (n + n') where
  length_eq := by rw [h'.length_eq, h.length_eq, Nat.add_assoc]
  stack i hi := by
    rcases h'.stack i hi with hi' | hge
    · exact h.stack i hi'
    · exact Or.inr (by have hlen := h.length_eq; omega)
  stack_lt hlt := h'.stack_lt (h.stack_lt hlt)
  frame i hi hstack := by
    have hstack' : i ∉ st'.stack := by
      intro hi'
      rcases h.stack i hi' with hmem | hge
      · exact hstack hmem
      · omega
    rw [h'.frame i (by have hlen := h.length_eq; omega) hstack', h.frame i hi hstack]

theorem Pass0.step_extends {st st' : Pass0} {c : WriterCall} (h : st.step c = some st') :
    st.Extends st' (begins [c]) := by
  by_cases hc : c.isStruct = true
  · cases c with
    | writeStructBegin base =>
        cases base with
        | true =>
            simp only [step, Option.some.injEq] at h
            subst h
            exact .refl st
        | false =>
            simp only [step, Option.some.injEq] at h
            subst h
            refine ⟨by simp [begins], ?_, ?_, ?_⟩
            · intro i hi
              rcases List.mem_cons.1 hi with rfl | hi
              · exact Or.inr (Nat.le_refl _)
              · exact Or.inl hi
            · intro hlt i hi
              rw [List.length_append, List.length_singleton]
              rcases List.mem_cons.1 hi with rfl | hi
              · exact Nat.lt_succ_self _
              · exact Nat.lt_succ_of_lt (hlt i hi)
            · intro i hi _
              exact List.getElem?_append_left hi
    | writeStructEnd base =>
        cases base with
        | true =>
            simp only [step, Option.some.injEq] at h
            subst h
            exact ⟨rfl, fun i hi => Or.inl hi, fun h => h, fun i _ _ => rfl⟩
        | false =>
            cases hstack : st.stack with
            | nil => simp [step, hstack] at h
            | cons top stack =>
                cases hlength : st.lengths[top]? with
                | none => simp [step, hstack, hlength] at h
                | some count =>
                    rw [step_structEnd hstack hlength, Option.some.injEq] at h
                    subst h
                    refine ⟨by simp [begins], ?_, ?_, ?_⟩
                    · intro i hi
                      exact Or.inl (hstack ▸ List.mem_cons_of_mem top hi)
                    · intro hlt i hi
                      rw [List.length_set]
                      exact hlt i (hstack ▸ List.mem_cons_of_mem top hi)
                    · intro i _ hi
                      have hne : top ≠ i := by
                        rintro rfl
                        exact hi (hstack ▸ List.mem_cons_self)
                      exact List.getElem?_set_ne hne
    | _ => simp [WriterCall.isStruct] at hc
  · rw [Bool.not_eq_true] at hc
    rw [step_of_not_struct st hc, Option.some.injEq] at h
    have hzero : begins [c] = 0 := by
      cases c <;> first | rfl | simp [WriterCall.isStruct] at hc
    subst h
    rw [hzero]
    exact ⟨rfl, fun i hi => Or.inl hi, fun h => h, fun i _ _ => rfl⟩

theorem Pass0.run_extends {st st' : Pass0} {calls : List WriterCall} (h : st.run calls = some st') :
    st.Extends st' (begins calls) := by
  induction calls generalizing st with
  | nil =>
      simp only [run, List.foldlM_nil, Option.pure_def, Option.some.injEq] at h
      subst h
      exact .refl st
  | cons c calls ih =>
      have hrun : st.run ([c] ++ calls) = some st' := h
      rw [run_append, run_singleton] at hrun
      obtain ⟨mid, hmid, hrest⟩ := Option.bind_eq_some_iff.1 hrun
      have hboth := (step_extends hmid).trans (ih hrest)
      have hcount := begins_append [c] calls
      rw [List.singleton_append] at hcount
      rwa [hcount]

/-- The second pass takes one length for each struct that begins, in their order. -/
theorem Pass1.run_it (calls : List WriterCall) (output : List UInt8) (it : List UInt32)
    (h : begins calls ≤ it.length) :
    ∃ output', Pass1.run ⟨output, it⟩ calls = some ⟨output', it.drop (begins calls)⟩ := by
  induction calls generalizing output it with
  | nil => exact ⟨output, rfl⟩
  | cons c calls ih =>
      have hcount := begins_append [c] calls
      rw [List.singleton_append] at hcount
      have hrun (st : Pass1) : st.run (c :: calls) = (st.step c).bind fun st => st.run calls := by
        rw [← run_singleton]
        exact st.run_append [c] calls
      rw [hrun]
      by_cases hc : c = .writeStructBegin false
      · subst hc
        obtain ⟨length, it, rfl⟩ : ∃ length it', it = length :: it' := by
          cases it with
          | nil => simp [begins] at h
          | cons length it => exact ⟨length, it, rfl⟩
        rw [hcount, show begins [.writeStructBegin false] = 1 from rfl, Nat.add_comm,
          List.drop_succ_cons]
        refine ih _ it ?_
        rw [hcount, show begins [.writeStructBegin false] = 1 from rfl, List.length_cons] at h
        omega
      · have hzero : begins [c] = 0 := by simp [begins, hc]
        rw [hcount, hzero, Nat.zero_add] at h ⊢
        have hstep : ∃ output', Pass1.step ⟨output, it⟩ c = some ⟨output', it⟩ := by
          cases c with
          | writeStructBegin base =>
              cases base with
              | true => exact ⟨output, rfl⟩
              | false => exact absurd rfl hc
          | _ => exact ⟨_, rfl⟩
        obtain ⟨output', hstep⟩ := hstep
        rw [hstep, Option.bind_some]
        exact ih output' it h
theorem drop_eq_append {α : Type} {xs ys zs : List α}
    (h : ∀ i, xs.length ≤ i → i < (xs ++ ys).length → zs[i]? = (xs ++ ys)[i]?) :
    zs.drop xs.length = ys ++ zs.drop (xs ++ ys).length := by
  apply List.ext_getElem?
  intro i
  rw [List.getElem?_drop]
  by_cases hi : i < ys.length
  · rw [h _ (Nat.le_add_right _ _) (by rw [List.length_append]; omega), List.getElem?_append_left hi,
      List.getElem?_append_right (Nat.le_add_right _ _), Nat.add_sub_cancel_left]
  · rw [List.getElem?_append_right (Nat.le_of_not_lt hi), List.getElem?_drop, List.length_append]
    congr 1
    omega

/-- The passes over `calls` stay in step: both go through, the second takes all the lengths that the
    first has recorded, and at each struct it takes the length recorded for that struct. `agree`
    relates this length to the bytes that the second pass then writes for the struct. -/
def InStep (calls : List WriterCall) (agree : UInt32 → List UInt8 → Prop) : Prop :=
  ∃ pass0 pass1, doublePass calls = some (pass0, pass1) ∧ pass1.it = [] ∧
    ∀ before body after,
      calls = before ++ ([.writeStructBegin false] ++ body ++ [.writeStructEnd false]) ++ after →
      Balanced (writer .v2) body →
      ∃ length it output bytes it',
        pass0.lengths[begins before]? = some length ∧
        Pass1.run ⟨[], pass0.lengths⟩ before = some ⟨output, length :: it⟩ ∧
        Pass1.run ⟨output, length :: it⟩
            ([.writeStructBegin false] ++ body ++ [.writeStructEnd false])
          = some ⟨output ++ (outputBytes (lengthBegin .v2 length) ++ bytes), it'⟩ ∧
        agree length bytes

/-- The lengths recorded for balanced calls in the midst of others stay as they are. -/
theorem Pass0.drop_lengths {before calls after : List WriterCall} {bytes : List UInt8}
    {lengths : List UInt32} {st : Pass0} (h : Writes (writer .v2) calls bytes lengths)
    (hrun : Pass0.init.run (before ++ calls ++ after) = some st) :
    ∃ rest, st.lengths.drop (begins before) = lengths ++ rest := by
  rw [run_append, run_append] at hrun
  obtain ⟨mid, hmid, hafter⟩ := Option.bind_eq_some_iff.1 hrun
  obtain ⟨start, hstart, hcalls⟩ := Option.bind_eq_some_iff.1 hmid
  rw [pass0_of_writes h, Option.some.injEq] at hcalls
  subst hcalls
  have hbefore := run_extends hstart
  have hlength : start.lengths.length = begins before := by
    rw [hbefore.length_eq]
    exact Nat.zero_add _
  rw [← hlength]
  refine ⟨_, drop_eq_append fun i hge hlt => (run_extends hafter).frame i hlt ?_⟩
  intro hi
  exact absurd (hbefore.stack_lt (fun _ h => absurd h List.not_mem_nil) i hi) (Nat.not_lt.2 hge)

theorem inStep_of_writes {calls : List WriterCall} {bytes : List UInt8} {lengths : List UInt32}
    (h : Writes (writer .v2) calls bytes lengths) :
    InStep calls fun length bytes => length.toNat = bytes.length % 2 ^ 32 := by
  have hpass0 := pass0_of_writes h Pass0.init
  have hpass1 := pass1_of_writes h [] []
  rw [List.append_nil] at hpass1
  refine ⟨_, _, by rw [doublePass, hpass0, Option.bind_eq_bind, Option.bind_some]
                   exact congrArg (Option.bind · _) hpass1, rfl, ?_⟩
  rintro before body after hcalls ⟨bytes', lengths', hbody⟩
  rw [hcalls] at hpass0
  obtain ⟨rest, hrest⟩ := Pass0.drop_lengths hbody.struct hpass0
  change lengths.drop (begins before) = _ at hrest
  have hlt : begins before < lengths.length := by
    apply Nat.lt_of_not_le
    intro hle
    rw [List.drop_eq_nil_of_le hle] at hrest
    exact absurd hrest (List.cons_ne_nil _ _).symm
  obtain ⟨output, hbefore⟩ := Pass1.run_it before [] lengths (Nat.le_of_lt hlt)
  rw [hrest] at hbefore
  refine ⟨_, _, output, _, rest, ?_, hbefore, pass1_of_writes hbody.struct output rest, ?_⟩
  · change lengths[begins before]? = _
    rw [← Nat.add_zero (begins before), ← List.getElem?_drop, hrest]
    rfl
  · exact UInt32.toNat_ofNat'

/-- The passes over the calls for a value stay in step. A length is a `uint32_t`: it is the number
    of the bytes up to a multiple of 2^32. -/
theorem inStep_calls (v : Value) :
    InStep v.calls fun length bytes => length.toNat = bytes.length % 2 ^ 32 := by
  obtain ⟨lengths, h⟩ := v.writes (P := writer .v2)
  exact inStep_of_writes h

/-- A struct with a list of `n` doubles; from 2^29 of them on it is 2^32 bytes and longer. -/
def doubles (n : Nat) : StructValue :=
  .root [(0, .list .list (.basic .double) (List.replicate n (.basic (.double 0))))]

theorem encodeItems_replicate_length (P : ProtocolWriter) (n : Nat) (v : Value) :
    (encodeItems P (List.replicate n v)).length = n * (v.encode P).length := by
  induction n with
  | zero => simp [encodeItems]
  | succ n ih =>
      rw [List.replicate_succ, encodeItems, List.length_append, ih, Nat.succ_mul, Nat.add_comm]

theorem doubles_length_le (n : Nat) : n * 8 ≤ ((doubles n).encodeBody (writer .v2)).length := by
  have hitems : (encodeItems (writer .v2) (List.replicate n (.basic (.double 0)))).length = n * 8 :=
    encodeItems_replicate_length _ n _
  simp only [doubles, StructValue.encodeBody, encodeFields, Value.encode, List.length_append, hitems]
  omega

/-- Beyond 2^32 bytes the length is not the number of the bytes. -/
theorem doubles_length_differs (n : Nat) (h : 2 ^ 29 ≤ n) :
    ¬ InStep (doubles n).calls fun length bytes => length.toNat = bytes.length := by
  rintro ⟨pass0, pass1, hdouble, _, hstruct⟩
  obtain ⟨lengths, hbody⟩ :=
    (doubles n).writes_body (P := writer .v2) fun _ _ f _ => f.2.writes
  have hpass0 := pass0_of_writes hbody.struct Pass0.init
  obtain ⟨length, it, output, bytes, it', hlength, hbefore, hrun, hagree⟩ :=
    hstruct [] (doubles n).bodyCalls [] (by rw [List.append_nil]; rfl) ⟨_, _, hbody⟩
  have hlengths : pass0.lengths = UInt32.ofNat
      ((doubles n).encodeBody (writer .v2) ++ stopBytes false).length :: lengths := by
    rw [doublePass, Option.bind_eq_bind] at hdouble
    obtain ⟨st, hst, hrest⟩ := Option.bind_eq_some_iff.1 hdouble
    obtain ⟨st', _, hpair⟩ := Option.bind_eq_some_iff.1 hrest
    have hst' : Pass0.init.run (doubles n).calls = _ := hpass0
    rw [hst, Option.some.injEq] at hst'
    obtain ⟨rfl, _⟩ := Prod.mk.inj (Option.some.inj hpair)
    rw [hst']
    rfl
  have hbegin : (⟨[], pass0.lengths⟩ : Pass1) = ⟨output, length :: it⟩ := Option.some.inj hbefore
  obtain ⟨rfl, hit⟩ := Pass1.mk.inj hbegin
  obtain ⟨rfl, rfl⟩ := List.cons.inj (hlengths.symm.trans hit)
  have hwritten := pass1_of_writes hbody.struct [] []
  rw [List.append_nil, hrun, Option.some.injEq, Pass1.mk.injEq] at hwritten
  rw [List.append_cancel_left (List.append_cancel_left hwritten.1)] at hagree
  have hlt := UInt32.toNat_lt
    (UInt32.ofNat ((doubles n).encodeBody (writer .v2) ++ stopBytes false).length)
  have hle := doubles_length_le n
  rw [hagree, List.length_append, stopBytes_length] at hlt
  omega

theorem doubles_wellFormed {n : Nat} (h : n < 2 ^ 32) : (doubles n).wellFormed = true := by
  rw [StructValue.wellFormed_iff]
  intro fs hfs f hf
  obtain rfl : fs = _ := List.mem_singleton.1 hfs
  obtain rfl : f = _ := List.mem_singleton.1 hf
  simp only [Value.wellFormed, List.length_replicate, Bool.and_eq_true, decide_eq_true_eq]
  refine ⟨⟨h, rfl⟩, wellFormedItems_iff.2 fun v hv => ?_⟩
  rw [List.eq_of_mem_replicate hv]
  exact ⟨rfl, rfl⟩

/-- A length is not the number of the bytes for every struct. -/
theorem not_inStep_exact : ¬ ∀ s : StructValue, s.wellFormed = true →
    InStep s.calls fun length bytes => length.toNat = bytes.length := fun h =>
  doubles_length_differs (2 ^ 29) (Nat.le_refl _) (h _ (doubles_wellFormed (by decide)))

end CompactBinary

end Bond.Cpp

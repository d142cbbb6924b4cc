import Bond.Java.FirstPassCounter
import Bond.Managed.InterruptedPasses

set_option autoImplicit false

/-! # Serializations that throw in Java

One `CompactBinaryWriter` of version 2 for a history of serializations, some of which throw
(java/core/src/main/java/org/bondlib/CompactBinaryWriter.java and `StructBondType.serialize`). Each
first pass has a `FirstPassCounter` of its own, which appends to the `structLengths` of the writer;
the second pass takes the lengths that come first there. -/

namespace Bond.Java.CompactBinary

open Bond.Cpp (BondDataType)
open Bond.Lib Bond.Managed
open Bond.Lib.Interrupted (Interruption Run)
open VarUIntHelper

/-! ## The writer -/

/-- The first pass over an object with a new `FirstPassCounter`; a counter writes nothing. -/
def firstPassSerialize (calls : List WriterCall) (r : Run Writer) : Run Writer :=
  let first := Run.calls FirstPassCounter.step (fun counter _ _ => counter)
    ⟨⟨[], r.state.lengths⟩, r.interruption, r.thrown⟩ calls
  ⟨⟨r.state.output, first.state.structLengths⟩, first.interruption, first.thrown⟩

/-- A call on the second pass that throws when it has written some of its bytes. A length is removed
    from `structLengths` before it is written. -/
def Writer.torn (writer : Writer) (call : WriterCall) (bytes : Nat) : Writer :=
  match Writer.step .v2 writer call with
  | none => writer
  | some writer' => { writer' with output := writer'.output.take (writer.output.length + bytes) }

/-- The second pass over an object -/
def secondPassSerialize (calls : List WriterCall) (r : Run Writer) : Run Writer :=
  r.calls (Writer.step .v2) Writer.torn calls

/-- `serialize` of an object with the writer. A nested `Bonded` makes no passes of its own. -/
def serialize (obj : StructValue) (r : Run Writer) : Run Writer :=
  let calls := obj.calls .before
  secondPassSerialize calls (firstPassSerialize calls r)

/-- The writer after a history of serializations, each with the exception that comes in it. -/
def Writer.after (writer : Writer) (history : List (StructValue × Option Interruption)) : Writer :=
  history.foldl (fun writer call => (serialize call.1 ⟨writer, call.2, false⟩).state) writer

/-- A serialization of any object comes to its end and writes what a fresh writer would. -/
def WritesAsFresh (writer : Writer) : Prop :=
  ∀ obj : StructValue, ∃ writer' fresh,
    serialize obj ⟨writer, none, false⟩ = ⟨writer', none, false⟩ ∧
    serialize obj ⟨⟨[], []⟩, none, false⟩ = ⟨fresh, none, false⟩ ∧
    writer'.output = writer.output ++ fresh.output

/-! ## The passes of a serialization -/

namespace FirstPassCounter

theorem addBytes_length {counter counter' : FirstPassCounter} {n : Int32}
    (h : counter.addBytes n = some counter') :
    counter'.structLengths.length = counter.structLengths.length := by
  unfold addBytes at h
  split at h
  · cases h
  · obtain rfl := Option.some.inj h
    exact List.length_modify _ _ _

theorem writeStructEnd_length {counter counter' : FirstPassCounter}
    (h : counter.writeStructEnd = some counter') :
    counter'.structLengths.length = counter.structLengths.length := by
  unfold writeStructEnd at h
  obtain ⟨stopped, hstop, h⟩ := Option.bind_eq_some_iff.1 h
  rw [← addBytes_length hstop]
  split at h
  · cases h
  · obtain ⟨length, -, h⟩ := Option.bind_eq_some_iff.1 h
    dsimp only at h
    split at h
    · obtain rfl := Option.some.inj h
      rfl
    · obtain ⟨mid, hmid, h⟩ := Option.bind_eq_some_iff.1 h
      rw [addBytes_length h, addBytes_length hmid]

/-- The counter appends a length for each struct that begins. -/
theorem step_length {counter counter' : FirstPassCounter} {call : WriterCall}
    (h : step counter call = some counter') :
    counter'.structLengths.length
      = counter.structLengths.length + TwoPass.begins WriterCall.kind [call] := by
  unfold step at h
  split at h
  · obtain rfl := Option.some.inj h
    exact List.length_append
  · exact writeStructEnd_length h
  · obtain rfl := Option.some.inj h
    rfl
  · next hbegin _ _ =>
      have hkind : call.kind ≠ .begins := by
        cases call with
        | writeStructBegin => exact absurd rfl hbegin
        | _ => simp [WriterCall.kind]
      rw [addBytes_length h, TwoPass.begins_cons_of_ne [] hkind]
      rfl

theorem run_length {counter counter' : FirstPassCounter} {calls : List WriterCall}
    (h : calls.foldlM step counter = some counter') :
    counter'.structLengths.length
      = counter.structLengths.length + TwoPass.begins WriterCall.kind calls := by
  induction calls generalizing counter with
  | nil =>
      obtain rfl := Option.some.inj h
      rfl
  | cons call calls ih =>
      rw [List.foldlM_cons] at h
      obtain ⟨mid, hmid, hrest⟩ := Option.bind_eq_some_iff.1 h
      have hboth := TwoPass.begins_append WriterCall.kind [call] calls
      rw [List.singleton_append] at hboth
      rw [ih hrest, step_length hmid, hboth, Nat.add_assoc]

end FirstPassCounter

/-- The first pass over an object puts its lengths behind those that are there, and the second pass
    writes the object as long as its lengths come first. -/
theorem passes_calls (obj : StructValue) :
    ∃ own : List Int32, own.length = TwoPass.begins WriterCall.kind (obj.calls .before) ∧
      (∀ residue, (obj.calls .before).foldlM FirstPassCounter.step ⟨[], residue⟩
        = some ⟨[], residue ++ own⟩) ∧
      ∀ output rest, (obj.calls .before).foldlM (Writer.step .v2) ⟨output, own ++ rest⟩
        = some ⟨output ++ (Value.struct obj).encode (format .v2), rest⟩ := by
  obtain ⟨structs, hbody⟩ := (isWriter .v2).structBody .before obj
  have hfirst (residue : List Int32) :
      (obj.calls .before).foldlM FirstPassCounter.step ⟨[], residue⟩
        = some ⟨[], residue ++ (obj.bodyCount (format .v2) + 1) :: structs.map Prod.fst⟩ := by
    have hrun := FirstPassCounter.run_of_counts hbody residue.length [] (residue ++ [0]) (by simp)
    rw [FirstPassCounter.modify_append_length, List.append_assoc, List.singleton_append,
      Int32.zero_add] at hrun
    rw [StructValue.calls, FirstPassCounter.run_struct, hrun, Option.bind_some,
      FirstPassCounter.writeStructEnd_last]
  refine ⟨_, ?_, hfirst, fun output rest => ?_⟩
  · have hlength := FirstPassCounter.run_length (hfirst [])
    simpa using hlength
  · have hstruct := hbody.struct (o := .writeStructBegin) (c := .writeStructEnd) rfl rfl
    rw [Writer.step_eq]
    exact hstruct.second output rest

theorem firstPassSerialize_of_calls {calls : List WriterCall} {writer : Writer}
    {own : List Int32} (h : calls.foldlM FirstPassCounter.step ⟨[], writer.lengths⟩
      = some ⟨[], writer.lengths ++ own⟩) :
    firstPassSerialize calls ⟨writer, none, false⟩
      = ⟨⟨writer.output, writer.lengths ++ own⟩, none, false⟩ := by
  rw [firstPassSerialize, Run.calls_of_steps h]

/-- A writer without lengths writes the encoding of the object. -/
theorem serialize_of_clean {writer : Writer} (hclean : writer.lengths = []) (obj : StructValue) :
    serialize obj ⟨writer, none, false⟩
      = ⟨⟨writer.output ++ (Value.struct obj).encode (format .v2), []⟩, none, false⟩ := by
  obtain ⟨own, -, hfirst, hsecond⟩ := passes_calls obj
  have hwriter := hsecond writer.output []
  rw [List.append_nil] at hwriter
  rw [serialize, firstPassSerialize_of_calls (hfirst writer.lengths), hclean, List.nil_append,
    secondPassSerialize, Run.calls_of_steps hwriter]

/-- The second pass takes a length for each struct that begins. -/
theorem seconds_lengths (writer : Writer) {calls : List WriterCall}
    (h : TwoPass.begins WriterCall.kind calls ≤ writer.lengths.length) :
    ∃ output, calls.foldlM (Writer.step .v2) writer
      = some ⟨output, writer.lengths.drop (TwoPass.begins WriterCall.kind calls)⟩ := by
  rw [Writer.step_eq]
  exact TwoPass.Format.seconds_lengths (format .v2) calls writer.output writer.lengths h

/-- The lengths that a second pass leaves, if an exception cuts it short. -/
theorem interrupted_lengths {writer : Writer} {calls : List WriterCall}
    (h : TwoPass.begins WriterCall.kind calls ≤ writer.lengths.length) {k : Nat}
    (hk : k < calls.length) (within : Option Nat) :
    (secondPassSerialize calls ⟨writer, some ⟨k, within⟩, false⟩).state.lengths
      = writer.lengths.drop (TwoPass.begins WriterCall.kind
          (calls.take (k + if within.isSome then 1 else 0))) := by
  refine Run.calls_of_lt_torn TwoPass.Pass2.lengths
    (g := fun m => writer.lengths.drop (TwoPass.begins WriterCall.kind (calls.take m))) ?_ ?_ hk
    within
  · intro writer call writer' bytes hstep
    rw [Writer.torn, hstep]
  · intro m
    obtain ⟨output, hrun⟩ := seconds_lengths writer (Nat.le_trans (begins_take_le calls m) h)
    exact ⟨_, hrun, rfl⟩

/-- A serialization never takes the last of the lengths that others left behind, and leaves none of
    its own if the exception comes where it does no harm. -/
theorem serialize_lengths (writer : Writer) (obj : StructValue)
    (interruption : Option Interruption) :
    (serialize obj ⟨writer, interruption, false⟩).state.lengths = []
      ↔ writer.lengths = [] ∧ leavesNoLengths .before obj interruption := by
  obtain ⟨own, hown, hfirst, -⟩ := passes_calls obj
  have hlength : (writer.lengths ++ own).length
      = writer.lengths.length + TwoPass.begins WriterCall.kind (obj.calls .before) := by
    rw [List.length_append, hown]
  obtain ⟨output, hsecond⟩ := seconds_lengths ⟨writer.output, writer.lengths ++ own⟩
    (Nat.le_trans (Nat.le_add_left _ _) (Nat.le_of_eq hlength.symm))
  have hwhole := drop_begins_eq_nil hlength (obj.calls .before).length
  simp only [List.take_length, List.drop_length, List.not_mem_nil, not_false_eq_true, and_true,
    List.length_eq_zero_iff] at hwhole
  rcases interruption with _ | ⟨k, within⟩
  · rw [serialize, firstPassSerialize_of_calls (hfirst writer.lengths), secondPassSerialize,
      Run.calls_of_steps hsecond]
    simpa only [leavesNoLengths, and_true] using hwhole
  by_cases hk : (obj.calls .before).length ≤ k
  · -- the first pass is complete
    have hpositive : k ≠ 0 := by
      rintro rfl
      simp [StructValue.calls] at hk
    rw [serialize, firstPassSerialize, Run.calls_of_le (hfirst writer.lengths) hk]
    simp only [leavesNoLengths, hk, true_and, hpositive, false_or]
    by_cases hrest : (obj.calls .before).length ≤ k - (obj.calls .before).length
    · have hnone : (obj.calls .before).drop
          (k - (obj.calls .before).length + if within.isSome then 1 else 0) = [] :=
        List.drop_eq_nil_of_le (by omega)
      rw [secondPassSerialize, Run.calls_of_le hsecond hrest, hnone]
      simpa only [List.not_mem_nil, not_false_eq_true, and_true] using hwhole
    · rw [interrupted_lengths (by simp [hown]) (Nat.lt_of_not_le hrest),
        drop_begins_eq_nil hlength, List.length_eq_zero_iff]
  · -- the exception comes on the first pass
    rw [Nat.not_le] at hk
    have hrun := hfirst writer.lengths
    rw [← List.take_append_drop k (obj.calls .before), List.foldlM_append] at hrun
    obtain ⟨mid, hmid, -⟩ := Option.bind_eq_some_iff.1 hrun
    have hmidlength := FirstPassCounter.run_length hmid
    have hstate (counter : FirstPassCounter) (c : WriterCall) :
        Lib.Interrupted.cut (fun counter _ _ => counter) within counter c = counter := by
      cases within <;> rfl
    rw [serialize, firstPassSerialize, Run.calls_of_lt _ hk hmid, hstate, secondPassSerialize,
      Run.calls_of_thrown rfl]
    simp only [leavesNoLengths, Nat.not_le_of_lt hk, false_and, or_false]
    rw [← List.length_eq_zero_iff, hmidlength, Nat.add_eq_zero_iff, List.length_eq_zero_iff,
      begins_take_eq_zero]

/-! ## Runs of a writer -/

/-- Once there are lengths left behind there always are. -/
theorem after_lengths (writer : Writer) (history : List (StructValue × Option Interruption)) :
    (writer.after history).lengths = []
      ↔ writer.lengths = [] ∧ ∀ call ∈ history, leavesNoLengths .before call.1 call.2 := by
  induction history generalizing writer with
  | nil => simp [Writer.after]
  | cons call history ih =>
      have hnext := ih (serialize call.1 ⟨writer, call.2, false⟩).state
      rw [serialize_lengths, and_assoc] at hnext
      rw [List.forall_mem_cons]
      exact hnext

/-- With a length left behind an object is written with that length, which is not that of every
    object. -/
theorem not_writesAsFresh {writer : Writer} (h : writer.lengths ≠ []) :
    ¬ WritesAsFresh writer := by
  obtain ⟨output, lengths⟩ := writer
  cases lengths with
  | nil => exact absurd rfl h
  | cons length lengths =>
      intro hwrites
      have hlength (obj : StructValue) (b : UInt8) (bytes : List UInt8)
          (hsecond : ∀ rest, ∃ lengths', secondPassSerialize (obj.calls .before)
            ⟨⟨output, length :: rest⟩, none, false⟩
              = ⟨⟨output ++ (encodeVarUInt32 length ++ bytes), lengths'⟩, none, false⟩)
          (hbytes : (Value.struct obj).encode (format .v2) = [b] ++ bytes) :
          length.toUInt32.toNat = b.toNat := by
        obtain ⟨own, -, hfirst, -⟩ := passes_calls obj
        obtain ⟨lengths', hsecond⟩ := hsecond (lengths ++ own)
        obtain ⟨writer', fresh, hrun, hfresh, hout⟩ := hwrites obj
        rw [serialize, firstPassSerialize_of_calls (hfirst (length :: lengths)), List.cons_append,
          hsecond, Run.mk.injEq] at hrun
        rw [serialize_of_clean rfl, hbytes, Run.mk.injEq] at hfresh
        obtain ⟨rfl, -, -⟩ := hrun
        obtain ⟨rfl, -, -⟩ := hfresh
        have hcancel := List.append_cancel_left hout
        exact eq_of_encodeVarUInt_singleton (List.append_cancel_right hcancel)
      -- no length is that of an empty struct and that of a struct with a field
      have hempty := hlength (.root []) 1 [0] (fun rest => by
        refine ⟨rest, ?_⟩
        rw [← List.append_assoc]
        rfl) rfl
      have hbool := hlength (.root [(0, .basic (.bool true))]) 3 [2, 1, 0] (fun rest => by
        have hfield : output ++ (encodeVarUInt32 length ++ [2, 1, 0])
            = output ++ encodeVarUInt32 length ++ [2] ++ [1] ++ [0] := by simp
        refine ⟨rest, ?_⟩
        rw [hfield]
        rfl) rfl
      rw [hempty] at hbool
      exact absurd hbool (by decide)

theorem writesAsFresh_iff_lengths (writer : Writer) :
    WritesAsFresh writer ↔ writer.lengths = [] := by
  constructor
  · intro h
    by_contra hlengths
    exact not_writesAsFresh hlengths h
  · intro hclean obj
    exact ⟨_, _, serialize_of_clean hclean obj, serialize_of_clean rfl obj, rfl⟩

/-- After a history of serializations the writer writes what a fresh writer would, whatever object
    follows, if and only if each serialization that failed did so before the first struct of its
    first pass or past the begin of the last struct of its second. -/
theorem writesAsFresh_iff (output : List UInt8)
    (history : List (StructValue × Option Interruption)) :
    WritesAsFresh (Writer.after ⟨output, []⟩ history) ↔
      ∀ call ∈ history, leavesNoLengths .before call.1 call.2 := by
  rw [writesAsFresh_iff_lengths, after_lengths]
  exact and_iff_right rfl

/-- An exception after the begin of a struct on the first pass: the next object is written with the
    length that is left, which is 0. -/
theorem not_writesAsFresh_after : ¬ ∀ history : List (StructValue × Option Interruption),
    WritesAsFresh (Writer.after ⟨[], []⟩ history) := by
  intro h
  obtain ⟨w', fresh, hrun, hfresh, hout⟩ :=
    h [(.root [(0, .basic (.bool true))], some ⟨1, none⟩)] (.root [])
  have hafter : serialize (.root []) ⟨Writer.after ⟨[], []⟩
      [(.root [(0, .basic (.bool true))], some ⟨1, none⟩)], none, false⟩
        = ⟨⟨[0, 0], [1]⟩, none, false⟩ := rfl
  have hempty : serialize (.root []) ⟨⟨[], []⟩, none, false⟩ = ⟨⟨[1, 0], []⟩, none, false⟩ := rfl
  rw [hafter, Run.mk.injEq] at hrun
  rw [hempty, Run.mk.injEq] at hfresh
  obtain ⟨rfl, -, -⟩ := hrun
  obtain ⟨rfl, -, -⟩ := hfresh
  exact absurd hout (by decide)

end Bond.Java.CompactBinary

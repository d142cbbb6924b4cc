import Bond.Cs.InputStream

set_option autoImplicit false

/-! # What unsafe input streams share

Any number of `InputStream`s and of their clones, in any order of operations, with all the arrays
they have ever had and the segments they have handed out. -/

namespace Bond.Cs.Unsafe

open Bond.Lib (System)
open Bond.Lib.Exclusive (Updates WellFormed wellFormed_nil)

variable {σ : Type}

/-! ## Reading -/

/-- `ArraySegment<byte>` -/
structure Segment where
  array : Nat
  offset : Int
  count : Int
deriving DecidableEq

/-- The `Read` methods; `string` is `ReadString`. -/
inductive Read where
  | uint8
  | uint16
  | uint32
  | uint64
  | float
  | double
  | string (size : Int32)
  | bytes (count : Int32)

namespace Read

/-- How many bytes it asks for. -/
def count : Read → Int
  | uint8 => 1
  | uint16 => 2
  | uint32 => 4
  | uint64 => 8
  | float => 4
  | double => 8
  | string size => size.toInt
  | bytes count => count.toInt

/-- The check it begins with. -/
def pastEnd (r : Read) (input : InputStream σ) : Bool :=
  match r with
  | uint8 => input.position ≥ input.end_
  | r => input.position > int (input.end_ - r.count)

/-- What follows on the check, in a buffer of a length. -/
def take (r : Read) (length : Nat) (input : InputStream σ) :
    Except Exception (Option Segment) × InputStream σ :=
  match r with
  | uint8 =>
      -- `buffer[position++]`: the position moves before the index is checked
      (if 0 ≤ input.position ∧ input.position < length then .ok none else .error .indexOutOfRange,
        { input with position := int (input.position + 1) })
  | string size =>
      if 0 ≤ input.position ∧ 0 ≤ size.toInt ∧ input.position + size.toInt ≤ length then
        (.ok none, { input with position := int (input.position + size.toInt) })
      else
        (.error .argument, input)
  | bytes count =>
      if 0 ≤ input.position ∧ 0 ≤ count.toInt ∧ input.position + count.toInt ≤ length then
        (.ok (some ⟨input.buffer, input.position, count.toInt⟩),
          { input with position := int (input.position + count.toInt), canReuseBuffer := false })
      else
        (.error .argument, input)
  | r =>
      -- `fixed (void* p = &buffer[position])`: only the first byte is checked
      if 0 ≤ input.position ∧ input.position < length then
        (.ok none, { input with position := int (input.position + r.count) })
      else
        (.error .indexOutOfRange, input)

end Read

/-- The input stream as the check leaves it, with what a refill threw. -/
def check (S : Stream σ) (chunk : Nat) (r : Read) (arrays : Arrays) (input : InputStream σ) :
    Option Exception × Arrays × InputStream σ :=
  if r.pastEnd input then endOfStream S chunk r.count arrays input else (none, arrays, input)

def read (S : Stream σ) (chunk : Nat) (r : Read) (arrays : Arrays) (input : InputStream σ) :
    Except Exception (Option Segment) × Arrays × InputStream σ :=
  match check S chunk r arrays input with
  | (some e, arrays, input) => (.error e, arrays, input)
  | (none, arrays, input) =>
      let taken := r.take (array arrays input.buffer).length input
      (taken.1, arrays, taken.2)

/-! ## The operations -/

structure State (σ : Type) where
  arrays : Arrays
  inputs : List (InputStream σ)
  handedOut : List Segment
  activeAllocationChunk : Nat
  activeAllocationChunk_pos : 0 < activeAllocationChunk

def State.initial : State σ where
  arrays := []
  inputs := []
  handedOut := []
  activeAllocationChunk := 128 * 1024 * 1024
  activeAllocationChunk_pos := by decide

inductive Action (σ : Type) where
  | create (stream : σ) (bufferLength : Int32)
  | setActiveAllocationChunk (value : Int32)
  | clone (input : Nat)
  | skipBytes (input : Nat) (count : Int32)
  | setPosition (input : Nat) (value : Int)
  | read (input : Nat) (r : Read)

/-- The input stream it is an operation of. -/
def Action.input : Action σ → Option Nat
  | create _ _ => none
  | setActiveAllocationChunk _ => none
  | clone input => some input
  | skipBytes input _ => some input
  | setPosition input _ => some input
  | read input _ => some input

/-- The copy constructor, on a stream of its own. -/
def InputStream.copy (input : InputStream σ) (stream : σ) : InputStream σ where
  stream := stream
  bufferLength := input.bufferLength
  buffer := input.buffer
  end_ := int (input.position + int (input.end_ - input.position))
  position := input.position
  canReuseBuffer := false

/-- What `Position` is set to; `none` if that throws. -/
def InputStream.positionAt (S : Stream σ) (input : InputStream σ) (value : Int) : Option Int := do
  let position ← S.position input.stream
  if -2 ^ 31 ≤ value - position ∧ value - position < 2 ^ 31 then
    return int (value - position + input.end_)
  else
    none

/-- An operation that throws goes as far as it does. -/
def step (S : Stream σ) (s : State σ) : Action σ → Option (State σ)
  | .create stream bufferLength =>
      if 0 ≤ bufferLength.toInt then
        some { s with
          arrays := s.arrays ++ [List.replicate bufferLength.toInt.toNat 0]
          inputs := s.inputs ++ [{
            stream, bufferLength := bufferLength.toInt.toNat, buffer := s.arrays.length,
            end_ := 0, position := 0, canReuseBuffer := true }] }
      else
        some s
  | .setActiveAllocationChunk value =>
      if h : 0 < value.toInt then
        some { s with
          activeAllocationChunk := value.toInt.toNat
          activeAllocationChunk_pos := by omega }
      else
        some s
  | .clone k => do
      let input ← s.inputs[k]?
      let inputs := s.inputs.set k { input with canReuseBuffer := false }
      match S.clone input.stream with
      | none => some { s with inputs }
      | some stream => some { s with inputs := inputs ++ [input.copy stream] }
  | .skipBytes k count => do
      let input ← s.inputs[k]?
      some { s with
        inputs := s.inputs.set k { input with position := int (input.position + count.toInt) } }
  | .setPosition k value => do
      let input ← s.inputs[k]?
      match input.positionAt S value with
      | none => some s
      | some position => some { s with inputs := s.inputs.set k { input with position } }
  | .read k r => do
      let input ← s.inputs[k]?
      match read S s.activeAllocationChunk r s.arrays input with
      | (.ok (some segment), arrays, input) =>
          some { s with
            arrays
            inputs := s.inputs.set k input
            handedOut := s.handedOut ++ [segment] }
      | (_, arrays, input) => some { s with arrays, inputs := s.inputs.set k input }

/-- The input streams, with all their operations. -/
def machine (S : Stream σ) : System (State σ) (Action σ) where
  step := step S

/-! ## What an operation does to the arrays -/

variable {S : Stream σ} {s t u : State σ} {a : Action σ}
variable {arrays : Arrays} {input input' : InputStream σ} {chunk : Nat} {r : Read}

abbrev InputUpdates (arrays : Arrays) (input : InputStream σ) (arrays' : Arrays)
    (input' : InputStream σ) : Prop :=
  Updates InputStream.buffer InputStream.canReuseBuffer arrays input arrays' input'

theorem Read.take_keeps (r : Read) (length : Nat) (input : InputStream σ) :
    (r.take length input).2.buffer = input.buffer ∧
      ((r.take length input).2.canReuseBuffer = true → input.canReuseBuffer = true) := by
  cases r with
  | uint8 => exact ⟨rfl, id⟩
  | _ =>
      unfold Read.take
      simp only []
      split <;> simp

/-- A segment is one of the buffer, which is not to be reused. -/
theorem Read.take_segment {length : Nat} {segment : Segment}
    (h : (r.take length input).1 = .ok (some segment)) :
    segment.array = (r.take length input).2.buffer ∧
      (r.take length input).2.canReuseBuffer = false := by
  cases r with
  | bytes count =>
      unfold Read.take at h ⊢
      simp only [] at h ⊢
      split at h
      · next hin =>
          rw [if_pos hin]
          obtain ⟨⟩ := h
          exact ⟨rfl, rfl⟩
      · contradiction
  | _ =>
      unfold Read.take at h
      simp only [] at h
      split at h <;> simp at h

theorem check_updates (chunk : Nat) (r : Read) (arrays : Arrays) (input : InputStream σ) :
    InputUpdates arrays input (check S chunk r arrays input).2.1
      (check S chunk r arrays input).2.2 := by
  unfold check
  split
  · exact endOfStream_updates chunk r.count arrays input
  · exact .refl arrays input

theorem read_updates (chunk : Nat) (r : Read) (arrays : Arrays) (input : InputStream σ) :
    InputUpdates arrays input (read S chunk r arrays input).2.1
      (read S chunk r arrays input).2.2 := by
  have hcheck := check_updates (S := S) chunk r arrays input
  unfold read
  generalize check S chunk r arrays input = checked at hcheck ⊢
  obtain ⟨thrown, arrays', input'⟩ := checked
  cases thrown with
  | some e => exact hcheck
  | none =>
      obtain ⟨hbuffer, hreuse⟩ := r.take_keeps (array arrays' input'.buffer).length input'
      exact hcheck.trans (.of_cell_eq hbuffer hreuse)

theorem read_segment {segment : Segment}
    (h : (read S chunk r arrays input).1 = .ok (some segment)) :
    segment.array = (read S chunk r arrays input).2.2.buffer ∧
      (read S chunk r arrays input).2.2.canReuseBuffer = false := by
  unfold read at h ⊢
  generalize check S chunk r arrays input = checked at h ⊢
  obtain ⟨thrown, arrays', input'⟩ := checked
  cases thrown with
  | some e => contradiction
  | none => exact Read.take_segment h

/-- What an operation comes to: none of the arrays, the input streams and the segments change, or
    an input stream is created, or one is updated, and may hand out a segment or be cloned. -/
inductive Effect (s t : State σ) : Option Nat → Prop where
  | idle (i : Option Nat) (harrays : t.arrays = s.arrays) (hinputs : t.inputs = s.inputs)
      (hsegments : t.handedOut = s.handedOut) : Effect s t i
  | creates (buffer : List UInt8) (input : InputStream σ) (hbuffer : input.buffer = s.arrays.length)
      (harrays : t.arrays = s.arrays ++ [buffer]) (hinputs : t.inputs = s.inputs ++ [input])
      (hsegments : t.handedOut = s.handedOut) : Effect s t none
  | updates (k : Nat) (input input' : InputStream σ) (hk : s.inputs[k]? = some input)
      (hupdates : InputUpdates s.arrays input t.arrays input')
      (hinputs : t.inputs = s.inputs.set k input')
      (hsegments : t.handedOut = s.handedOut) : Effect s t (some k)
  | handsOut (k : Nat) (input input' : InputStream σ) (segment : Segment)
      (hk : s.inputs[k]? = some input)
      (hupdates : InputUpdates s.arrays input t.arrays input')
      (hinputs : t.inputs = s.inputs.set k input')
      (hsegment : segment.array = input'.buffer) (hreuse : input'.canReuseBuffer = false)
      (hsegments : t.handedOut = s.handedOut ++ [segment]) : Effect s t (some k)
  | clones (k : Nat) (input input' copy : InputStream σ) (hk : s.inputs[k]? = some input)
      (hupdates : InputUpdates s.arrays input t.arrays input')
      (hinputs : t.inputs = s.inputs.set k input' ++ [copy]) (hbuffer : copy.buffer = input'.buffer)
      (hreuse : input'.canReuseBuffer = false) (hreuse' : copy.canReuseBuffer = false)
      (hsegments : t.handedOut = s.handedOut) : Effect s t (some k)

theorem step_effect (h : step S s a = some t) : Effect s t a.input := by
  cases a with
  | create stream bufferLength =>
      simp only [step] at h
      split at h
      · obtain ⟨⟩ := h
        exact .creates _ _ rfl rfl rfl rfl
      · obtain ⟨⟩ := h
        exact .idle _ rfl rfl rfl
  | setActiveAllocationChunk value =>
      simp only [step] at h
      split at h <;> obtain ⟨⟩ := h <;> exact .idle _ rfl rfl rfl
  | clone k =>
      obtain ⟨input, hk, h⟩ := Option.bind_eq_some_iff.1 h
      have hupdates : InputUpdates s.arrays input s.arrays
          { input with canReuseBuffer := false } := .of_cell_eq rfl (by simp)
      split at h
      · obtain ⟨⟩ := h
        exact .updates k input _ hk hupdates rfl rfl
      · obtain ⟨⟩ := h
        exact .clones k input _ _ hk hupdates rfl rfl rfl rfl rfl
  | skipBytes k count =>
      obtain ⟨input, hk, h⟩ := Option.bind_eq_some_iff.1 h
      obtain ⟨⟩ := h
      have hupdates : InputUpdates s.arrays input s.arrays
          { input with position := int (input.position + count.toInt) } := .of_cell_eq rfl id
      exact .updates k input _ hk hupdates rfl rfl
  | setPosition k value =>
      obtain ⟨input, hk, h⟩ := Option.bind_eq_some_iff.1 h
      split at h
      · obtain ⟨⟩ := h
        exact .idle _ rfl rfl rfl
      · next position _ =>
          obtain ⟨⟩ := h
          have hupdates : InputUpdates s.arrays input s.arrays { input with position } :=
            .of_cell_eq rfl id
          exact .updates k input _ hk hupdates rfl rfl
  | read k r =>
      obtain ⟨input, hk, h⟩ := Option.bind_eq_some_iff.1 h
      have hupdates := read_updates (S := S) s.activeAllocationChunk r s.arrays input
      split at h
      · next segment arrays input' hread =>
          have hsegment : segment.array = input'.buffer ∧ input'.canReuseBuffer = false := by
            have hend : segment.array = (read S s.activeAllocationChunk r s.arrays input).2.2.buffer ∧
                (read S s.activeAllocationChunk r s.arrays input).2.2.canReuseBuffer = false :=
              read_segment (by rw [hread])
            rwa [hread] at hend
          rw [hread] at hupdates
          obtain ⟨⟩ := h
          exact .handsOut k input input' segment hk hupdates rfl hsegment.1 hsegment.2 rfl
      · next _ arrays input' _ hread =>
          rw [hread] at hupdates
          obtain ⟨⟩ := h
          exact .updates k input input' hk hupdates rfl rfl

/-- Only an input stream that is alone with its buffer may reuse it. -/
def State.Shared (s : State σ) : Prop :=
  WellFormed InputStream.buffer InputStream.canReuseBuffer s.arrays s.inputs
    (s.handedOut.map Segment.array)

/-- The segments that were handed out still show the same bytes, and so do the buffers of the input
    streams that none of the operations is one of. -/
structure Intact (as : List (Action σ)) (s t : State σ) : Prop where
  handedOut : ∀ segment ∈ s.handedOut,
    segment ∈ t.handedOut ∧ t.arrays[segment.array]? = s.arrays[segment.array]?
  others : ∀ (j : Nat) (input : InputStream σ), (∀ a ∈ as, a.input ≠ some j) →
    s.inputs[j]? = some input →
    t.inputs[j]? = some input ∧ t.arrays[input.buffer]? = s.arrays[input.buffer]?

theorem Intact.trans {as bs : List (Action σ)} (h : Intact as s t) (h' : Intact bs t u) :
    Intact (as ++ bs) s u := by
  refine ⟨?_, ?_⟩
  · intro segment hsegment
    obtain ⟨hkept, hsame⟩ := h.handedOut segment hsegment
    obtain ⟨hkept', hsame'⟩ := h'.handedOut segment hkept
    exact ⟨hkept', hsame'.trans hsame⟩
  · intro j input hj hinput
    obtain ⟨hkept, hsame⟩ :=
      h.others j input (fun a ha => hj a (List.mem_append_left bs ha)) hinput
    obtain ⟨hkept', hsame'⟩ :=
      h'.others j input (fun a ha => hj a (List.mem_append_right as ha)) hkept
    exact ⟨hkept', hsame'.trans hsame⟩

theorem Effect.shared {i : Option Nat} (h : Effect s t i) (hs : s.Shared) : t.Shared := by
  unfold State.Shared at hs ⊢
  cases h with
  | idle i harrays hinputs hsegments => rwa [harrays, hinputs, hsegments]
  | creates buffer input hbuffer harrays hinputs hsegments =>
      rw [harrays, hinputs, hsegments]
      exact hs.create buffer hbuffer
  | updates k input input' hk hupdates hinputs hsegments =>
      rw [hinputs, hsegments]
      exact hs.set hk hupdates
  | handsOut k input input' segment hk hupdates hinputs hsegment hreuse hsegments =>
      have hlt := (List.getElem?_eq_some_iff.1 hk).1
      rw [hinputs, hsegments, List.map_append, List.map_singleton, hsegment]
      exact (hs.set hk hupdates).publish (List.getElem?_set_self hlt) hreuse
  | clones k input input' copy hk hupdates hinputs hbuffer hreuse hreuse' hsegments =>
      have hlt := (List.getElem?_eq_some_iff.1 hk).1
      have hset := hs.set hk hupdates
      have hget : (s.inputs.set k input')[k]? = some input' := List.getElem?_set_self hlt
      rw [hinputs, hsegments]
      refine hset.append ?_ ?_ ?_
      · exact hbuffer ▸ hset.cell_lt input' (List.mem_of_getElem? hget)
      · -- alone with the buffer of `input'` would be `input'`, and it is not
        intro x hx hexcl heq
        obtain ⟨j, hj⟩ := List.mem_iff_getElem?.1 hx
        have hjk := hset.alone j k x input' hj hget hexcl (by rw [heq, hbuffer])
        rw [hjk, hget, Option.some.injEq] at hj
        rw [← hj, hreuse] at hexcl
        contradiction
      · intro hexcl
        rw [hreuse'] at hexcl
        contradiction

theorem intact_of_updates {k : Nat} (hs : s.Shared) (hak : a.input = some k)
    (hk : s.inputs[k]? = some input) (hupdates : InputUpdates s.arrays input t.arrays input')
    (hinputs : ∀ (j : Nat) (x : InputStream σ), j ≠ k → s.inputs[j]? = some x →
      t.inputs[j]? = some x)
    (hsegments : ∀ segment ∈ s.handedOut, segment ∈ t.handedOut) : Intact [a] s t := by
  refine ⟨?_, ?_⟩
  · intro segment hsegment
    exact ⟨hsegments segment hsegment,
      hs.getElem?_of_published hk hupdates (List.mem_map_of_mem hsegment)⟩
  · intro j x hj hx
    have hjk : j ≠ k := by
      rintro rfl
      exact hj a (List.mem_singleton_self a) hak
    exact ⟨hinputs j x hjk hx, hs.getElem?_of_ne hk hupdates hx hjk⟩

theorem Effect.intact (h : Effect s t a.input) (hs : s.Shared) : Intact [a] s t := by
  have hset : ∀ {k : Nat} {input' : InputStream σ} (j : Nat) (x : InputStream σ), j ≠ k →
      s.inputs[j]? = some x → (s.inputs.set k input')[j]? = some x := by
    intro k input' j x hne hx
    rwa [List.getElem?_set_ne hne.symm]
  generalize hi : a.input = i at h
  cases h with
  | idle i harrays hinputs hsegments =>
      refine ⟨?_, ?_⟩
      · intro segment hsegment
        exact ⟨hsegments ▸ hsegment, by rw [harrays]⟩
      · intro j x _ hx
        exact ⟨hinputs ▸ hx, by rw [harrays]⟩
  | creates buffer input hbuffer harrays hinputs hsegments =>
      refine ⟨?_, ?_⟩
      · intro segment hsegment
        refine ⟨hsegments ▸ hsegment, ?_⟩
        rw [harrays, List.getElem?_append_left]
        exact hs.published_lt _ (List.mem_map_of_mem hsegment)
      · intro j x _ hx
        refine ⟨?_, ?_⟩
        · rw [hinputs, List.getElem?_append_left (List.getElem?_eq_some_iff.1 hx).1, hx]
        · rw [harrays, List.getElem?_append_left]
          exact hs.cell_lt x (List.mem_of_getElem? hx)
  | updates k input input' hk hupdates hinputs hsegments =>
      refine intact_of_updates hs hi hk hupdates ?_ fun segment hsegment => hsegments ▸ hsegment
      rw [hinputs]
      exact hset
  | handsOut k input input' segment hk hupdates hinputs hsegment hreuse hsegments =>
      refine intact_of_updates hs hi hk hupdates ?_ fun segment hsegment => ?_
      · rw [hinputs]
        exact hset
      · rw [hsegments]
        exact List.mem_append_left _ hsegment
  | clones k input input' copy hk hupdates hinputs hbuffer hreuse hreuse' hsegments =>
      refine intact_of_updates hs hi hk hupdates ?_ fun segment hsegment => hsegments ▸ hsegment
      intro j x hne hx
      have hx' := @hset k input' j x hne hx
      rw [hinputs, List.getElem?_append_left (List.getElem?_eq_some_iff.1 hx').1, hx']

theorem shared_initial : (State.initial : State σ).Shared := wellFormed_nil

/-- Whatever the order of the operations, nothing that was handed out changes, and none of the input
    streams notices what the others do. -/
theorem intact_run {as : List (Action σ)} (hs : s.Shared)
    (hrun : (machine S).run s as = some t) : Intact as s t ∧ t.Shared := by
  induction as generalizing s with
  | nil =>
      obtain ⟨⟩ := hrun
      exact ⟨⟨fun segment hsegment => ⟨hsegment, rfl⟩, fun j x _ hx => ⟨hx, rfl⟩⟩, hs⟩
  | cons a as ih =>
      rw [System.run_cons] at hrun
      obtain ⟨u, hstep, hrest⟩ := Option.bind_eq_some_iff.1 hrun
      have heffect := step_effect hstep
      obtain ⟨hintact, hshared⟩ := ih (heffect.shared hs) hrest
      exact ⟨(heffect.intact hs).trans hintact, hshared⟩

/-! ## The indices of a refill -/

structure State.Ranged (s : State σ) : Prop where
  inputs : ∀ input ∈ s.inputs, input.Ranged
  arrays : Sized s.arrays

/-- The indices with which the refill is done that an operation begins with, if it does, are in the
    arrays. -/
def InRange (S : Stream σ) (s : State σ) : Action σ → Prop
  | .read k r => ∀ input ∈ s.inputs[k]?,
      (check S s.activeAllocationChunk r s.arrays input).1 ≠ some .argument
  | _ => True

/-- No position is in front of the buffer. For a read, `end - count` does not wrap around either, and
    the end of the unread bytes, if there are any, is not behind the end of the buffer. -/
def InWindow (S : Stream σ) (s : State σ) : Action σ → Prop
  | .skipBytes k count => ∀ input ∈ s.inputs[k]?, 0 ≤ int (input.position + count.toInt)
  | .setPosition k value => ∀ input ∈ s.inputs[k]?, ∀ position ∈ input.positionAt S value,
      0 ≤ position
  | .read k r => ∀ input ∈ s.inputs[k]?,
      int (input.end_ - r.count) = input.end_ - r.count ∧
        (input.end_ ≤ (array s.arrays input.buffer).length ∨ input.end_ ≤ input.position)
  | _ => True

theorem Read.count_lt (r : Read) : r.count < 2 ^ 31 := by
  cases r with
  | string size => exact size.toInt_lt
  | bytes count => exact count.toInt_lt
  | _ => simp [Read.count]

theorem Read.pastEnd_iff (h : int (input.end_ - r.count) = input.end_ - r.count) :
    r.pastEnd input = true ↔ input.end_ - input.position < r.count := by
  cases r with
  | uint8 =>
      simp only [Read.pastEnd, Read.count, decide_eq_true_eq]
      omega
  | _ =>
      simp only [Read.pastEnd, h, decide_eq_true_eq]
      omega

/-- After a check that did not throw, the bytes are there, except where a temporary buffer could not
    be filled. -/
structure Checked (chunk : Nat) (count : Int)
    (checked : Option Exception × Arrays × InputStream σ) : Prop where
  thrown_ne : checked.1 ≠ some .argument
  sized : Sized checked.2.1
  ranged : checked.2.2.Ranged
  fits : checked.1 = none → checked.2.2.position + count ≤ checked.2.2.end_ ∨
    (array checked.2.1 checked.2.2.buffer).length + chunk < count

theorem checked_check (hchunk : 0 < chunk) (hinput : input.Ranged) (hsized : Sized arrays)
    (hcount : int (input.end_ - r.count) = input.end_ - r.count)
    (hwindow : input.end_ ≤ (array arrays input.buffer).length ∨ input.end_ ≤ input.position) :
    Checked chunk r.count (check S chunk r arrays input) := by
  unfold check
  split
  · next hpast =>
      have hrefilled := refilled_endOfStream (S := S) hchunk hinput hsized r.count_lt
        ((Read.pastEnd_iff hcount).1 hpast) hwindow
      refine ⟨hrefilled.thrown_ne, hrefilled.sized, hrefilled.ranged, ?_⟩
      intro hnone
      have hle := hrefilled.count_le hnone
      rcases hrefilled.position_eq hnone with hzero | hlarge
      · exact .inl (by omega)
      · exact .inr hlarge
  · next hpast =>
      have hfits : input.position + r.count ≤ input.end_ := by
        have := mt (Read.pastEnd_iff hcount).2 hpast
        omega
      exact ⟨by simp, hsized, hinput, fun _ => .inl hfits⟩

theorem Read.take_ranged (hchunk : 0 < chunk) {length : Nat} (hinput : input.Ranged)
    (hfits : input.position + r.count ≤ input.end_ ∨ (length : Int) + chunk < r.count) :
    (r.take length input).2.Ranged := by
  obtain ⟨hpos, hpos', hend, hend', hlength⟩ := hinput
  have hmoved : ∀ n : Int, 0 ≤ input.position + n → input.position + n < 2 ^ 31 →
      0 ≤ int (input.position + n) := by
    intro n hnonneg hlt
    rw [int_eq_self (by omega) hlt]
    exact hnonneg
  cases r with
  | uint8 =>
      simp only [Read.count] at hfits
      refine ⟨hmoved 1 ?_ ?_, int_lt _, hend, hend', hlength⟩ <;> omega
  | string size =>
      simp only [Read.count] at hfits
      simp only [Read.take]
      split
      · refine ⟨hmoved _ ?_ ?_, int_lt _, hend, hend', hlength⟩ <;> omega
      · exact ⟨hpos, hpos', hend, hend', hlength⟩
  | bytes count =>
      simp only [Read.count] at hfits
      simp only [Read.take]
      split
      · refine ⟨hmoved _ ?_ ?_, int_lt _, hend, hend', hlength⟩ <;> omega
      · exact ⟨hpos, hpos', hend, hend', hlength⟩
  | _ =>
      simp only [Read.count] at hfits
      simp only [Read.take]
      split
      · refine ⟨hmoved _ ?_ ?_, int_lt _, hend, hend', hlength⟩ <;> simp only [Read.count] <;> omega
      · exact ⟨hpos, hpos', hend, hend', hlength⟩

theorem read_ranged (hchunk : 0 < chunk) (hinput : input.Ranged) (hsized : Sized arrays)
    (hcount : int (input.end_ - r.count) = input.end_ - r.count)
    (hwindow : input.end_ ≤ (array arrays input.buffer).length ∨ input.end_ ≤ input.position) :
    (read S chunk r arrays input).2.2.Ranged ∧ Sized (read S chunk r arrays input).2.1 := by
  have hchecked := checked_check (S := S) hchunk hinput hsized hcount hwindow
  unfold read
  generalize check S chunk r arrays input = checked at hchecked ⊢
  obtain ⟨thrown, arrays', input'⟩ := checked
  cases thrown with
  | some e => exact ⟨hchecked.ranged, hchecked.sized⟩
  | none => exact ⟨Read.take_ranged hchunk hchecked.ranged (hchecked.fits rfl), hchecked.sized⟩

theorem InputStream.Ranged.move (h : input.Ranged) {position : Int} (hnonneg : 0 ≤ position)
    (hlt : position < 2 ^ 31) : ({ input with position } : InputStream σ).Ranged :=
  ⟨hnonneg, hlt, h.end_nonneg, h.end_lt, h.bufferLength_lt⟩

theorem State.Ranged.of_set {k : Nat} (hs : s.Ranged) (hinput : input.Ranged)
    (harrays : Sized t.arrays) (hinputs : t.inputs = s.inputs.set k input) : t.Ranged := by
  refine ⟨?_, harrays⟩
  rw [hinputs]
  intro x hx
  rcases List.mem_or_eq_of_mem_set hx with hold | rfl
  · exact hs.inputs x hold
  · exact hinput

theorem ranged_step (hs : s.Ranged) (hwindow : InWindow S s a) (h : step S s a = some t) :
    t.Ranged := by
  cases a with
  | create stream bufferLength =>
      simp only [step] at h
      split at h
      · next hnonneg =>
          obtain ⟨⟩ := h
          have hlt := bufferLength.toInt_lt
          have hlength : bufferLength.toInt.toNat < 2 ^ 31 := by omega
          refine ⟨?_, hs.arrays.append hlength⟩
          intro x hx
          rcases List.mem_append.1 hx with hold | hnew
          · exact hs.inputs x hold
          · rw [List.mem_singleton.1 hnew]
            exact ⟨Int.le_refl 0, by simp, Int.le_refl 0, by simp, hlength⟩
      · obtain ⟨⟩ := h
        exact hs
  | setActiveAllocationChunk value =>
      simp only [step] at h
      split at h <;> obtain ⟨⟩ := h <;> exact ⟨hs.inputs, hs.arrays⟩
  | clone k =>
      obtain ⟨input, hk, h⟩ := Option.bind_eq_some_iff.1 h
      have hinput := hs.inputs input (List.mem_of_getElem? hk)
      have hranged : ({ input with canReuseBuffer := false } : InputStream σ).Ranged :=
        ⟨hinput.1, hinput.2, hinput.3, hinput.4, hinput.5⟩
      split at h
      · obtain ⟨⟩ := h
        exact hs.of_set hranged hs.arrays rfl
      · next stream _ =>
          obtain ⟨⟩ := h
          refine ⟨?_, hs.arrays⟩
          intro x hx
          rcases List.mem_append.1 hx with hold | hnew
          · rcases List.mem_or_eq_of_mem_set hold with hold | rfl
            · exact hs.inputs x hold
            · exact hranged
          · rw [List.mem_singleton.1 hnew]
            obtain ⟨hpos, hpos', hend, hend', hlength⟩ := hinput
            have hcopy : (input.copy stream).end_ = input.end_ := by
              simp only [InputStream.copy, int]
              omega
            exact ⟨hpos, hpos', by omega, by omega, hlength⟩
  | skipBytes k count =>
      obtain ⟨input, hk, h⟩ := Option.bind_eq_some_iff.1 h
      obtain ⟨⟩ := h
      have hinput := hs.inputs input (List.mem_of_getElem? hk)
      exact hs.of_set (hinput.move (hwindow input hk) (int_lt _)) hs.arrays rfl
  | setPosition k value =>
      obtain ⟨input, hk, h⟩ := Option.bind_eq_some_iff.1 h
      have hinput := hs.inputs input (List.mem_of_getElem? hk)
      split at h
      · obtain ⟨⟩ := h
        exact hs
      · next position hposition =>
          obtain ⟨⟩ := h
          have hnonneg := hwindow input hk position hposition
          have hlt : position < 2 ^ 31 := by
            obtain ⟨p, _, hp⟩ := Option.bind_eq_some_iff.1 hposition
            split at hp
            · obtain ⟨⟩ := hp
              exact int_lt _
            · contradiction
          exact hs.of_set (hinput.move hnonneg hlt) hs.arrays rfl
  | read k r =>
      obtain ⟨input, hk, h⟩ := Option.bind_eq_some_iff.1 h
      have hinput := hs.inputs input (List.mem_of_getElem? hk)
      obtain ⟨hcount, hend⟩ := hwindow input hk
      have hread := read_ranged (S := S) s.activeAllocationChunk_pos hinput hs.arrays hcount hend
      split at h
      · next heq =>
          rw [heq] at hread
          obtain ⟨⟩ := h
          exact hs.of_set hread.1 hread.2 rfl
      · next heq =>
          rw [heq] at hread
          obtain ⟨⟩ := h
          exact hs.of_set hread.1 hread.2 rfl

theorem inRange_of_inWindow (hs : s.Ranged) (hwindow : InWindow S s a) : InRange S s a := by
  cases a with
  | read k r =>
      intro input hk
      obtain ⟨hcount, hend⟩ := hwindow input hk
      exact (checked_check s.activeAllocationChunk_pos (hs.inputs input (List.mem_of_getElem? hk))
        hs.arrays hcount hend).thrown_ne
  | _ => trivial

theorem ranged_initial : (State.initial : State σ).Ranged :=
  ⟨by simp [State.initial], by simp [State.initial, Sized]⟩

theorem ranged_run {as : List (Action σ)} (hs : s.Ranged)
    (hmeets : (machine S).Meets (InWindow S) s as) :
    (machine S).Along State.Ranged s as ∧ (machine S).Meets (InRange S) s as := by
  induction as generalizing s with
  | nil => exact ⟨hs, trivial⟩
  | cons a as ih =>
      refine ⟨⟨hs, fun t ht => ?_⟩, fun t ht => ?_⟩
      · obtain ⟨hwindow, hrest⟩ := hmeets t ht
        exact (ih (ranged_step hs hwindow ht) hrest).1
      · obtain ⟨hwindow, hrest⟩ := hmeets t ht
        exact ⟨inRange_of_inWindow hs hwindow, (ih (ranged_step hs hwindow ht) hrest).2⟩

/-! ## Every run -/

/-- Nothing the later operations do shows in what the earlier ones handed out, nor in an input stream
    that is not theirs. -/
def Undisturbed (S : Stream σ) (before after : List (Action σ)) : Prop :=
  ∀ s t, (machine S).run State.initial before = some s → (machine S).run s after = some t →
    Intact after s t

theorem undisturbed (S : Stream σ) (before after : List (Action σ)) :
    Undisturbed S before after := by
  intro s t hbefore hafter
  exact (intact_run (intact_run shared_initial hbefore).2 hafter).1

/-- In a run of which all operations stay in the window, each refill has its indices in the arrays,
    and none ever overwrites what was handed out, or what a clone sees. -/
theorem undisturbed_and_inRange (S : Stream σ) {before after : List (Action σ)}
    (hwindow : (machine S).Meets (InWindow S) State.initial (before ++ after)) :
    Undisturbed S before after ∧
      (machine S).Meets (InRange S) State.initial (before ++ after) :=
  ⟨undisturbed S before after, (ranged_run ranged_initial hwindow).2⟩

instance (S : Stream σ) (s : State σ) (a : Action σ) : Decidable (InWindow S s a) := by
  cases a <;> unfold InWindow <;> infer_instance

instance (S : Stream σ) (s : State σ) (a : Action σ) : Decidable (InRange S s a) := by
  cases a <;> unfold InRange <;> infer_instance

/-- A `MemoryStream` on the bytes, which may be sought beyond its end. -/
def memoryStream (data : List UInt8) : Stream Nat where
  canSeek _ := true
  position p := some p
  seek p count := if 0 ≤ p + count then (true, (p + count).toNat) else (false, p)
  read p count := (some ((data.drop p).take count), p + ((data.drop p).take count).length)
  clone p := some p
  read_length p count bytes h := by
    obtain ⟨⟩ := h
    exact List.length_take_le _ _

/-- Bytes are handed out, the input stream is cloned, and both read on. -/
theorem undisturbed_and_inRange_clone :
    Undisturbed (memoryStream [1, 2, 3, 4, 5, 6]) [.create 0 2, .read 0 (.bytes 1), .clone 0]
        [.read 0 .uint16, .read 1 (.bytes 4), .setPosition 0 2, .read 0 .uint8] ∧
      (machine (memoryStream [1, 2, 3, 4, 5, 6])).Meets (InRange (memoryStream [1, 2, 3, 4, 5, 6]))
        State.initial ([.create 0 2, .read 0 (.bytes 1), .clone 0] ++
          [.read 0 .uint16, .read 1 (.bytes 4), .setPosition 0 2, .read 0 .uint8]) :=
  undisturbed_and_inRange _ (by decide)

/-- A position in front of the buffer: the tail that is copied begins at index -1. -/
theorem not_inRange_of_position :
    ¬ (machine (memoryStream [1, 2, 3, 4, 5, 6])).Meets (InRange (memoryStream [1, 2, 3, 4, 5, 6]))
      State.initial [.create 0 2, .read 0 .uint16, .read 0 .uint16, .setPosition 0 1,
        .read 0 (.bytes 4)] := by
  decide

/-- A count that makes `end - count` wrap around: three bytes are copied into a buffer of one. -/
example :
    ¬ (machine (memoryStream [1, 2, 3, 4])).Meets (InRange (memoryStream [1, 2, 3, 4]))
      State.initial [.create 0 1, .read 0 (.bytes 3), .setPosition 0 0,
        .read 0 (.bytes Int32.minValue)] := by
  decide

end Bond.Cs.Unsafe

import Bond.Cpp.MemoryBlob
import Bond.Cpp.VarintPaths

set_option autoImplicit false

/-! # The bounds of a memory input stream

`InputBuffer` (cpp/inc/bond/stream/input_buffer.h) once more, as it computes: the position and the
sizes are `uint32_t`, and nothing but its checks keeps it from looking at bytes that are not there.
An operation says which bytes it has looked at and whether a computation of 32 bits has wrapped. -/

namespace Bond.Cpp

open Decoder Varint

namespace BoundedBuffer

/-! ## Operations that leave a trace -/

/-- What an operation of the stream throws, or one of the blob. -/
inductive ReadFailure where
  | stream (e : BondException)
  | blob (e : BlobFailure)

/-- What an operation leaves: its result, `_pointer`, the places it has read at, and whether a
    computation of 32 bits has wrapped. -/
structure Outcome (α : Type) where
  result : Except ReadFailure α
  pointer : UInt32
  reads : List Nat
  wraps : Bool

/-- Go on, from the position and with the trace of what was before. -/
def Outcome.andThen {α β : Type} (o : Outcome α) (f : α → UInt32 → Outcome β) : Outcome β :=
  match o.result with
  | .error e => { o with result := .error e }
  | .ok a =>
      let o' := f a o.pointer
      { o' with reads := o.reads ++ o'.reads, wraps := o.wraps || o'.wraps }

def Outcome.map {α β : Type} (f : α → β) (o : Outcome α) : Outcome β :=
  { o with result := o.result.map f }

/-- `x - y` needs more than 32 bits. -/
def subWraps (x y : UInt32) : Bool :=
  decide (x.toNat < y.toNat)

/-- `x + y` needs more than 32 bits. -/
def addWraps (x y : UInt32) : Bool :=
  decide (2 ^ 32 ≤ x.toNat + y.toNat)

/-! ## The operations -/

section

variable (memory : Memory) (blob : MemoryBlob)

/-- A byte of `_blob`. Nothing is said about a byte that is not of the blob, but that it is read. -/
def byteAt (i : Nat) : UInt8 :=
  (blob.bytes memory).getD i 0

/-- `EofException` -/
def eofException {α : Type} (size p : UInt32) : Outcome α :=
  ⟨.error (.stream (.eof size.toNat p.toNat blob.length.toNat)), p, [], false⟩

/-- `Read(uint8_t&)` -/
def readUInt8 (p : UInt32) : Outcome UInt8 :=
  if blob.length = p then
    eofException blob 1 p
  else
    ⟨.ok (byteAt memory blob p.toNat), p + 1, [p.toNat], addWraps p 1⟩

/-- `Read(void*, uint32_t)`, and `Read(T&)` for the `sizeof(T)` bytes of a `T` -/
def readBytes (size p : UInt32) : Outcome (List UInt8) :=
  if size > blob.length - p then
    { eofException blob size p with wraps := subWraps blob.length p }
  else
    { result := .ok ((List.range' p.toNat size.toNat).map (byteAt memory blob))
      pointer := p + size
      reads := List.range' p.toNat size.toNat
      wraps := subWraps blob.length p || addWraps p size }

/-- `Read(blob&, uint32_t)` -/
def readBlob (size p : UInt32) : Outcome MemoryBlob :=
  if size > blob.length - p then
    { eofException blob size p with wraps := subWraps blob.length p }
  else
    match blob.assign p size with
    | .error e => ⟨.error (.blob e), p, [], subWraps blob.length p⟩
    | .ok range => ⟨.ok range, p + size, [], subWraps blob.length p || addWraps p size⟩

/-- `Skip` -/
def skip (size p : UInt32) : Outcome Unit :=
  if size > blob.length - p then
    ⟨.ok (), p, [], subWraps blob.length p⟩
  else
    ⟨.ok (), p + size, [], subWraps blob.length p || addWraps p size⟩

/-- `VariableUnsignedUnchecked::Read`, with the number of steps before the last one: the value, the
    place behind the integer and the places it has read at. -/
def variableUnsignedUnchecked (w : VarWidth) : (steps value i : Nat) → Nat × Nat × List Nat
  | 0, value, i =>
      let byte := byteAt memory blob i
      ((value ||| (byte.toNat <<< w.lastShift)) % 2 ^ w.bits,
        if w = .w64 ∧ byte ≥ 0x80 then i + 2 else i + 1, [i])
  | steps + 1, value, i =>
      let byte := byteAt memory blob i
      let value := value ||| ((byte.toNat &&& 0x7f) <<< (w.lastShift - 7 * (steps + 1)))
      if byte ≥ 0x80 then
        let r := variableUnsignedUnchecked w steps value (i + 1)
        (r.1, r.2.1, i :: r.2.2)
      else
        (value, i + 1, [i])

/-- The loop of `GenericReadVariableUnsigned`, for the bytes that are left. -/
def genericReadLoop (w : VarWidth) : (left value shift : Nat) → UInt32 → Outcome Nat
  | 0, _, _, p => eofException blob 1 p
  | left + 1, value, shift, p =>
      (readUInt8 memory blob p).andThen fun byte p =>
        let value := (value + ((byte.toNat &&& 0x7f) <<< shift)) % 2 ^ w.bits
        if byte ≥ 0x80 then
          genericReadLoop w left value (shift + 7) p
        else
          ⟨.ok value, p, [], false⟩

/-- `ReadVariableUnsigned`; the sum that it checks is a `size_t`. -/
def readVariableUnsigned (w : VarWidth) (p : UInt32) : Outcome Nat :=
  if blob.length.toNat > p.toNat + w.sizeof * 8 / 7 then
    let r := variableUnsignedUnchecked memory blob w (w.lastShift / 7) 0 p.toNat
    ⟨.ok r.1, UInt32.ofNat r.2.1, r.2.2, decide (2 ^ 32 ≤ r.2.1)⟩
  else
    genericReadLoop memory blob w (blob.length.toNat - p.toNat) 0 0 p

/-- An operation of the stream, with the sizes that a payload asks for. -/
inductive Operation where
  | readUInt8
  | readBytes (size : UInt32)
  | readBlob (size : UInt32)
  | skip (size : UInt32)
  | readVariableUnsigned (w : VarWidth)
deriving DecidableEq, Repr

/-- The position and the trace of an operation. -/
def apply (p : UInt32) : Operation → Outcome Unit
  | .readUInt8 => (readUInt8 memory blob p).map fun _ => ()
  | .readBytes size => (readBytes memory blob size p).map fun _ => ()
  | .readBlob size => (readBlob blob size p).map fun _ => ()
  | .skip size => skip blob size p
  | .readVariableUnsigned w => (readVariableUnsigned memory blob w p).map fun _ => ()

/-- The position after a sequence of operations, whether they throw or not. -/
def run (p : UInt32) (ops : List Operation) : UInt32 :=
  ops.foldl (fun p op => (apply memory blob p op).pointer) p

end

/-! ## Staying in bounds -/

/-- The position stays in the blob and does not go back, what is read is of the blob, and 32 bits
    have been enough. -/
structure Outcome.Safe {α : Type} (length p : UInt32) (o : Outcome α) : Prop where
  pointer_le : o.pointer.toNat ≤ length.toNat
  le_pointer : p.toNat ≤ o.pointer.toNat
  reads : ∀ i ∈ o.reads, i < length.toNat
  wraps : o.wraps = false

section

variable {α β : Type} {length p : UInt32}

theorem Outcome.Safe.andThen {o : Outcome α} {f : α → UInt32 → Outcome β} (h : o.Safe length p)
    (hf : ∀ a, (f a o.pointer).Safe length o.pointer) : (o.andThen f).Safe length p := by
  unfold Outcome.andThen
  split
  · exact ⟨h.pointer_le, h.le_pointer, h.reads, h.wraps⟩
  · next a _ =>
      have hnext := hf a
      refine ⟨hnext.pointer_le, Nat.le_trans h.le_pointer hnext.le_pointer, ?_, ?_⟩
      · intro i hi
        rcases List.mem_append.1 hi with hi | hi
        · exact h.reads i hi
        · exact hnext.reads i hi
      · show (o.wraps || (f a o.pointer).wraps) = false
        rw [h.wraps, hnext.wraps]
        rfl

theorem Outcome.Safe.map {o : Outcome α} (h : o.Safe length p) (f : α → β) :
    (o.map f).Safe length p :=
  ⟨h.pointer_le, h.le_pointer, h.reads, h.wraps⟩

/-- Nothing happens at a position in the blob. -/
theorem safe_stay (hp : p.toNat ≤ length.toNat) {wraps : Bool} (hwraps : wraps = false)
    (r : Except ReadFailure α) : Outcome.Safe length p ⟨r, p, [], wraps⟩ :=
  ⟨hp, Nat.le_refl _, by simp, hwraps⟩

theorem toNat_left (hp : p.toNat ≤ length.toNat) :
    (length - p).toNat = length.toNat - p.toNat :=
  UInt32.toNat_sub_of_le _ _ (UInt32.le_iff_toNat_le.2 hp)

theorem subWraps_eq (hp : p.toNat ≤ length.toNat) : subWraps length p = false :=
  decide_eq_false (by omega)

/-- The check of a size, at a position in the blob. -/
theorem check_iff (hp : p.toNat ≤ length.toNat) (size : UInt32) :
    size > length - p ↔ length.toNat < p.toNat + size.toNat := by
  rw [gt_iff_lt, UInt32.lt_iff_toNat_lt, toNat_left hp]
  omega

/-- Where the check has passed, the size can be added. -/
theorem toNat_add_size {size : UInt32} (h : p.toNat + size.toNat ≤ length.toNat) :
    (p + size).toNat = p.toNat + size.toNat ∧ addWraps p size = false := by
  have hlt := length.toNat_lt
  exact ⟨MemoryBlob.toNat_add_of_lt (by omega), decide_eq_false (by omega)⟩

/-- Where the check has passed, the operation may read the bytes that it steps over. -/
theorem safe_take {size : UInt32} (h : p.toNat + size.toNat ≤ length.toNat) {reads : List Nat}
    (hreads : ∀ i ∈ reads, i < p.toNat + size.toNat) (r : Except ReadFailure α) :
    Outcome.Safe length p ⟨r, p + size, reads, subWraps length p || addWraps p size⟩ := by
  obtain ⟨hadd, hwraps⟩ := toNat_add_size h
  refine ⟨?_, ?_, fun i hi => Nat.lt_of_lt_of_le (hreads i hi) h, ?_⟩
  · show (p + size).toNat ≤ _
    omega
  · show _ ≤ (p + size).toNat
    omega
  · show (subWraps length p || addWraps p size) = false
    rw [subWraps_eq (by omega), hwraps]
    rfl

end

section

variable {memory : Memory} {blob : MemoryBlob} {p : UInt32}

theorem safe_readUInt8 (hp : p.toNat ≤ blob.length.toNat) :
    (readUInt8 memory blob p).Safe blob.length p := by
  unfold readUInt8
  split
  · exact safe_stay hp rfl _
  · next hne =>
      have hlt : p.toNat < blob.length.toNat := by
        refine Nat.lt_of_le_of_ne hp fun heq => hne ?_
        exact UInt32.toNat_inj.1 heq.symm
      have hone : p.toNat + (1 : UInt32).toNat ≤ blob.length.toNat := hlt
      have hreads : ∀ i ∈ [p.toNat], i < p.toNat + (1 : UInt32).toNat := by simp
      have hsafe := safe_take hone hreads (.ok (byteAt memory blob p.toNat))
      rw [subWraps_eq hp, Bool.false_or] at hsafe
      exact hsafe

theorem safe_readBytes (hp : p.toNat ≤ blob.length.toNat) (size : UInt32) :
    (readBytes memory blob size p).Safe blob.length p := by
  unfold readBytes
  split
  · exact safe_stay hp (subWraps_eq hp) _
  · next hcheck =>
      rw [check_iff hp] at hcheck
      refine safe_take (by omega) (fun i hi => ?_) _
      exact (List.mem_range'_1.1 hi).2

/-- The check of the blob passes where the one of the stream has. -/
theorem assign_eq {size : UInt32} (h : p.toNat + size.toNat ≤ blob.length.toNat) :
    blob.assign p size = .ok ⟨blob.buffer, Pointer.add blob.content p.toNat, size⟩ := by
  obtain ⟨hadd, -⟩ := toNat_add_size h
  have hlt := blob.length.toNat_lt
  have hle : ¬ p + size > blob.length := by
    rw [gt_iff_lt, UInt32.lt_iff_toNat_lt, hadd]
    omega
  unfold MemoryBlob.assign
  rw [MemoryBlob.checkedAdd_eq, if_pos (by omega)]
  show (if p + size > blob.length then _ else _) = _
  rw [if_neg hle]
  rfl

theorem safe_readBlob (hp : p.toNat ≤ blob.length.toNat) (size : UInt32) :
    (readBlob blob size p).Safe blob.length p := by
  unfold readBlob
  split
  · exact safe_stay hp (subWraps_eq hp) _
  · next hcheck =>
      rw [check_iff hp] at hcheck
      rw [assign_eq (show p.toNat + size.toNat ≤ blob.length.toNat by omega)]
      exact safe_take (by omega) (by simp) _

theorem safe_skip (hp : p.toNat ≤ blob.length.toNat) (size : UInt32) :
    (skip blob size p).Safe blob.length p := by
  unfold skip
  split
  · exact safe_stay hp (subWraps_eq hp) _
  · next hcheck =>
      rw [check_iff hp] at hcheck
      exact safe_take (by omega) (by simp) _

/-- The unrolled steps read at most one byte each, and the last one may step over another. -/
theorem unchecked_bounds (memory : Memory) (blob : MemoryBlob) (w : VarWidth)
    (steps value i : Nat) :
    let r := variableUnsignedUnchecked memory blob w steps value i
    i < r.2.1 ∧ r.2.1 ≤ i + steps + (if w = .w64 then 2 else 1) ∧ ∀ j ∈ r.2.2, j ≤ i + steps := by
  induction steps generalizing value i with
  | zero =>
      simp only [variableUnsignedUnchecked]
      refine ⟨?_, ?_, by simp⟩
      · split <;> omega
      · split
        · next hlast => rw [if_pos hlast.1]
        · split <;> omega
  | succ steps ih =>
      simp only [variableUnsignedUnchecked]
      split
      · obtain ⟨hlt, hle, hreads⟩ := ih
          (value ||| (((byteAt memory blob i).toNat &&& 0x7f) <<< (w.lastShift - 7 * (steps + 1))))
          (i + 1)
        refine ⟨by dsimp only; omega, by dsimp only; omega, ?_⟩
        intro j hj
        rcases List.mem_cons.1 hj with rfl | hj
        · omega
        · have hj := hreads j hj
          omega
      · refine ⟨Nat.lt_succ_self i, ?_, by simp⟩
        dsimp only
        split <;> omega

theorem safe_genericReadLoop (w : VarWidth) (left value shift : Nat)
    (hp : p.toNat ≤ blob.length.toNat) :
    (genericReadLoop memory blob w left value shift p).Safe blob.length p := by
  induction left generalizing value shift p with
  | zero => exact safe_stay hp rfl _
  | succ left ih =>
      rw [genericReadLoop]
      have hread : (readUInt8 memory blob p).Safe blob.length p := safe_readUInt8 hp
      refine hread.andThen fun byte => ?_
      dsimp only
      split
      · exact ih _ _ hread.pointer_le
      · exact safe_stay hread.pointer_le rfl _

/-- More bytes are left than the unrolled steps can step over. -/
theorem safe_readVariableUnsigned (w : VarWidth) (hp : p.toNat ≤ blob.length.toNat) :
    (readVariableUnsigned memory blob w p).Safe blob.length p := by
  unfold readVariableUnsigned
  split
  · next hroom =>
      obtain ⟨hlt, hle, hreads⟩ := unchecked_bounds memory blob w (w.lastShift / 7) 0 p.toNat
      have hlength := blob.length.toNat_lt
      have hsteps : w.lastShift / 7 + (if w = .w64 then 2 else 1) ≤ w.sizeof * 8 / 7 + 1 := by
        cases w <;> decide
      have hpos : w.lastShift / 7 + 1 ≤ w.lastShift / 7 + (if w = .w64 then 2 else 1) := by
        split <;> omega
      have hend : (UInt32.ofNat (variableUnsignedUnchecked memory blob w (w.lastShift / 7) 0
          p.toNat).2.1).toNat
          = (variableUnsignedUnchecked memory blob w (w.lastShift / 7) 0 p.toNat).2.1 :=
        UInt32.toNat_ofNat_of_lt' (show _ < 2 ^ 32 by omega)
      refine ⟨?_, ?_, fun i hi => ?_, decide_eq_false (by omega)⟩
      · show (UInt32.ofNat _).toNat ≤ _
        omega
      · show _ ≤ (UInt32.ofNat _).toNat
        omega
      · have hi := hreads i hi
        omega
  · exact safe_genericReadLoop w _ 0 0 hp

/-- One operation, from any position in the blob. -/
theorem safe_apply (hp : p.toNat ≤ blob.length.toNat) (op : Operation) :
    (apply memory blob p op).Safe blob.length p := by
  cases op with
  | readUInt8 => exact (safe_readUInt8 hp).map _
  | readBytes size => exact (safe_readBytes hp size).map _
  | readBlob size => exact (safe_readBlob hp size).map _
  | skip size => exact safe_skip hp size
  | readVariableUnsigned w => exact (safe_readVariableUnsigned w hp).map _

/-- A sequence of operations, from any position in the blob. -/
theorem run_le (hp : p.toNat ≤ blob.length.toNat) (ops : List Operation) :
    (run memory blob p ops).toNat ≤ blob.length.toNat := by
  induction ops generalizing p with
  | nil => exact hp
  | cons op ops ih => exact ih (safe_apply hp op).pointer_le

/-- Whatever a stream was asked for before, and whatever the bytes are, the next operation stays in
    bounds. -/
theorem safe_run (memory : Memory) (blob : MemoryBlob) (ops : List Operation) (op : Operation) :
    (apply memory blob (run memory blob 0 ops) op).Safe blob.length (run memory blob 0 ops) :=
  safe_apply (run_le (Nat.zero_le _) ops) op

end

/-! ## The same reads

An operation in bounds does what the stream does that has no 32 bits to lose. -/

section

variable {memory : Memory} {blob : MemoryBlob} {p : UInt32} {b : InputBuffer}

/-- A stream over the bytes of the blob, at a position. -/
structure At (memory : Memory) (blob : MemoryBlob) (p : UInt32) (b : InputBuffer) : Prop where
  bytes : b.blob = blob.bytes memory
  pointer : b.pointer = p.toNat
  length : b.blob.length = blob.length.toNat

/-- The same result, or the same exception, at the same position. -/
def Agrees {α : Type} (memory : Memory) (blob : MemoryBlob) (o : Outcome α)
    (r : Except (BondException × InputBuffer) (α × InputBuffer)) : Prop :=
  match o.result, r with
  | .ok a, .ok (a', b) => a = a' ∧ At memory blob o.pointer b
  | .error (.stream e), .error (e', b) => e = e' ∧ At memory blob o.pointer b
  | _, _ => False

/-- Operations one after the other. -/
theorem Agrees.andThen {α β : Type} {o : Outcome α} {f : α → UInt32 → Outcome β}
    {m : Reader α} {g : α → Reader β} (h : Agrees memory blob o (m b))
    (hf : ∀ a b', At memory blob o.pointer b' → Agrees memory blob (f a o.pointer) (g a b')) :
    Agrees memory blob (o.andThen f) ((m >>= g) b) := by
  show Agrees memory blob (o.andThen f) (m b >>= fun x => g x.1 x.2)
  generalize m b = r at h
  obtain ⟨result, pointer, reads, wraps⟩ := o
  rcases result with (e | e) | a <;> rcases r with ⟨e', b'⟩ | ⟨a', b'⟩
  · exact h
  · exact h.elim
  · exact h.elim
  · exact h.elim
  · exact h.elim
  · obtain ⟨rfl, hat⟩ := h
    exact hf a b' hat

theorem At.le (h : At memory blob p b) : p.toNat ≤ blob.length.toNat := by
  have hle := b.pointer_le
  rw [h.length, h.pointer] at hle
  exact hle

theorem At.advance (h : At memory blob p b) {size : UInt32}
    (hsize : p.toNat + size.toNat ≤ blob.length.toNat) :
    At memory blob (p + size) (b.advance size.toNat) := by
  obtain ⟨hadd, -⟩ := toNat_add_size hsize
  refine ⟨h.bytes, ?_, h.length⟩
  show min (b.pointer + size.toNat) b.blob.length = _
  rw [h.pointer, h.length, hadd, Nat.min_eq_left hsize]

theorem agrees_eof {α : Type} (h : At memory blob p b) (size : UInt32) (reads : List Nat)
    (wraps : Bool) :
    Agrees memory blob
      { (eofException blob size p : Outcome α) with reads := reads, wraps := wraps }
      (InputBuffer.eofException size.toNat b) := by
  refine ⟨?_, h⟩
  rw [h.pointer, h.length]

theorem byteAt_eq (h : At memory blob p b) {i : Nat} (hi : i < b.blob.length) :
    byteAt memory blob i = b.blob[i] := by
  unfold byteAt
  rw [← h.bytes, List.getD_eq_getElem?_getD, List.getElem?_eq_getElem hi]
  rfl

theorem agrees_readUInt8 (h : At memory blob p b) :
    Agrees memory blob (readUInt8 memory blob p) (InputBuffer.readUInt8 b) := by
  have hend : blob.length = p ↔ b.pointer = b.blob.length := by
    rw [h.pointer, h.length, ← UInt32.toNat_inj]
    exact eq_comm
  unfold readUInt8 InputBuffer.readUInt8
  by_cases heof : b.pointer = b.blob.length
  · rw [if_pos (hend.2 heof), dif_pos heof]
    exact agrees_eof h 1 [] false
  · have hlt : b.pointer < b.blob.length := lt_of_le_of_ne b.pointer_le heof
    rw [if_neg (mt hend.1 heof), dif_neg heof]
    have hone : p.toNat + (1 : UInt32).toNat ≤ blob.length.toNat := by
      rw [h.pointer, h.length] at hlt
      exact hlt
    refine ⟨?_, h.advance hone⟩
    show byteAt memory blob p.toNat = _
    simp only [← h.pointer, byteAt_eq h hlt]

/-- The bytes that are looked at one by one. -/
theorem map_byteAt (h : At memory blob p b) {size : Nat}
    (hsize : p.toNat + size ≤ blob.length.toNat) :
    (List.range' p.toNat size).map (byteAt memory blob) = b.remaining.take size := by
  have hlength := h.length
  have hpointer := h.pointer
  refine List.ext_getElem ?_ fun i hi hi' => ?_
  · rw [List.length_map, List.length_range', List.length_take]
    show size = min size (b.blob.drop b.pointer).length
    rw [List.length_drop]
    omega
  · rw [List.length_map, List.length_range'] at hi
    rw [List.getElem_map, List.getElem_range', byteAt_eq h (by omega), List.getElem_take]
    unfold InputBuffer.remaining
    rw [List.getElem_drop]
    congr 1
    omega

theorem agrees_readBytes (h : At memory blob p b) (size : UInt32) :
    Agrees memory blob (readBytes memory blob size p) (InputBuffer.readBytes size.toNat b) := by
  have hle := h.le
  have hcheck : size > blob.length - p ↔ size.toNat > b.blob.length - b.pointer := by
    rw [check_iff hle, h.pointer, h.length]
    omega
  unfold readBytes InputBuffer.readBytes
  by_cases hout : size.toNat > b.blob.length - b.pointer
  · rw [if_pos (hcheck.2 hout), if_pos hout]
    exact agrees_eof h size [] _
  · have hfit : p.toNat + size.toNat ≤ blob.length.toNat := by
      rw [h.pointer, h.length] at hout
      omega
    rw [if_neg (mt hcheck.1 hout), if_neg hout]
    exact ⟨map_byteAt h hfit, h.advance hfit⟩

theorem agrees_readBlob (h : At memory blob p b) (size : UInt32) :
    Agrees memory blob ((readBlob blob size p).map (MemoryBlob.bytes memory))
      (InputBuffer.readBytes size.toNat b) := by
  have hle := h.le
  have hcheck : size > blob.length - p ↔ size.toNat > b.blob.length - b.pointer := by
    rw [check_iff hle, h.pointer, h.length]
    omega
  unfold readBlob InputBuffer.readBytes
  by_cases hout : size.toNat > b.blob.length - b.pointer
  · rw [if_pos (hcheck.2 hout), if_pos hout]
    exact agrees_eof h size [] _
  · have hfit : p.toNat + size.toNat ≤ blob.length.toNat := by
      rw [h.pointer, h.length] at hout
      omega
    rw [if_neg (mt hcheck.1 hout), if_neg hout, assign_eq hfit]
    refine ⟨?_, h.advance hfit⟩
    rw [MemoryBlob.bytes_part blob hfit, ← h.bytes, ← h.pointer]
    rfl

theorem agrees_skip (h : At memory blob p b) (size : UInt32) :
    Agrees memory blob (skip blob size p) (InputBuffer.skip size.toNat b) := by
  have hle := h.le
  have hcheck : size > blob.length - p ↔ size.toNat > b.blob.length - b.pointer := by
    rw [check_iff hle, h.pointer, h.length]
    omega
  unfold skip InputBuffer.skip
  by_cases hout : size.toNat > b.blob.length - b.pointer
  · rw [if_pos (hcheck.2 hout), if_pos hout]
    exact ⟨rfl, h⟩
  · have hfit : p.toNat + size.toNat ≤ blob.length.toNat := by
      rw [h.pointer, h.length] at hout
      omega
    rw [if_neg (mt hcheck.1 hout), if_neg hout]
    exact ⟨rfl, h.advance hfit⟩

/-- The unrolled steps, on bytes that are there. -/
theorem unchecked_agrees (h : At memory blob p b) (w : VarWidth) {steps value shift i : Nat}
    (hshift : shift + 7 * steps = w.lastShift) (hi : i + steps < b.blob.length) :
    ∃ size, InputBuffer.variableUnsignedUnchecked w shift value (b.blob.drop i)
        = some ((variableUnsignedUnchecked memory blob w steps value i).1, size) ∧
      (variableUnsignedUnchecked memory blob w steps value i).2.1 = i + size := by
  induction steps generalizing value shift i with
  | zero =>
      have hlt : i < b.blob.length := by omega
      obtain rfl : shift = w.lastShift := by omega
      rw [List.drop_eq_getElem_cons hlt, InputBuffer.variableUnsignedUnchecked, if_pos rfl]
      simp only [variableUnsignedUnchecked, byteAt_eq h hlt]
      refine ⟨_, rfl, ?_⟩
      split <;> rfl
  | succ steps ih =>
      have hlt : i < b.blob.length := by omega
      have hstep : shift ≠ w.lastShift := by omega
      have hthis : w.lastShift - 7 * (steps + 1) = shift := by omega
      rw [List.drop_eq_getElem_cons hlt, InputBuffer.variableUnsignedUnchecked, if_neg hstep]
      simp only [variableUnsignedUnchecked, byteAt_eq h hlt, hthis]
      by_cases hmore : b.blob[i] ≥ 0x80
      · have hnext : shift + 7 + 7 * steps = w.lastShift := by omega
        have hroom : i + 1 + steps < b.blob.length := by omega
        obtain ⟨size, hread, hend⟩ := @ih (value ||| ((b.blob[i].toNat &&& 0x7f) <<< shift)) _ _
          hnext hroom
        simp only [if_pos hmore, hread, hend, Option.map_some]
        exact ⟨size + 1, rfl, by omega⟩
      · simp only [if_neg hmore]
        exact ⟨1, rfl, rfl⟩

theorem agrees_genericReadLoop (h : At memory blob p b) (w : VarWidth) (left value shift : Nat) :
    Agrees memory blob (genericReadLoop memory blob w left value shift p)
      (InputBuffer.genericReadLoop w left value shift b) := by
  induction left generalizing value shift p b with
  | zero => exact agrees_eof h 1 [] false
  | succ left ih =>
      rw [genericReadLoop, InputBuffer.genericReadLoop]
      refine (agrees_readUInt8 h).andThen fun byte b' hat => ?_
      dsimp only
      split
      · exact ih hat _ _
      · exact ⟨rfl, hat⟩

theorem agrees_readVariableUnsigned (h : At memory blob p b) (w : VarWidth) :
    Agrees memory blob (readVariableUnsigned memory blob w p)
      (InputBuffer.readVariableUnsigned w b) := by
  unfold readVariableUnsigned InputBuffer.readVariableUnsigned
  rw [h.length, h.pointer]
  by_cases hroom : blob.length.toNat > p.toNat + w.sizeof * 8 / 7
  · have hlength := blob.length.toNat_lt
    have hsteps : w.lastShift / 7 + (if w = .w64 then 1 else 0) ≤ w.sizeof * 8 / 7 := by
      cases w <;> decide
    have hinside : p.toNat + w.lastShift / 7 < b.blob.length := by
      rw [h.length]
      omega
    obtain ⟨size, hread, hend⟩ := @unchecked_agrees _ _ _ _ h w _ 0 0 _
      (InputBuffer.steps_lastShift w) hinside
    obtain ⟨-, hle, -⟩ := unchecked_bounds memory blob w (w.lastShift / 7) 0 p.toNat
    have hsize : (if w = .w64 then 2 else 1) = 1 + (if w = .w64 then 1 else 0) := by
      split <;> rfl
    rw [if_pos hroom, if_pos hroom]
    unfold InputBuffer.remaining
    rw [h.pointer, hread]
    refine ⟨rfl, h.bytes, ?_, h.length⟩
    show min (b.pointer + size) b.blob.length = (UInt32.ofNat _).toNat
    rw [UInt32.toNat_ofNat_of_lt' (show _ < 2 ^ 32 by omega), h.pointer, h.length, hend]
    omega
  · rw [if_neg hroom, if_neg hroom]
    have hleft : b.remaining.length = blob.length.toNat - p.toNat := by
      rw [← h.length, ← h.pointer]
      exact InputBuffer.remaining_length b
    show Agrees memory blob _ (InputBuffer.genericReadLoop w b.remaining.length 0 0 b)
    rw [hleft]
    exact agrees_genericReadLoop h w _ 0 0

end

end BoundedBuffer

end Bond.Cpp

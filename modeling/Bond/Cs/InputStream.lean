import Bond.Lib.Exclusive
import Bond.Lib.System
import Mathlib.Algebra.GroupWithZero.Nat
import Mathlib.Algebra.Group.Int.Defs

set_option autoImplicit false

/-! # The unsafe input stream of C#

`Bond.IO.Unsafe.InputStream` (cs/src/io/unsafe/InputStream.cs) on any `System.IO.Stream`, together
with the arrays it shares with its clones and with the segments it has handed out. Positions and
counts are `int`s and wrap around. The values read are left out. So are the variable-length integers:
to the stream they do what a number of `ReadUInt8` do. -/

namespace Bond.Cs.Unsafe

open Bond.Lib (System)

/-! ## Arithmetic and arrays -/

/-- What an `int` computation makes of its result. -/
def int (n : Int) : Int := (n + 2 ^ 31) % 2 ^ 32 - 2 ^ 31

theorem int_eq_self {n : Int} (h : -2 ^ 31 ≤ n) (h' : n < 2 ^ 31) : int n = n := by
  unfold int
  omega

theorem int_lt (n : Int) : int n < 2 ^ 31 := by
  unfold int
  omega

inductive Exception where
  | endOfStream
  | stream
  | argument
  | indexOutOfRange
deriving DecidableEq

def overwrite (dst : List UInt8) (offset : Nat) (bytes : List UInt8) : List UInt8 :=
  dst.take offset ++ bytes ++ dst.drop (offset + bytes.length)

theorem length_overwrite {dst bytes : List UInt8} {offset : Nat}
    (h : offset + bytes.length ≤ dst.length) : (overwrite dst offset bytes).length = dst.length := by
  simp only [overwrite, List.length_append, List.length_take, List.length_drop]
  omega

/-- `Buffer.BlockCopy`; `none` where it throws. -/
def blockCopy (src : List UInt8) (srcOffset : Int) (dst : List UInt8) (dstOffset count : Int) :
    Option (List UInt8) :=
  if 0 ≤ srcOffset ∧ 0 ≤ dstOffset ∧ 0 ≤ count ∧ srcOffset + count ≤ src.length ∧
      dstOffset + count ≤ dst.length then
    some (overwrite dst dstOffset.toNat ((src.drop srcOffset.toNat).take count.toNat))
  else
    none

/-! ## The stream underneath -/

/-- What an `InputStream` uses of a `System.IO.Stream` in a state of its own. An operation that
    throws returns `none` or `false`. -/
structure Stream (σ : Type) where
  canSeek : σ → Bool
  position : σ → Option Int
  seek : σ → Int → Bool × σ
  read : σ → Nat → Option (List UInt8) × σ
  clone : σ → Option σ
  read_length : ∀ stream count bytes,
    (read stream count).1 = some bytes → bytes.length ≤ count

variable {σ : Type} (S : Stream σ)

namespace Stream

/-- The loop of `AdvanceUnderlyingStream`. Returns also what it leaves in the scratch buffer. -/
def advanceLoop (count : Nat) (scratchBuffer : List UInt8) (stream : σ) :
    Option Exception × List UInt8 × σ :=
  if count = 0 then
    (none, scratchBuffer, stream)
  else
    match S.read stream (min scratchBuffer.length count) with
    | (none, stream) => (some .stream, scratchBuffer, stream)
    | (some [], stream) => (some .endOfStream, scratchBuffer, stream)
    | (some (byte :: bytes), stream) =>
        advanceLoop (count - (bytes.length + 1)) (overwrite scratchBuffer 0 (byte :: bytes)) stream
termination_by count

/-- `AdvanceUnderlyingStream` -/
def advance (count : Int) (scratchBuffer : List UInt8) (stream : σ) :
    Option Exception × List UInt8 × σ :=
  if S.canSeek stream then
    match S.seek stream count with
    | (true, stream) => (none, scratchBuffer, stream)
    | (false, stream) => (some .stream, scratchBuffer, stream)
  else
    S.advanceLoop count.toNat scratchBuffer stream

end Stream

/-! ## Refilling -/

structure InputStream (σ : Type) where
  stream : σ
  bufferLength : Nat
  /-- which of the arrays it is -/
  buffer : Nat
  end_ : Int
  position : Int
  canReuseBuffer : Bool

abbrev Arrays := List (List UInt8)

def array (arrays : Arrays) (i : Nat) : List UInt8 := arrays.getD i []

/-- How the reading into temporary buffers ends: all of them are full and so much remains, one is
    not, or an exception. -/
inductive TempBuffers where
  | read (tempBuffers : List (List UInt8)) (remaining : Int)
  | failed
  | threw (e : Exception)

def numTempBuffers (chunk : Nat) (count : Int) (length : Nat) : Nat :=
  if count > length ∧ count - length > chunk then ((count - length - 1) / chunk).toNat else 0

def readTempBuffers (chunk : Nat) : Nat → Int → σ → TempBuffers × σ
  | 0, remaining, stream => (.read [] remaining, stream)
  | n + 1, remaining, stream =>
      let advanced :=
        if remaining < 0 then S.advance (int (-remaining)) (List.replicate chunk 0) stream
        else (none, List.replicate chunk 0, stream)
      match advanced with
      | (some e, _, stream) => (.threw e, stream)
      | (none, tempBuffer, stream) =>
          match S.read stream chunk with
          | (none, stream) => (.threw .stream, stream)
          | (some bytes, stream) =>
              if bytes.length = chunk then
                match readTempBuffers chunk n (if remaining < 0 then 0 else remaining) stream with
                | (.read tempBuffers remaining, stream) =>
                    (.read (overwrite tempBuffer 0 bytes :: tempBuffers) remaining, stream)
                | other => other
              else
                (.failed, stream)

/-- The buffer that is filled: the old one, or a new one. -/
def selectBuffer (count : Int) (arrays : Arrays) (input : InputStream σ) :
    Arrays × InputStream σ :=
  if !input.canReuseBuffer || count > (array arrays input.buffer).length then
    (arrays ++ [List.replicate (max (input.bufferLength : Int) count).toNat 0],
      { input with buffer := arrays.length, canReuseBuffer := true })
  else
    (arrays, input)

def copyTempBuffers : List (List UInt8) → List UInt8 → Int →
    Option Exception × List UInt8 × Int
  | [], buffer, offset => (none, buffer, offset)
  | tempBuffer :: tempBuffers, buffer, offset =>
      match blockCopy tempBuffer 0 buffer offset tempBuffer.length with
      | none => (some .argument, buffer, offset)
      | some buffer => copyTempBuffers tempBuffers buffer (int (offset + tempBuffer.length))

/-- The temporary buffers, and behind them the final block. -/
def readFinalBlock (tempBuffers : List (List UInt8)) (offset : Int) (buffer : List UInt8)
    (input : InputStream σ) : Option Exception × List UInt8 × InputStream σ :=
  match copyTempBuffers tempBuffers buffer offset with
  | (some e, buffer, _) => (some e, buffer, input)
  | (none, buffer, offset) =>
      -- `Stream.Read` checks its arguments
      if 0 ≤ offset ∧ offset ≤ buffer.length then
        match S.read input.stream (buffer.length - offset.toNat) with
        | (none, stream) => (some .stream, buffer, { input with stream })
        | (some bytes, stream) =>
            (none, overwrite buffer offset.toNat bytes,
              { input with stream, end_ := int (offset + bytes.length), position := 0 })
      else
        (some .argument, buffer, input)

/-- The bytes that remain in the old buffer go to the front of the other. Where fewer than none do,
    as many are passed over in the stream. -/
def fill (old : List UInt8) (tempBuffers : List (List UInt8)) (remaining : Int)
    (buffer : List UInt8) (input : InputStream σ) :
    Option Exception × List UInt8 × InputStream σ :=
  if remaining > 0 then
    match blockCopy old input.position buffer 0 remaining with
    | none => (some .argument, buffer, input)
    | some buffer => readFinalBlock S tempBuffers remaining buffer input
  else if remaining < 0 then
    match S.advance (int (-remaining)) buffer input.stream with
    | (some e, buffer, stream) => (some e, buffer, { input with stream })
    | (none, buffer, stream) => readFinalBlock S tempBuffers 0 buffer { input with stream }
  else
    readFinalBlock S tempBuffers 0 buffer input

def checkEnd (count : Int) (arrays : Arrays) (input : InputStream σ) :
    Option Exception × Arrays × InputStream σ :=
  (if count > input.end_ then some .endOfStream else none, arrays, input)

/-- `EndOfStream` -/
def endOfStream (chunk : Nat) (count : Int) (arrays : Arrays) (input : InputStream σ) :
    Option Exception × Arrays × InputStream σ :=
  let remaining := int (input.end_ - input.position)
  let old := array arrays input.buffer
  match readTempBuffers S chunk (numTempBuffers chunk count old.length) remaining input.stream with
  | (.threw e, stream) => (some e, arrays, { input with stream })
  | (.failed, stream) => checkEnd count arrays { input with stream }
  | (.read tempBuffers remaining, stream) =>
      let selected := selectBuffer count arrays { input with stream }
      match fill S old tempBuffers remaining (array selected.1 selected.2.buffer) selected.2 with
      | (some e, buffer, input) => (some e, selected.1.set input.buffer buffer, input)
      | (none, buffer, input) => checkEnd count (selected.1.set input.buffer buffer) input

/-! ## Nothing but the buffer is written to -/

open Bond.Lib.Exclusive (Updates)

variable {S} {chunk : Nat} {count : Int} {arrays arrays' : Arrays} {input input' : InputStream σ}
variable {thrown : Option Exception}

theorem selectBuffer_updates (count : Int) (arrays : Arrays) (input : InputStream σ) :
    Updates InputStream.buffer InputStream.canReuseBuffer arrays input
      (selectBuffer count arrays input).1 (selectBuffer count arrays input).2 := by
  unfold selectBuffer
  split
  · exact .renew _ rfl
  · exact .refl arrays input

theorem selectBuffer_canReuseBuffer (count : Int) (arrays : Arrays) (input : InputStream σ) :
    (selectBuffer count arrays input).2.canReuseBuffer = true := by
  unfold selectBuffer
  split
  · rfl
  · next h =>
      simp only [Bool.or_eq_true, not_or, Bool.not_eq_true, Bool.not_eq_false'] at h
      exact h.1

theorem readFinalBlock_keeps (tempBuffers : List (List UInt8)) (offset : Int)
    (buffer : List UInt8) (input : InputStream σ) :
    (readFinalBlock S tempBuffers offset buffer input).2.2.buffer = input.buffer := by
  unfold readFinalBlock
  split
  · rfl
  · split
    · split <;> rfl
    · rfl

theorem fill_keeps (old : List UInt8) (tempBuffers : List (List UInt8)) (remaining : Int)
    (buffer : List UInt8) (input : InputStream σ) :
    (fill S old tempBuffers remaining buffer input).2.2.buffer = input.buffer := by
  unfold fill
  split
  · split
    · rfl
    · exact readFinalBlock_keeps _ _ _ _
  · split
    · split
      · rfl
      · exact readFinalBlock_keeps _ _ _ _
    · exact readFinalBlock_keeps _ _ _ _

/-- A refill writes to the buffer of its input stream where it may be reused, and else to a new
    one. -/
theorem endOfStream_updates (chunk : Nat) (count : Int) (arrays : Arrays)
    (input : InputStream σ) :
    Updates InputStream.buffer InputStream.canReuseBuffer arrays input
      (endOfStream S chunk count arrays input).2.1
      (endOfStream S chunk count arrays input).2.2 := by
  unfold endOfStream
  simp only []
  split
  · exact .of_cell_eq rfl id
  · exact .of_cell_eq rfl id
  · next tempBuffers remaining stream _ =>
      have hselect := selectBuffer_updates count arrays { input with stream }
      have hreuse := selectBuffer_canReuseBuffer count arrays { input with stream }
      generalize selectBuffer count arrays { input with stream } = selected at hselect hreuse
      have hstream : Updates InputStream.buffer InputStream.canReuseBuffer arrays input arrays
          { input with stream } := .of_cell_eq rfl id
      have hkeeps := fill_keeps (S := S) (array arrays input.buffer) tempBuffers remaining
        (array selected.1 selected.2.buffer) selected.2
      generalize fill S _ tempBuffers remaining _ selected.2 = filled at hkeeps
      have hwrite : Updates InputStream.buffer InputStream.canReuseBuffer arrays input
          (selected.1.set filled.2.2.buffer filled.2.1) filled.2.2 := by
        rw [hkeeps]
        exact (hstream.trans hselect).trans (.write hreuse _ hkeeps)
      split <;> exact hwrite

/-! ## The arithmetic of a refill

Positions in front of the buffer apart, the indices are in the arrays as long as the bytes that an
input stream takes to be unread are in its buffer. -/

namespace Stream

theorem advanceLoop_spec (count : Nat) (scratchBuffer : List UInt8) (stream : σ) :
    (S.advanceLoop count scratchBuffer stream).1 ≠ some .argument ∧
      (S.advanceLoop count scratchBuffer stream).2.1.length = scratchBuffer.length := by
  induction count, scratchBuffer, stream using advanceLoop.induct S with
  | case1 scratchBuffer stream =>
      rw [advanceLoop, if_pos rfl]
      exact ⟨by simp, rfl⟩
  | case2 count scratchBuffer stream hcount stream' hread =>
      rw [advanceLoop, if_neg hcount, hread]
      exact ⟨by simp, rfl⟩
  | case3 count scratchBuffer stream hcount stream' hread =>
      rw [advanceLoop, if_neg hcount, hread]
      exact ⟨by simp, rfl⟩
  | case4 count scratchBuffer stream hcount byte bytes stream' hread ih =>
      have hlength := S.read_length stream _ (byte :: bytes) (by rw [hread])
      rw [advanceLoop, if_neg hcount, hread]
      refine ⟨ih.1, ih.2.trans (length_overwrite ?_)⟩
      omega

theorem advance_spec (count : Int) (scratchBuffer : List UInt8) (stream : σ) :
    (S.advance count scratchBuffer stream).1 ≠ some .argument ∧
      (S.advance count scratchBuffer stream).2.1.length = scratchBuffer.length := by
  unfold advance
  split
  · split <;> exact ⟨by simp, rfl⟩
  · exact advanceLoop_spec _ _ _

end Stream

/-- What the bytes of all of them come to. -/
def total (tempBuffers : List (List UInt8)) : Nat :=
  (tempBuffers.map List.length).sum

/-- What is known of `n` of them where so much remained. -/
def TempBuffers.Fits (chunk n : Nat) (remaining : Int) : TempBuffers → Prop
  | .read tempBuffers remaining' =>
      total tempBuffers = n * chunk ∧ max remaining' 0 = max remaining 0
  | .failed => 0 < n
  | .threw e => e ≠ .argument

theorem readTempBuffers_fits (chunk n : Nat) (remaining : Int) (stream : σ) :
    (readTempBuffers S chunk n remaining stream).1.Fits chunk n remaining := by
  induction n generalizing remaining stream with
  | zero => simp [readTempBuffers, TempBuffers.Fits, total]
  | succ n ih =>
      have hadvanced : ∀ advanced, (if remaining < 0 then
            S.advance (int (-remaining)) (List.replicate chunk 0) stream
          else (none, List.replicate chunk 0, stream)) = advanced →
          advanced.1 ≠ some .argument ∧ advanced.2.1.length = chunk := by
        rintro _ rfl
        split
        · have := S.advance_spec (int (-remaining)) (List.replicate chunk 0) stream
          rwa [List.length_replicate] at this
        · exact ⟨by simp, List.length_replicate⟩
      rw [readTempBuffers]
      split
      · next e _ _ hthrew =>
          have := (hadvanced _ hthrew).1
          simpa [TempBuffers.Fits] using this
      · next tempBuffer stream' hnone =>
          have hlength : tempBuffer.length = chunk := (hadvanced _ hnone).2
          split
          · simp [TempBuffers.Fits]
          · next bytes stream'' _ =>
              split
              · next hfull =>
                  have ih := ih (if remaining < 0 then 0 else remaining) stream''
                  generalize readTempBuffers S chunk n _ stream'' = rest at ih ⊢
                  obtain ⟨rest, stream'''⟩ := rest
                  cases rest with
                  | read tempBuffers remaining' =>
                      have hoverwrite : (overwrite tempBuffer 0 bytes).length = chunk :=
                        (length_overwrite (by omega)).trans hlength
                      obtain ⟨htotal, hmax⟩ := ih
                      refine ⟨?_, ?_⟩
                      · simp only [total, List.map_cons, List.sum_cons, hoverwrite] at htotal ⊢
                        rw [htotal, Nat.succ_mul, Nat.add_comm]
                      · rw [hmax]
                        split <;> omega
                  | failed => exact Nat.succ_pos n
                  | threw e => exact ih
              · exact Nat.succ_pos n

theorem exists_blockCopy (src dst : List UInt8) {srcOffset dstOffset count : Int}
    (hsrc : 0 ≤ srcOffset) (hdst : 0 ≤ dstOffset) (hcount : 0 ≤ count)
    (hsrc' : srcOffset + count ≤ src.length) (hdst' : dstOffset + count ≤ dst.length) :
    ∃ dst', blockCopy src srcOffset dst dstOffset count = some dst' ∧ dst'.length = dst.length := by
  refine ⟨_, if_pos ⟨hsrc, hdst, hcount, hsrc', hdst'⟩, length_overwrite ?_⟩
  simp only [List.length_take, List.length_drop]
  omega

theorem copyTempBuffers_spec {tempBuffers : List (List UInt8)} {buffer : List UInt8} {offset : Int}
    (hoffset : 0 ≤ offset) (hfits : offset + total tempBuffers ≤ buffer.length)
    (hlt : buffer.length < 2 ^ 31) :
    ∃ buffer', copyTempBuffers tempBuffers buffer offset
        = (none, buffer', offset + total tempBuffers) ∧ buffer'.length = buffer.length := by
  induction tempBuffers generalizing buffer offset with
  | nil => exact ⟨buffer, by simp [copyTempBuffers, total], rfl⟩
  | cons tempBuffer tempBuffers ih =>
      have htotal : total (tempBuffer :: tempBuffers) = tempBuffer.length + total tempBuffers := by
        simp [total]
      rw [htotal] at hfits ⊢
      push_cast at hfits ⊢
      obtain ⟨buffer', hcopy, hlength⟩ := exists_blockCopy tempBuffer buffer
        (Int.le_refl 0) hoffset (Int.natCast_nonneg tempBuffer.length) (by omega) (by omega)
      have hint : int (offset + tempBuffer.length) = offset + tempBuffer.length :=
        int_eq_self (by omega) (by omega)
      obtain ⟨buffer'', hrest, hlength'⟩ := @ih buffer'
        (offset + tempBuffer.length) (by omega) (by omega) (by omega)
      refine ⟨buffer'', ?_, hlength'.trans hlength⟩
      rw [copyTempBuffers, hcopy]
      simp only [hint, hrest, Int.add_assoc]

structure InputStream.Ranged (input : InputStream σ) : Prop where
  position_nonneg : 0 ≤ input.position
  position_lt : input.position < 2 ^ 31
  end_nonneg : 0 ≤ input.end_
  end_lt : input.end_ < 2 ^ 31
  bufferLength_lt : input.bufferLength < 2 ^ 31

/-- A buffer of a length is filled, with the indices in the arrays. -/
structure Filled (length : Nat) (filled : Option Exception × List UInt8 × InputStream σ) :
    Prop where
  thrown_ne : filled.1 ≠ some .argument
  length_eq : filled.2.1.length = length
  ranged : filled.2.2.Ranged
  position_eq : filled.1 = none → filled.2.2.position = 0

section
variable {tempBuffers : List (List UInt8)} {buffer old : List UInt8} {remaining offset : Int}

theorem filled_readFinalBlock (hinput : input.Ranged) (hoffset : 0 ≤ offset)
    (hfits : offset + total tempBuffers ≤ buffer.length) (hlt : buffer.length < 2 ^ 31) :
    Filled buffer.length (readFinalBlock S tempBuffers offset buffer input) := by
  obtain ⟨buffer', hcopy, hlength⟩ := copyTempBuffers_spec hoffset hfits hlt
  rw [readFinalBlock, hcopy]
  simp only []
  rw [if_pos ⟨by omega, by omega⟩]
  split
  · exact ⟨by simp, hlength, ⟨hinput.1, hinput.2, hinput.3, hinput.4, hinput.5⟩, by simp⟩
  · next bytes stream hread =>
      have hbytes := S.read_length _ _ bytes (by rw [hread])
      have hend : int (offset + total tempBuffers + bytes.length)
          = offset + total tempBuffers + bytes.length := int_eq_self (by omega) (by omega)
      refine ⟨by simp, ?_, ⟨Int.le_refl 0, by simp, ?_, ?_, hinput.5⟩, fun _ => rfl⟩
      · rw [length_overwrite (by omega), hlength]
      · simp only [hend]
        omega
      · simp only [hend]
        omega

theorem filled_fill (hinput : input.Ranged)
    (htail : 0 < remaining → input.position + remaining ≤ old.length)
    (hfits : max remaining 0 + total tempBuffers ≤ buffer.length)
    (hlt : buffer.length < 2 ^ 31) :
    Filled buffer.length (fill S old tempBuffers remaining buffer input) := by
  have hposition := hinput.position_nonneg
  unfold fill
  split
  · next hpos =>
      obtain ⟨buffer', hcopy, hlength⟩ := exists_blockCopy old buffer
        hposition (Int.le_refl 0) (Int.le_of_lt hpos) (htail hpos) (by omega)
      rw [hcopy, ← hlength]
      exact filled_readFinalBlock hinput (by omega) (by omega) (by omega)
  · split
    · have hadvance := S.advance_spec (int (-remaining)) buffer input.stream
      split
      · next hthrew =>
          rw [hthrew] at hadvance
          exact ⟨hadvance.1, hadvance.2, ⟨hinput.1, hinput.2, hinput.3, hinput.4, hinput.5⟩,
            by simp⟩
      · next buffer' stream hnone =>
          have hlength : buffer'.length = buffer.length := by
            rw [hnone] at hadvance
            exact hadvance.2
          rw [← hlength]
          exact filled_readFinalBlock ⟨hinput.1, hinput.2, hinput.3, hinput.4, hinput.5⟩
            (Int.le_refl 0) (by omega) (by omega)
    · exact filled_readFinalBlock hinput (Int.le_refl 0) (by omega) hlt

end

/-- All of them have the length of an `int`. -/
def Sized (arrays : Arrays) : Prop :=
  ∀ a ∈ arrays, a.length < 2 ^ 31

theorem Sized.array_lt (h : Sized arrays) (i : Nat) : (array arrays i).length < 2 ^ 31 := by
  unfold array
  rw [List.getD_eq_getElem?_getD]
  rcases hi : arrays[i]? with _ | a
  · simp
  · exact h a (List.mem_of_getElem? hi)

theorem Sized.set (h : Sized arrays) {buffer : List UInt8} (hlt : buffer.length < 2 ^ 31)
    (i : Nat) : Sized (arrays.set i buffer) := by
  intro a ha
  rcases List.mem_or_eq_of_mem_set ha with hold | rfl
  · exact h a hold
  · exact hlt

theorem Sized.append (h : Sized arrays) {n : Nat} (hlt : n < 2 ^ 31) :
    Sized (arrays ++ [List.replicate n 0]) := by
  intro a ha
  rcases List.mem_append.1 ha with hold | hnew
  · exact h a hold
  · rw [List.mem_singleton.1 hnew, List.length_replicate]
    exact hlt

theorem array_append (arrays : Arrays) (a : List UInt8) : array (arrays ++ [a]) arrays.length = a := by
  simp [array]

theorem length_selectBuffer (count : Int) (arrays : Arrays) (input : InputStream σ) :
    (array (selectBuffer count arrays input).1 (selectBuffer count arrays input).2.buffer).length
      = if input.canReuseBuffer ∧ count ≤ (array arrays input.buffer).length then
          (array arrays input.buffer).length
        else (max (input.bufferLength : Int) count).toNat := by
  unfold selectBuffer
  split
  · next h =>
      rw [if_neg, array_append, List.length_replicate]
      rintro ⟨hreuse, hle⟩
      simp only [hreuse, Bool.not_true, Bool.false_or, decide_eq_true_eq] at h
      omega
  · next h =>
      rw [if_pos]
      simp only [Bool.or_eq_true, not_or, Bool.not_eq_true, Bool.not_eq_false',
        decide_eq_true_eq] at h
      exact ⟨h.1, by omega⟩

theorem selectBuffer_sized (hinput : input.Ranged) (hsized : Sized arrays)
    (hcount : count < 2 ^ 31) : Sized (selectBuffer count arrays input).1 := by
  have := hinput.bufferLength_lt
  unfold selectBuffer
  split
  · exact hsized.append (by omega)
  · exact hsized

theorem selectBuffer_ranged (hinput : input.Ranged) (count : Int) (arrays : Arrays) :
    (selectBuffer count arrays input).2.Ranged := by
  unfold selectBuffer
  split
  · exact ⟨hinput.1, hinput.2, hinput.3, hinput.4, hinput.5⟩
  · exact hinput

theorem selectBuffer_position (count : Int) (arrays : Arrays) (input : InputStream σ) :
    (selectBuffer count arrays input).2.position = input.position := by
  unfold selectBuffer
  split <;> rfl

theorem numTempBuffers_cases (hchunk : 0 < chunk) (count : Int) (length : Nat) :
    (numTempBuffers chunk count length = 0 ∧ numTempBuffers chunk count length * chunk = 0) ∨
      (length + chunk < count ∧
        ((numTempBuffers chunk count length * chunk : Nat) : Int) ≤ count - length - 1) := by
  unfold numTempBuffers
  split
  · next h =>
      right
      refine ⟨by omega, ?_⟩
      have hnonneg : (0 : Int) ≤ (count - length - 1) / chunk :=
        Int.ediv_nonneg (by omega) (Int.natCast_nonneg chunk)
      rw [Int.natCast_mul, Int.toNat_of_nonneg hnonneg]
      exact Int.ediv_mul_le _ (by omega)
  · exact .inl ⟨rfl, Nat.zero_mul chunk⟩

/-- A refill that ended, with the indices in the arrays. If it did not throw, there are `count` bytes
    from the front of the buffer, except where a temporary buffer could not be filled. -/
structure Refilled (chunk : Nat) (count : Int)
    (refilled : Option Exception × Arrays × InputStream σ) : Prop where
  thrown_ne : refilled.1 ≠ some .argument
  sized : Sized refilled.2.1
  ranged : refilled.2.2.Ranged
  count_le : refilled.1 = none → count ≤ refilled.2.2.end_
  position_eq : refilled.1 = none → refilled.2.2.position = 0 ∨
    (array refilled.2.1 refilled.2.2.buffer).length + chunk < count

theorem refilled_endOfStream (hchunk : 0 < chunk) (hinput : input.Ranged) (hsized : Sized arrays)
    (hcount : count < 2 ^ 31) (hpast : input.end_ - input.position < count)
    (hwindow : input.end_ ≤ (array arrays input.buffer).length ∨ input.end_ ≤ input.position) :
    Refilled chunk count (endOfStream S chunk count arrays input) := by
  obtain ⟨hpos, hpos', hend, hend', hlength⟩ := hinput
  have hremaining : int (input.end_ - input.position) = input.end_ - input.position :=
    int_eq_self (by omega) (by omega)
  have hnum := numTempBuffers_cases hchunk count (array arrays input.buffer).length
  have htemp := readTempBuffers_fits (S := S) chunk
    (numTempBuffers chunk count (array arrays input.buffer).length)
    (input.end_ - input.position) input.stream
  unfold endOfStream
  simp only [hremaining]
  generalize readTempBuffers S chunk _ _ _ = temp at htemp ⊢
  obtain ⟨temp, stream⟩ := temp
  have hranged : ({ input with stream } : InputStream σ).Ranged := ⟨hpos, hpos', hend, hend', hlength⟩
  cases temp with
  | threw e =>
      exact ⟨by simpa [TempBuffers.Fits] using htemp, hsized, hranged, by simp, by simp⟩
  | failed =>
      -- one temporary buffer at least: more was asked for than the buffer holds
      have hlarge : (array arrays input.buffer).length + chunk < count := by
        rcases hnum with ⟨hzero, _⟩ | ⟨hlarge, _⟩
        · rw [TempBuffers.Fits, hzero] at htemp
          contradiction
        · exact hlarge
      refine ⟨?_, hsized, hranged, ?_, fun _ => .inr hlarge⟩
      · simp only [checkEnd]
        split <;> simp
      · simp [checkEnd]
  | read tempBuffers remaining =>
      obtain ⟨htotal, hmax⟩ := htemp
      have hselected := length_selectBuffer count arrays { input with stream }
      have hsized' := selectBuffer_sized hranged hsized hcount
      have hranged' := selectBuffer_ranged hranged count arrays
      have hposition := selectBuffer_position count arrays { input with stream }
      simp only []
      generalize selectBuffer count arrays { input with stream } = selected at *
      dsimp only at hselected hposition
      have hfits : max remaining 0 + total tempBuffers
          ≤ (array selected.1 selected.2.buffer).length := by
        rw [hselected, htotal]
        split <;> omega
      have hfilled : Filled _ (fill S (array arrays input.buffer) _ _ _ _) := filled_fill hranged'
        (by rw [hposition]; omega) hfits (hsized'.array_lt _)
      generalize fill S _ tempBuffers remaining _ selected.2 = filled at hfilled ⊢
      obtain ⟨thrown, buffer, input'⟩ := filled
      have hset : Sized (selected.1.set input'.buffer buffer) :=
        hsized'.set (hfilled.length_eq ▸ hsized'.array_lt _) _
      cases thrown with
      | some e => exact ⟨hfilled.thrown_ne, hset, hfilled.ranged, by simp, by simp⟩
      | none =>
          refine ⟨?_, hset, hfilled.ranged, ?_, fun _ => .inl (hfilled.position_eq rfl)⟩
          · simp only [checkEnd]
            split <;> simp
          · simp [checkEnd]

end Bond.Cs.Unsafe

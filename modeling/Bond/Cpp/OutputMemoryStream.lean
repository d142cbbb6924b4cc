import Bond.Cpp.OutputBuffer

set_option autoImplicit false

/-! # The memory output stream

`OutputMemoryStream` (cpp/inc/bond/stream/output_buffer.h): a current range of a current buffer, and a
list of blobs in front of it. A blob is a range of a buffer, the current one too, or it was handed in
as it is. What is in the blobs and in the current range is what was written.

`size_t` is wide enough for sums of sizes; sizes themselves are `uint32_t`. -/

namespace Bond.Cpp

open Varint

/-! ## Memory -/

/-- `memcpy` into a buffer -/
def splice (buffer : List UInt8) (position : Nat) (bytes : List UInt8) : List UInt8 :=
  buffer.take position ++ bytes ++ buffer.drop (position + bytes.length)

/-- The bytes of a range of a buffer. -/
def slice (buffer : List UInt8) (offset length : Nat) : List UInt8 :=
  (buffer.drop offset).take length

theorem splice_length {buffer : List UInt8} {position : Nat} {bytes : List UInt8}
    (h : position + bytes.length ≤ buffer.length) :
    (splice buffer position bytes).length = buffer.length := by
  simp only [splice, List.length_append, List.length_take, List.length_drop]
  omega

/-- What is in front of the copied bytes stays as it is. -/
theorem slice_splice_before {buffer : List UInt8} {position offset length : Nat}
    {bytes : List UInt8} (h : offset + length ≤ position) (hle : position ≤ buffer.length) :
    slice (splice buffer position bytes) offset length = slice buffer offset length := by
  have hlen : (buffer.take position).length = position := by
    rw [List.length_take]
    omega
  unfold slice splice
  rw [List.append_assoc, List.drop_append_of_le_length (by omega),
    List.take_append_of_le_length (by rw [List.length_drop]; omega), List.drop_take,
    List.take_take, Nat.min_eq_left (by omega)]

/-- A range that ends where bytes are copied to is extended by them. -/
theorem slice_splice {buffer : List UInt8} {offset length : Nat} {bytes : List UInt8}
    (hle : offset + length ≤ buffer.length) :
    slice (splice buffer (offset + length) bytes) offset (length + bytes.length)
      = slice buffer offset length ++ bytes := by
  have hlen : (buffer.take (offset + length)).length = offset + length := by
    rw [List.length_take]
    omega
  unfold slice splice
  rw [List.append_assoc, List.drop_append_of_le_length (by omega), List.drop_take,
    Nat.add_sub_cancel_left, ← List.append_assoc]
  have hfront : ((buffer.drop offset).take length ++ bytes).length = length + bytes.length := by
    rw [List.length_append, List.length_take, List.length_drop]
    omega
  rw [← hfront, List.take_left]

/-- A blob: a range of one of the buffers of a stream, or the bytes that the caller has. -/
inductive Blob where
  | range (buffer offset length : Nat)
  | bytes (content : List UInt8)
deriving DecidableEq, Repr

def Blob.content (memory : List (List UInt8)) : Blob → List UInt8
  | .range buffer offset length => slice ((memory[buffer]?).getD []) offset length
  | .bytes content => content

/-! ## The stream -/

/-- What ends an operation without a result. -/
inductive StreamFailure where
  /-- `std::bad_alloc` -/
  | badAlloc
  /-- `std::overflow_error` of `checked_add` -/
  | overflowError
  /-- not an exception: a copy out of the bounds of a buffer -/
  | outOfBounds
deriving DecidableEq, Repr

structure OutputMemoryStream where
  /-- the buffers that were allocated or handed in -/
  memory : List (List UInt8)
  /-- `_buffer`, by its place in `memory` -/
  buffer : Nat
  bufferSize : UInt32
  rangeSize : UInt32
  rangeOffset : UInt32
  minChainningSize : UInt32
  maxChainLength : UInt32
  /-- `_rangePtr`, relative to the buffer -/
  rangePtr : Nat
  blobs : List Blob
deriving DecidableEq, Repr

namespace OutputMemoryStream

/-- A stream over the first buffer: one that is handed in, one that is allocated, or none, which is an
    empty one. -/
def new (buffer : List UInt8) (minChainningSize maxChainLength : UInt32) : OutputMemoryStream where
  memory := [buffer]
  buffer := 0
  bufferSize := UInt32.ofNat buffer.length
  rangeSize := 0
  rangeOffset := 0
  minChainningSize := minChainningSize
  maxChainLength := maxChainLength
  rangePtr := 0
  blobs := []

/-! ### Writing -/

section

variable (s : OutputMemoryStream)

/-- `memcpy` to a place in the current buffer -/
def memcpy (position : Nat) (bytes : List UInt8) : Except StreamFailure OutputMemoryStream :=
  match s.memory[s.buffer]? with
  | none => .error .outOfBounds
  | some buffer =>
      if position + bytes.length ≤ buffer.length then
        .ok { s with memory := s.memory.set s.buffer (splice buffer position bytes) }
      else
        .error .outOfBounds

/-- Copy to the tail of the current range, and extend it. -/
def append (bytes : List UInt8) : Except StreamFailure OutputMemoryStream := do
  let s ← s.memcpy (s.rangePtr + s.rangeSize.toNat) bytes
  return { s with rangeSize := s.rangeSize + UInt32.ofNat bytes.length }

/-- Snap the current range to the list of blobs, if it is not empty. -/
def snap : OutputMemoryStream :=
  if s.rangeSize > 0 then
    { s with blobs := s.blobs ++ [.range s.buffer s.rangeOffset.toNat s.rangeSize.toNat] }
  else s

/-- The size of the next buffer. -/
def grownSize (size : UInt32) : UInt32 :=
  max (s.bufferSize + (if s.bufferSize ≠ 0 then s.bufferSize / 2 else 4096)) size

/-- `allocate_shared_noinit`: nothing is known of the bytes of a buffer that is new. -/
def allocate (noinit : Nat → Nat → UInt8) (size : UInt32) : OutputMemoryStream :=
  { s with
    memory := s.memory ++ [(List.range size.toNat).map (noinit s.memory.length)]
    buffer := s.memory.length
    bufferSize := size
    rangeOffset := 0
    rangePtr := 0 }

end

section

variable (noinit : Nat → Nat → UInt8) (s : OutputMemoryStream)

/-- `Write(const void*, uint32_t)` -/
def writeBytes (value : List UInt8) : Except StreamFailure OutputMemoryStream := do
  let size := UInt32.ofNat value.length
  let left := s.bufferSize - s.rangeSize - s.rangeOffset
  let sizePart := if left > size then size else left
  let s ← s.append (value.take sizePart.toNat)
  if size ≠ sizePart then
    let size := size - sizePart
    let value := value.drop sizePart.toNat
    let s := s.snap
    -- cap buffer to prevent overflow
    if s.bufferSize > (0xFFFFFFFF : UInt32) >>> 1 then
      throw StreamFailure.badAlloc
    let s := s.allocate noinit (s.grownSize size)
    let s := { s with rangeSize := size }
    s.memcpy s.rangePtr value
  else
    return s

/-- `Write(const T&)`, of the `sizeof(T)` bytes of a value -/
def writeValue (value : List UInt8) : Except StreamFailure OutputMemoryStream :=
  if value.length + s.rangeSize.toNat + s.rangeOffset.toNat ≤ s.bufferSize.toNat then
    s.append value
  else
    s.writeBytes noinit value

/-- `Write(const blob&)` -/
def writeBlob (buffer : List UInt8) : Except StreamFailure OutputMemoryStream :=
  if UInt32.ofNat buffer.length < s.minChainningSize ∨ s.blobs.length ≥ s.maxChainLength.toNat then
    s.writeBytes noinit buffer
  else
    let s :=
      if s.rangeSize > 0 then
        { s.snap with
          rangeOffset := s.rangeOffset + s.rangeSize
          rangePtr := s.rangePtr + s.rangeSize.toNat
          rangeSize := 0 }
      else s
    .ok { s with blobs := s.blobs ++ [.bytes buffer] }

/-- `WriteVariableUnsigned`, and `GenericWriteVariableUnsigned` -/
def writeVariableUnsigned (w : VarWidth) (value : Nat) (s : OutputMemoryStream) :
    Except StreamFailure OutputMemoryStream :=
  if w.sizeof * 8 / 7 + s.rangeSize.toNat + s.rangeOffset.toNat < s.bufferSize.toNat then
    s.append (OutputBuffer.variableUnsignedUnchecked w (w.lastByte - 1) value)
  else if value >>> 7 ≠ 0 then do
    let s ← s.writeValue noinit [UInt8.ofNat (value ||| 0x80)]
    writeVariableUnsigned w (value >>> 7) s
  else
    s.writeValue noinit [UInt8.ofNat value]
termination_by value
decreasing_by
  rename_i h
  rw [Nat.shiftRight_eq_div_pow] at h ⊢
  omega

end

/-! ### What was written -/

/-- The current range -/
def range (s : OutputMemoryStream) : Blob :=
  .range s.buffer s.rangeOffset.toNat s.rangeSize.toNat

/-- `GetBuffers` -/
def getBuffers (s : OutputMemoryStream) : List Blob :=
  if s.rangeSize > 0 then s.blobs ++ [s.range] else s.blobs

/-- The contents of some blobs of a stream, one after the other. -/
def contents (s : OutputMemoryStream) (blobs : List Blob) : List UInt8 :=
  blobs.flatMap (Blob.content s.memory)

/-- `checked_add` -/
def checkedAdd (lhs rhs : Nat) : Except StreamFailure Nat :=
  if 2 ^ 32 - 1 - lhs < rhs then .error .overflowError else .ok (lhs + rhs)

/-- `merge` of two blobs -/
def merge (x y : List UInt8) : Except StreamFailure (List UInt8) := do
  if x.isEmpty ∨ y.isEmpty then
    return if x.isEmpty then y else x
  else
    let _ ← checkedAdd x.length y.length
    return x ++ y

/-- `merge` of a sequence of blobs -/
def mergeAll (blobs : List (List UInt8)) : Except StreamFailure (List UInt8) := do
  let length ← (blobs.map List.length).foldlM checkedAdd 0
  if length = 0 then
    return []
  else if length = (blobs.headD []).length then
    return blobs.headD []
  else
    return blobs.flatten

/-- An operation that writes. -/
inductive Write where
  | value (data : List UInt8)
  | bytes (data : List UInt8)
  | blob (data : List UInt8)
  | variableUnsigned (value : VarUnsigned)
deriving DecidableEq, Repr

namespace Write

/-- The bytes that are to be written. -/
def written : Write → List UInt8
  | .value data | .bytes data | .blob data => data
  | .variableUnsigned v => varint v.toNat

/-- A size is a `uint32_t`. -/
def Sized (w : Write) : Prop :=
  w.written.length < 2 ^ 32

instance (w : Write) : Decidable w.Sized :=
  inferInstanceAs (Decidable (_ < _))

def apply (noinit : Nat → Nat → UInt8) (s : OutputMemoryStream) :
    Write → Except StreamFailure OutputMemoryStream
  | .value data => s.writeValue noinit data
  | .bytes data => s.writeBytes noinit data
  | .blob data => s.writeBlob noinit data
  | .variableUnsigned v => s.writeVariableUnsigned noinit v.width v.toNat

end Write

/-- A sequence of operations, up to the first one that throws. -/
def run (noinit : Nat → Nat → UInt8) (s : OutputMemoryStream) (writes : List Write) :
    Except StreamFailure OutputMemoryStream :=
  writes.foldlM (Write.apply noinit) s

end OutputMemoryStream

end Bond.Cpp

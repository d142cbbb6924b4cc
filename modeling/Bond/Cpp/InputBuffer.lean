import Bond.Lib.Decoder
import Bond.Lib.Varint

set_option autoImplicit false

/-! # The memory input stream

`bond::InputBuffer` (cpp/inc/bond/stream/input_buffer.h): a blob and the position of the next byte.
Reads past the end throw, a skip past the end does nothing. A reader that throws hands on the
buffer as it was at that moment, because a destructor may go on reading from it. -/

namespace Bond.Cpp

open Decoder Varint

/-! ## Exceptions -/

/-- What the readers of cpp/inc/bond throw. -/
inductive BondException where
  /-- `StreamException` of `InputBuffer::EofException` -/
  | eof (size pointer length : Nat)
  /-- `std::overflow_error` of `checked_multiply` -/
  | overflowError
  /-- `CoreException` of `RequiredFieldValiadator::MissingFieldException` -/
  | missingField (id : UInt16) (name : String)
  /-- `CoreException` of `To::UnexpectedStructStopException` -/
  | unexpectedStructStop (name : String)
  /-- `CoreException` of `UnknownProtocolException` -/
  | unknownProtocol
  /-- not an exception: the program has no defined behaviour from here on -/
  | undefinedBehavior
deriving DecidableEq, Repr

def BondException.what : BondException → String
  | .eof size pointer length =>
      "Read out of bounds: " ++ toString size ++ " bytes requested, offset: " ++ toString pointer
        ++ ", length: " ++ toString length
  | .overflowError => "Overflow on multiplication"
  | .missingField id name =>
      "De-serialization failed: required field " ++ toString id ++ " is missing from " ++ name
  | .unexpectedStructStop name =>
      "De-serialization failed: unexpected struct stop encountered for " ++ name
  | .unknownProtocol => "Unmarshaling failed: unsupported protocol"
  | .undefinedBehavior => ""

/-! ## The buffer -/

/-- The length of a blob is a `uint32_t`, and the position never leaves the blob. -/
structure InputBuffer where
  blob : List UInt8
  pointer : Nat
  length_lt : blob.length < 2 ^ 32
  pointer_le : pointer ≤ blob.length

namespace InputBuffer

def remaining (b : InputBuffer) : List UInt8 :=
  b.blob.drop b.pointer

/-- `_pointer += size`, for a `size` that is known to be in range. -/
def advance (b : InputBuffer) (size : Nat) : InputBuffer :=
  { b with pointer := min (b.pointer + size) b.blob.length, pointer_le := Nat.min_le_right _ _ }

/-- `InputBuffer(blob)` -/
def ofBlob (blob : List UInt8) (h : blob.length < 2 ^ 32) : InputBuffer :=
  ⟨blob, 0, h, Nat.zero_le _⟩

instance : Cursor InputBuffer UInt8 where
  remaining := remaining
  advance := advance
  advance_zero b := by
    have hb := b.pointer_le
    simp [advance, hb]
  advance_advance b k l := by
    simp only [advance, InputBuffer.mk.injEq, true_and]
    omega
  remaining_advance b k := by
    simp only [remaining, advance, List.drop_drop]
    by_cases hk : b.pointer + k ≤ b.blob.length
    · rw [Nat.min_eq_left hk]
    · rw [List.drop_of_length_le (by omega), List.drop_of_length_le (by omega)]

theorem remaining_length (b : InputBuffer) :
    (Decoder.remaining b).length = b.blob.length - b.pointer :=
  List.length_drop

/-- What a buffer still holds is shorter than `2 ^ 32` bytes. -/
theorem remaining_length_lt (b : InputBuffer) : (Decoder.remaining b).length < 2 ^ 32 := by
  have hlt := b.length_lt
  rw [remaining_length]
  omega

end InputBuffer

/-- A program that reads from a buffer; a thrown exception comes with the buffer it leaves. -/
abbrev Reader := StateT InputBuffer (Except (BondException × InputBuffer))

namespace InputBuffer

/-- Throw, leaving the buffer where it is. -/
def bondThrow {α : Type} (e : BondException) : Reader α :=
  fun b => .error (e, b)

/-- `EofException` -/
def eofException {α : Type} (size : Nat) : Reader α :=
  fun b => bondThrow (.eof size b.pointer b.blob.length) b

/-- `Read(uint8_t&)` -/
def readUInt8 : Reader UInt8 := fun b =>
  if h : b.pointer = b.blob.length then
    eofException 1 b
  else
    have hlt : b.pointer < b.blob.length := lt_of_le_of_ne b.pointer_le h
    .ok (b.blob[b.pointer], b.advance 1)

/-- `Read(void*, uint32_t)`, and `Read(T&)` for the `size` bytes of a `T` -/
def readBytes (size : Nat) : Reader (List UInt8) := fun b =>
  if size > b.blob.length - b.pointer then
    eofException size b
  else
    .ok (b.remaining.take size, b.advance size)

/-- `Read(T&)` for an unsigned integer of `size` bytes -/
def readUnsigned (size : Nat) : Reader Nat :=
  ofLittleEndian <$> readBytes size

/-- `Skip`: a size beyond the end is silently ignored. -/
def skip (size : Nat) : Reader Unit := fun b =>
  if size > b.blob.length - b.pointer then
    .ok ((), b)
  else
    .ok ((), b.advance size)

/-- The bytes that are left bound every loop and every nesting that reads. -/
def remainingLength : Reader Nat := fun b => .ok (b.remaining.length, b)

/-- `detail::checked_multiply` at `uint32_t` -/
def checkedMultiply (lhs rhs : Nat) : Reader Nat :=
  if lhs * rhs > 2 ^ 32 - 1 then bondThrow .overflowError else pure (lhs * rhs)

/-! ### What the reads do on their encodings -/

theorem decodes_readUInt8 (v : UInt8) : Decodes readUInt8 [v] (pure v) := by
  intro b rest hb
  have hlt : b.pointer < b.blob.length := by
    have hlen := congrArg List.length hb
    rw [remaining_length] at hlen
    simp only [List.length_append, List.length_singleton] at hlen
    omega
  have hv : b.blob[b.pointer] = v := by
    have hget : (b.blob.drop b.pointer)[0]? = some v := by
      rw [show b.blob.drop b.pointer = [v] ++ rest from hb]
      rfl
    rw [List.getElem?_drop, Nat.add_zero, List.getElem?_eq_getElem hlt] at hget
    exact Option.some.inj hget
  simp only [StateT.run, readUInt8, dif_neg (Nat.ne_of_lt hlt), hv]
  rfl

theorem decodes_readBytes (bs : List UInt8) : Decodes (readBytes bs.length) bs (pure bs) := by
  intro b rest hb
  have hle : ¬ bs.length > b.blob.length - b.pointer := by
    rw [← remaining_length, hb, List.length_append]
    omega
  have htake : b.remaining.take bs.length = bs := by
    rw [show b.remaining = bs ++ rest from hb, List.take_left]
  simp only [StateT.run, readBytes, if_neg hle, htake]
  rfl

theorem decodes_readUnsigned (size n : Nat) (h : n < 256 ^ size) :
    Decodes (readUnsigned size) (littleEndian size n) (pure n) := by
  have hread := (decodes_readBytes (littleEndian size n)).map ofLittleEndian
  rw [littleEndian_length, map_pure, ofLittleEndian_littleEndian size n h] at hread
  exact hread

theorem decodes_skip (bs : List UInt8) : Decodes (skip bs.length) bs (pure ()) := by
  intro b rest hb
  have hle : ¬ bs.length > b.blob.length - b.pointer := by
    rw [← remaining_length, hb, List.length_append]
    omega
  simp only [StateT.run, skip, if_neg hle]
  rfl

/-- Nothing that fits a buffer overflows the 32 bits of a size. -/
theorem decodes_checkedMultiply_skip {k size : Nat} {bs : List UInt8} (h : k * size = bs.length) :
    Decodes (checkedMultiply k size >>= skip) bs (pure ()) := by
  intro b rest hb
  have hlt : ¬ k * size > 2 ^ 32 - 1 := by
    have hb32 := remaining_length_lt b
    rw [hb, List.length_append] at hb32
    omega
  rw [checkedMultiply, if_neg hlt, pure_bind, h]
  exact decodes_skip bs b rest hb

/-- The bytes between two positions are what a program has read from the one to the other. -/
theorem take_advance {b : InputBuffer} {enc rest : List UInt8}
    (h : Decoder.remaining b = enc ++ rest) :
    b.remaining.take ((Decoder.advance b enc.length).pointer - b.pointer) = enc := by
  have hlen := remaining_length b
  rw [h, List.length_append] at hlen
  have hle := b.pointer_le
  have hpointer : (Decoder.advance b enc.length).pointer - b.pointer = enc.length := by
    show min (b.pointer + enc.length) b.blob.length - b.pointer = enc.length
    rw [Nat.min_eq_left (by omega)]
    omega
  rw [hpointer, show b.remaining = enc ++ rest from h, List.take_left]

/-- A program that asks for the number of bytes left is told at least the length of what it is
    about to read. -/
theorem decodes_remainingLength {α : Type} {f : Nat → Reader α} {enc : List UInt8}
    {r : Except (BondException × InputBuffer) α}
    (h : ∀ k, enc.length ≤ k → Decodes (f k) enc r) : Decodes (remainingLength >>= f) enc r := by
  intro b rest hb
  have hle : enc.length ≤ b.remaining.length := by
    rw [show b.remaining = enc ++ rest from hb, List.length_append]
    omega
  exact h b.remaining.length hle b rest hb

end InputBuffer

end Bond.Cpp

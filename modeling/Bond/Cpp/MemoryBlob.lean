import Bond.Cpp.OutputMemoryStream

set_option autoImplicit false

/-! # Memory blobs

`bond::blob` (cpp/inc/bond/core/blob.h): a pointer into a buffer and a length of 32 bits. The
operations on blobs work on pointers and lengths, and only a merge of several blobs copies bytes.
The module says what they do to the bytes that the blobs stand for. -/

namespace Bond.Cpp

/-! ## Memory -/

/-- What ends an operation on blobs without a result. -/
inductive BlobFailure where
  /-- `std::overflow_error` of `checked_add` -/
  | overflowError
  /-- `std::invalid_argument` -/
  | invalidArgument
  /-- `std::bad_alloc` -/
  | badAlloc
  /-- not an exception: a copy out of the bounds of a buffer -/
  | outOfBounds
deriving DecidableEq, Repr

/-- A buffer in memory. A pointer has 64 bits, and one to the end of a buffer is a pointer, too. -/
structure Allocation where
  address : Nat
  bytes : List UInt8
  end_lt : address + bytes.length < 2 ^ 64

abbrev Memory := List Allocation

/-- A pointer into a buffer -/
structure Pointer where
  allocation : Nat
  offset : Nat
deriving DecidableEq, Repr

/-- The address that a pointer is; `none` is the null pointer. -/
def Memory.address (memory : Memory) : Option Pointer → Nat
  | none => 0
  | some p => match memory[p.allocation]? with
    | none => p.offset
    | some a => a.address + p.offset

/-- `ptr + offset` -/
def Pointer.add (ptr : Option Pointer) (offset : Nat) : Option Pointer :=
  ptr.map fun p => { p with offset := p.offset + offset }

/-- `checked_add` of a pointer and an offset (cpp/inc/bond/core/detail/checked.h) -/
def Memory.checkedAdd (memory : Memory) (ptr : Option Pointer) (offset : UInt32) :
    Except BlobFailure (Option Pointer) :=
  if 2 ^ 64 - 1 - offset.toNat < memory.address ptr then
    .error .overflowError
  else
    .ok (Pointer.add ptr offset.toNat)

/-- `checked_add` of two sizes -/
def checkedAdd (lhs rhs : UInt32) : Except BlobFailure UInt32 :=
  if (0xFFFFFFFF : UInt32) - lhs < rhs then .error .overflowError else .ok (lhs + rhs)

/-- Where new buffers are; nothing is known of their bytes. -/
structure Allocator where
  address : Memory → Nat → Option Nat
  noinit : Memory → Nat → UInt8
  end_lt (memory : Memory) (length a : Nat) : address memory length = some a →
    a + length < 2 ^ 64

/-- `allocate_shared_noinit` -/
def Allocator.allocate (allocator : Allocator) (memory : Memory) (length : UInt32) :
    Except BlobFailure Allocation :=
  match h : allocator.address memory length.toNat with
  | none => .error .badAlloc
  | some address => .ok {
      address := address
      bytes := (List.range length.toNat).map (allocator.noinit memory)
      end_lt := by
        rw [List.length_map, List.length_range]
        exact allocator.end_lt _ _ _ h }

/-- `memcpy` to a place in a buffer -/
def Allocation.memcpy (a : Allocation) (position : Nat) (bytes : List UInt8) :
    Except BlobFailure Allocation :=
  if h : position + bytes.length ≤ a.bytes.length then
    .ok { a with
      bytes := splice a.bytes position bytes
      end_lt := by
        rw [splice_length h]
        exact a.end_lt }
  else
    .error .outOfBounds

/-! ## Blobs -/

structure MemoryBlob where
  /-- `_buffer`: the buffer that the blob keeps alive, if any -/
  buffer : Option Nat
  content : Option Pointer
  length : UInt32
deriving DecidableEq, Repr

namespace MemoryBlob

/-- `blob()` -/
def default : MemoryBlob :=
  ⟨none, none, 0⟩

/-- `blob(const void*, uint32_t)` -/
def ofPointer (memory : Memory) (content : Option Pointer) (length : UInt32) :
    Except BlobFailure MemoryBlob := do
  let _ ← memory.checkedAdd content length
  return ⟨none, content, length⟩

/-- `blob(const boost::shared_ptr<char[]>&, uint32_t, uint32_t)` -/
def ofBuffer (memory : Memory) (buffer : Nat) (offset length : UInt32) :
    Except BlobFailure MemoryBlob := do
  let content ← memory.checkedAdd (some ⟨buffer, 0⟩) offset
  let _ ← memory.checkedAdd content length
  return ⟨some buffer, content, length⟩

/-- `range(uint32_t, uint32_t)` -/
def range (b : MemoryBlob) (offset length : UInt32) : Except BlobFailure MemoryBlob := do
  let total ← checkedAdd offset length
  if total > b.length then
    throw BlobFailure.invalidArgument
  return ⟨b.buffer, Pointer.add b.content offset.toNat, length⟩

/-- `range(uint32_t)` -/
def rangeFrom (b : MemoryBlob) (offset : UInt32) : Except BlobFailure MemoryBlob := do
  if offset > b.length then
    throw BlobFailure.invalidArgument
  return { b with
    content := Pointer.add b.content offset.toNat
    length := b.length - offset }

/-- `assign(const blob&, uint32_t, uint32_t)`: what `*this` is afterwards. -/
def assign (source : MemoryBlob) (offset length : UInt32) : Except BlobFailure MemoryBlob := do
  let total ← checkedAdd offset length
  if total > source.length then
    throw BlobFailure.invalidArgument
  return ⟨source.buffer, Pointer.add source.content offset.toNat, length⟩

/-- The bytes of a blob. -/
def bytes (memory : Memory) (b : MemoryBlob) : List UInt8 :=
  match b.content with
  | none => []
  | some p => slice ((memory[p.allocation]?.map Allocation.bytes).getD []) p.offset b.length.toNat

/-- One turn of the loop that copies blobs into a new buffer. -/
def copyNext (memory : Memory) (b : MemoryBlob) (buffer : Allocation) (offset : UInt32) :
    Except BlobFailure (Allocation × UInt32) := do
  return (← buffer.memcpy offset.toNat (b.bytes memory), offset + b.length)

/-- A new buffer with the bytes of some blobs, one behind the other, and the blob of it. -/
def copy (allocator : Allocator) (memory : Memory) (length : UInt32) (blobs : List MemoryBlob) :
    Except BlobFailure (Memory × MemoryBlob) := do
  let buffer ← allocator.allocate memory length
  let (buffer, _) ← blobs.foldlM (fun s b => copyNext memory b s.1 s.2) (buffer, 0)
  let memory := memory ++ [buffer]
  return (memory, ← ofBuffer memory (memory.length - 1) 0 length)

/-- `merge` of two blobs -/
def merge (allocator : Allocator) (memory : Memory) (x y : MemoryBlob) :
    Except BlobFailure (Memory × MemoryBlob) := do
  if x.length = 0 ∨ y.length = 0 then
    return (memory, if x.length = 0 then y else x)
  else
    copy allocator memory (← checkedAdd x.length y.length) [x, y]

/-- `merge` of a sequence of blobs -/
def mergeAll (allocator : Allocator) (memory : Memory) (blobs : List MemoryBlob) :
    Except BlobFailure (Memory × MemoryBlob) := do
  let length ← (blobs.map MemoryBlob.length).foldlM checkedAdd 0
  if length = 0 then
    return (memory, default)
  else if length = (blobs.headD default).length then
    return (memory, blobs.headD default)
  else
    copy allocator memory length blobs

/-! ## What blobs stand for -/

/-- `length` bytes at a pointer are in a buffer. -/
def InBuffer (memory : Memory) (content : Option Pointer) (length : Nat) : Prop :=
  match content with
  | none => length = 0
  | some p => ∃ a, memory[p.allocation]? = some a ∧ p.offset + length ≤ a.bytes.length

/-- A blob is a range of a buffer. -/
def Valid (memory : Memory) (b : MemoryBlob) : Prop :=
  InBuffer memory b.content b.length.toNat

/-- The bytes from `offset` on, `length` of them, of bytes that a blob stands for. -/
def part (bytes : List UInt8) (offset length : Nat) : Except BlobFailure (List UInt8) :=
  if offset + length ≤ bytes.length then
    .ok (slice bytes offset length)
  else if offset + length < 2 ^ 32 then
    .error .invalidArgument
  else
    .error .overflowError

/-- The bytes of several blobs, which are one blob if that can be as long. -/
def whole (bytes : List UInt8) : Except BlobFailure (List UInt8) :=
  if bytes.length < 2 ^ 32 then .ok bytes else .error .overflowError

/-! ### Sizes -/

theorem checkedAdd_eq (lhs rhs : UInt32) :
    checkedAdd lhs rhs
      = if lhs.toNat + rhs.toNat < 2 ^ 32 then .ok (lhs + rhs) else .error .overflowError := by
  have hlhs := lhs.toNat_lt
  have hmax : ((0xFFFFFFFF : UInt32) - lhs).toNat = 2 ^ 32 - 1 - lhs.toNat :=
    UInt32.toNat_sub_of_le _ _ (by
      rw [UInt32.le_iff_toNat_le]
      show lhs.toNat ≤ 2 ^ 32 - 1
      omega)
  unfold checkedAdd
  simp only [UInt32.lt_iff_toNat_lt, hmax]
  by_cases hfit : lhs.toNat + rhs.toNat < 2 ^ 32
  · rw [if_neg (by omega), if_pos hfit]
  · rw [if_pos (by omega), if_neg hfit]

theorem toNat_add_of_lt {lhs rhs : UInt32} (h : lhs.toNat + rhs.toNat < 2 ^ 32) :
    (lhs + rhs).toNat = lhs.toNat + rhs.toNat := by
  rw [UInt32.toNat_add, Nat.mod_eq_of_lt h]

section

variable {memory : Memory}

theorem InBuffer.part {content : Option Pointer} {length offset length' : Nat}
    (h : InBuffer memory content length) (hle : offset + length' ≤ length) :
    InBuffer memory (Pointer.add content offset) length' := by
  cases content with
  | none =>
      change length = 0 at h
      show length' = 0
      omega
  | some p =>
      obtain ⟨a, ha, hlength⟩ := h
      refine ⟨a, ha, ?_⟩
      show p.offset + offset + length' ≤ a.bytes.length
      omega

theorem slice_slice (l : List UInt8) {offset length offset' length' : Nat}
    (h : offset' + length' ≤ length) :
    slice (slice l offset length) offset' length' = slice l (offset + offset') length' := by
  unfold slice
  rw [List.drop_take, List.take_take, List.drop_drop, Nat.min_eq_left (by omega)]

/-- A part of a blob is the part of its bytes. -/
theorem bytes_part (b : MemoryBlob) {buffer : Option Nat} {offset length : UInt32}
    (h : offset.toNat + length.toNat ≤ b.length.toNat) :
    bytes memory ⟨buffer, Pointer.add b.content offset.toNat, length⟩
      = slice (b.bytes memory) offset.toNat length.toNat := by
  obtain ⟨buffer', content, length'⟩ := b
  cases content with
  | none =>
      show [] = slice [] _ _
      rw [slice, List.drop_nil, List.take_nil]
  | some p => exact (slice_slice _ h).symm

theorem assign_eq_range : assign = range :=
  rfl

end

/-! ### More memory -/

theorem Valid.append {memory : Memory} {b : MemoryBlob} (h : b.Valid memory) (more : Memory) :
    b.Valid (memory ++ more) ∧ b.bytes (memory ++ more) = b.bytes memory := by
  obtain ⟨buffer, content, length⟩ := b
  cases content with
  | none => exact ⟨h, rfl⟩
  | some p =>
      obtain ⟨a, ha, hle⟩ := h
      have hsome : (memory ++ more)[p.allocation]? = some a := by
        rw [List.getElem?_append_left (List.getElem?_eq_some_iff.1 ha).1, ha]
      refine ⟨⟨a, hsome, hle⟩, ?_⟩
      show slice (((memory ++ more)[p.allocation]?.map Allocation.bytes).getD []) _ _
        = slice ((memory[p.allocation]?.map Allocation.bytes).getD []) _ _
      rw [hsome, ha]

end MemoryBlob

/-! ## Sequences of operations -/

open MemoryBlob

/-- The buffers that there are, and the blobs of a program. -/
structure BlobState where
  memory : Memory
  blobs : List MemoryBlob

/-- An operation on the blobs of a program; one that returns a blob adds it to them. -/
inductive BlobOperation where
  | ofPointer (content : Option Pointer) (length : UInt32)
  | ofBuffer (buffer : Nat) (offset length : UInt32)
  | range (source : Nat) (offset length : UInt32)
  | rangeFrom (source : Nat) (offset : UInt32)
  | assign (target source : Nat) (offset length : UInt32)
  /-- `assign` from a buffer, by way of a temporary blob -/
  | assignBuffer (target buffer : Nat) (offset length : UInt32)
  | swap (x y : Nat)
  | merge (x y : Nat)
  | mergeAll (blobs : List Nat)
deriving DecidableEq, Repr

namespace BlobState

def get (s : BlobState) (i : Nat) : MemoryBlob :=
  s.blobs.getD i default

def push (s : BlobState) (b : MemoryBlob) : BlobState :=
  { s with blobs := s.blobs ++ [b] }

def set (s : BlobState) (i : Nat) (b : MemoryBlob) : BlobState :=
  { s with blobs := s.blobs.set i b }

/-- An operation; it changes nothing if it throws. -/
def step (allocator : Allocator) (s : BlobState) : BlobOperation → Except BlobFailure BlobState
  | .ofPointer content length => return s.push (← MemoryBlob.ofPointer s.memory content length)
  | .ofBuffer buffer offset length =>
      return s.push (← MemoryBlob.ofBuffer s.memory buffer offset length)
  | .range source offset length => return s.push (← (s.get source).range offset length)
  | .rangeFrom source offset => return s.push (← (s.get source).rangeFrom offset)
  | .assign target source offset length =>
      return s.set target (← (s.get source).assign offset length)
  | .assignBuffer target buffer offset length =>
      return s.set target (← MemoryBlob.ofBuffer s.memory buffer offset length)
  | .swap x y => return (s.set x (s.get y)).set y (s.get x)
  | .merge x y => do
      let (memory, b) ← MemoryBlob.merge allocator s.memory (s.get x) (s.get y)
      return push { s with memory := memory } b
  | .mergeAll blobs => do
      let (memory, b) ← MemoryBlob.mergeAll allocator s.memory (blobs.map s.get)
      return push { s with memory := memory } b

/-- A sequence of operations, the ones that throw included. -/
def run (allocator : Allocator) (s : BlobState) (ops : List BlobOperation) : BlobState :=
  ops.foldl (fun s op => (s.step allocator op).toOption.getD s) s

/-- The bytes of the blobs of a program. -/
def contents (s : BlobState) : List (List UInt8) :=
  s.blobs.map (bytes s.memory)

end BlobState

namespace BlobOperation

/-- Only a range of a buffer of the caller makes a blob. -/
def Valid (buffers : Memory) : BlobOperation → Prop
  | .ofPointer content length => InBuffer buffers content length.toNat
  | .ofBuffer buffer offset length | .assignBuffer _ buffer offset length =>
      InBuffer buffers (some ⟨buffer, offset.toNat⟩) length.toNat
  | _ => True

/-- The operations that may need a new buffer. -/
def Allocates : BlobOperation → Prop
  | .merge _ _ | .mergeAll _ => True
  | _ => False

/-- The bytes of a range of a buffer of the caller. -/
def region (buffers : Memory) (content : Option Pointer) (length : UInt32) : List UInt8 :=
  MemoryBlob.bytes buffers ⟨none, content, length⟩

/-- What an operation is for, in terms of bytes alone. -/
def expected (buffers : Memory) (contents : List (List UInt8)) :
    BlobOperation → Except BlobFailure (List (List UInt8))
  | .ofPointer content length => .ok (contents ++ [region buffers content length])
  | .ofBuffer buffer offset length =>
      .ok (contents ++ [region buffers (some ⟨buffer, offset.toNat⟩) length])
  | .range source offset length => do
      return contents ++ [← part (contents.getD source []) offset.toNat length.toNat]
  | .rangeFrom source offset =>
      if offset.toNat ≤ (contents.getD source []).length then
        .ok (contents ++ [(contents.getD source []).drop offset.toNat])
      else
        .error .invalidArgument
  | .assign target source offset length => do
      return contents.set target (← part (contents.getD source []) offset.toNat length.toNat)
  | .assignBuffer target buffer offset length =>
      .ok (contents.set target (region buffers (some ⟨buffer, offset.toNat⟩) length))
  | .swap x y => .ok ((contents.set x (contents.getD y [])).set y (contents.getD x []))
  | .merge x y => do return contents ++ [← whole (contents.getD x [] ++ contents.getD y [])]
  | .mergeAll blobs => do
      return contents ++ [← whole (blobs.flatMap fun i => contents.getD i [])]

end BlobOperation

namespace BlobState

/-- The caller's buffers stay as they are, and every blob is a range of a buffer. -/
structure Inv (buffers : Memory) (s : BlobState) : Prop where
  memory : ∃ more, s.memory = buffers ++ more
  blobs : ∀ b ∈ s.blobs, b.Valid s.memory

/-- An operation does what it is for, or there is no memory. -/
def Follows (buffers : Memory) (s : BlobState) (op : BlobOperation) :
    Except BlobFailure BlobState → Prop
  | .ok s' => s'.Inv buffers ∧ op.expected buffers s.contents = .ok s'.contents
  | .error e =>
      (e = .badAlloc ∧ op.Allocates) ∨ op.expected buffers s.contents = .error e

section

variable {buffers : Memory} {s : BlobState}

theorem Inv.get (h : s.Inv buffers) (i : Nat) : (s.get i).Valid s.memory := by
  unfold BlobState.get
  rw [List.getD_eq_getElem?_getD]
  cases hb : s.blobs[i]? with
  | none => rfl
  | some b => exact h.blobs b (List.mem_of_getElem? hb)

/-- New buffers change no blob that is there. -/
theorem append_spec (h : s.Inv buffers) (more : Memory) :
    Inv buffers { s with memory := s.memory ++ more } ∧
      contents { s with memory := s.memory ++ more } = s.contents := by
  obtain ⟨more', hmemory⟩ := h.memory
  refine ⟨⟨⟨more' ++ more, ?_⟩, fun b hb => ((h.blobs b hb).append more).1⟩, ?_⟩
  · show s.memory ++ more = _
    rw [hmemory, List.append_assoc]
  · exact List.map_congr_left fun b hb => ((h.blobs b hb).append more).2

end

end BlobState

end Bond.Cpp

import Bond.Cs.InputBuffer
import Bond.Cs.CompactBinaryWriter

set_option autoImplicit false

/-! # The output streams of C#

`OutputBuffer` (cs/src/core/io/safe/OutputBuffer.cs and cs/src/io/unsafe/OutputBuffer.cs) writes to
an array that grows, `OutputStream` (cs/src/io/unsafe/OutputStream.cs) to an array that it passes to
a `Stream` when it is full. `OutputStream` inherits the methods of `OutputBuffer` and overrides
`Grow`, `WriteBytes` and `WriteString`. -/

namespace Bond.Cs

open Bond.Lib Bond.Managed
open IntegerHelper Varint

/-- The longest array of bytes that .NET allocates. -/
def maxArrayLength : Nat := 0x7FFFFFC7

/-! ## The writes -/

/-- `Encoding.UTF8` and `Encoding.Unicode` -/
inductive StringEncoding where
  | utf8 | unicode
deriving DecidableEq, Repr

/-- `GetBytes` of an encoding -/
def StringEncoding.getBytes : StringEncoding → List UInt16 → List UInt8
  | .utf8 => utf8GetBytes
  | .unicode => unicodeGetBytes

/-- A call on an output stream. The size of a string is the number of its bytes. -/
inductive OutputWrite where
  | uint8 (value : UInt8)
  | uint16 (value : UInt16)
  | uint32 (value : UInt32)
  | uint64 (value : UInt64)
  | float (bits : UInt32)
  | double (bits : UInt64)
  | varUInt16 (value : UInt16)
  | varUInt32 (value : UInt32)
  | varUInt64 (value : UInt64)
  | bytes (data : List UInt8)
  | string (encoding : StringEncoding) (value : List UInt16)
deriving DecidableEq, Repr

/-- The bytes that a call is meant to write. -/
def OutputWrite.encode : OutputWrite → List UInt8
  | .uint8 value => [value]
  | .uint16 value => littleEndian 2 value.toNat
  | .uint32 value => littleEndian 4 value.toNat
  | .uint64 value => littleEndian 8 value.toNat
  | .float bits => littleEndian 4 bits.toNat
  | .double bits => littleEndian 8 bits.toNat
  | .varUInt16 value => encodeVarUInt16 value
  | .varUInt32 value => encodeVarUInt32 value
  | .varUInt64 value => encodeVarUInt64 value
  | .bytes data => data
  | .string encoding value => encoding.getBytes value

/-! ## What the streams have in common -/

/-- An `OutputBuffer`, or an `OutputStream` with what it has passed to its `Stream`. -/
structure Output where
  buffer : List UInt8
  position : Int32
  length : Int32
  stream : List UInt8
deriving DecidableEq, Repr

/-- A method, which may throw. -/
abbrev OutputMethod := Output → Option Output

namespace Output

/-- A new stream with a buffer of the given length -/
def ofLength (bufferLength : Nat) : Output :=
  ⟨List.replicate bufferLength 0, 0, Int32.ofNat bufferLength, []⟩

/-- Bytes are written into the array from the position on. To write past its end throws; a pointer
    that leaves the array is taken to throw too. -/
def store (bytes : List UInt8) : OutputMethod := fun out =>
  if 0 ≤ out.position ∧ out.position.toInt + bytes.length ≤ out.buffer.length then
    let i := out.position.toInt.toNat
    some { out with
      buffer := out.buffer.take i ++ bytes ++ out.buffer.drop (i + bytes.length)
      position := out.position + Int32.ofNat bytes.length }
  else
    none

section

variable (grow : Int32 → OutputMethod)

/-- `if (position + count > length) Grow(count);` -/
def reserve (count : Int32) : OutputMethod := fun out =>
  if out.position + count > out.length then grow count out else some out

/-- Room for `count` bytes is made before some bytes are written. -/
def writeReserved (count : Int32) (bytes : List UInt8) : OutputMethod := fun out => do
  (← reserve grow count out).store bytes

def writeUInt8 (value : UInt8) : OutputMethod := fun out => do
  let out ← (if out.position ≥ out.length then grow 1 out else some out)
  out.store [value]

def writeUInt16 (value : UInt16) : OutputMethod :=
  writeReserved grow 2 (littleEndian 2 value.toNat)

def writeUInt32 (value : UInt32) : OutputMethod :=
  writeReserved grow 4 (littleEndian 4 value.toNat)

def writeUInt64 (value : UInt64) : OutputMethod :=
  writeReserved grow 8 (littleEndian 8 value.toNat)

def writeFloat (bits : UInt32) : OutputMethod :=
  writeReserved grow 4 (littleEndian 4 bits.toNat)

def writeDouble (bits : UInt64) : OutputMethod :=
  writeReserved grow 8 (littleEndian 8 bits.toNat)

def writeVarUInt16 (value : UInt16) : OutputMethod :=
  writeReserved grow 3 (encodeVarUInt16 value)

def writeVarUInt32 (value : UInt32) : OutputMethod :=
  writeReserved grow 5 (encodeVarUInt32 value)

def writeVarUInt64 (value : UInt64) : OutputMethod :=
  writeReserved grow 10 (encodeVarUInt64 value)

/-- `WriteBytes` of `OutputBuffer`; the loop and the block copy write the same. -/
def writeBytes (data : List UInt8) : OutputMethod :=
  writeReserved grow (Int32.ofNat data.length) data

/-- `WriteString` of `OutputBuffer` -/
def writeString (encoding : StringEncoding) (value : List UInt16) (size : Int32) : OutputMethod :=
  writeReserved grow size (encoding.getBytes value)

end

/-- The size that the protocols pass with a string -/
def stringSize (encoding : StringEncoding) (value : List UInt16) : Int32 :=
  Int32.ofNat (encoding.getBytes value).length

/-- The methods that `OutputStream` overrides -/
structure Overrides where
  grow : Int32 → OutputMethod
  writeBytes : List UInt8 → OutputMethod
  writeString : StringEncoding → List UInt16 → Int32 → OutputMethod

def write (overrides : Overrides) : OutputWrite → OutputMethod
  | .uint8 value => writeUInt8 overrides.grow value
  | .uint16 value => writeUInt16 overrides.grow value
  | .uint32 value => writeUInt32 overrides.grow value
  | .uint64 value => writeUInt64 overrides.grow value
  | .float bits => writeFloat overrides.grow bits
  | .double bits => writeDouble overrides.grow bits
  | .varUInt16 value => writeVarUInt16 overrides.grow value
  | .varUInt32 value => writeVarUInt32 overrides.grow value
  | .varUInt64 value => writeVarUInt64 overrides.grow value
  | .bytes data => overrides.writeBytes data
  | .string encoding value => overrides.writeString encoding value (stringSize encoding value)

/-- Some writes, one after the other -/
def writes (overrides : Overrides) (calls : List OutputWrite) : OutputMethod := fun out =>
  calls.foldlM (fun out call => write overrides call out) out

end Output

/-! ## `OutputBuffer` -/

namespace OutputBuffer

open Output

/-- `Array.Resize` -/
def resize (length : Int32) : OutputMethod := fun out =>
  if 0 ≤ length ∧ length.toInt ≤ maxArrayLength then
    let n := length.toInt.toNat
    some { out with
      buffer := out.buffer.take n ++ List.replicate (n - out.buffer.length) 0
      length := length }
  else
    none

/-- `Grow` -/
def grow (count : Int32) : OutputMethod := fun out =>
  let minLength := out.position + count
  let length := out.length + (out.length >>> 1)
  resize (if length < minLength then minLength else length) out

def overrides : Overrides :=
  ⟨grow, writeBytes grow, writeString grow⟩

/-- `Data` -/
def data (out : Output) : List UInt8 :=
  out.buffer.take out.position.toInt.toNat

end OutputBuffer

/-! ## `OutputStream` -/

namespace OutputStream

open Output

/-- `Flush` -/
def flush (out : Output) : Output :=
  { out with
    stream := out.stream ++ out.buffer.take out.position.toInt.toNat
    position := 0 }

/-- `Grow`; its assertion is one of a debug build. -/
def grow (_ : Int32) : OutputMethod := fun out =>
  some (flush out)

/-- `WriteBytes` -/
def writeBytes (data : List UInt8) : OutputMethod := fun out =>
  let out := flush out
  some { out with stream := out.stream ++ data }

/-- `WriteString`; what does not fit into the buffer is encoded into an array of `size` bytes. -/
def writeString (encoding : StringEncoding) (value : List UInt16) (size : Int32) : OutputMethod :=
  fun out =>
    if out.position + size > out.length then
      let out := flush out
      let bytes := encoding.getBytes value
      if bytes.length ≤ size.toInt then
        let data := bytes ++ List.replicate (size.toInt.toNat - bytes.length) 0
        some { out with stream := out.stream ++ data }
      else
        none
    else
      Output.writeString grow encoding value size out

def overrides : Overrides :=
  ⟨grow, writeBytes, writeString⟩

end OutputStream

/-! ## What is in a stream -/

namespace Output

/-- The array is as long as `length` says, and the position is inside of it. -/
structure Valid (out : Output) : Prop where
  length_eq : out.length.toInt = out.buffer.length
  le_max : out.buffer.length ≤ maxArrayLength
  position_nonneg : 0 ≤ out.position.toInt
  position_le : out.position.toInt ≤ out.buffer.length

/-- What has been written, to the stream or into the buffer -/
def contents (out : Output) : List UInt8 :=
  out.stream ++ out.buffer.take out.position.toInt.toNat

theorem valid_ofLength {bufferLength : Nat} (h : bufferLength ≤ maxArrayLength) :
    (ofLength bufferLength).Valid := by
  have hlt : bufferLength < 2 ^ 31 := Nat.lt_of_le_of_lt h (by decide)
  refine ⟨?_, ?_, Int.le_refl _, ?_⟩
  · rw [ofLength, List.length_replicate]
    exact Int32.toInt_ofNat_of_lt hlt
  · rwa [ofLength, List.length_replicate]
  · exact Int.natCast_nonneg _

theorem contents_ofLength (bufferLength : Nat) : (ofLength bufferLength).contents = [] := by
  simp [contents, ofLength]

/-- The position is not near the end of an `int`. -/
theorem Valid.position_add {out : Output} (h : out.Valid) {count : Int32} {k : Nat}
    (hcount : count.toInt = k) (hlt : out.position.toInt + k < 2 ^ 31) :
    (out.position + count).toInt = out.position.toInt + k := by
  have hnonneg := h.position_nonneg
  exact InputBuffer.toInt_add_small hcount (Int.natCast_nonneg k) hlt

end Output

namespace Output

/-- Where there is room the bytes are written. -/
theorem Valid.store {out : Output} (h : out.Valid) {bytes : List UInt8}
    (hroom : out.position.toInt + bytes.length ≤ out.buffer.length) :
    ∃ out', out.store bytes = some out' ∧ out'.Valid ∧
      out'.contents = out.contents ++ bytes ∧ out'.stream = out.stream ∧
      out'.buffer.length = out.buffer.length := by
  have hmax := h.le_max
  have hnonneg := h.position_nonneg
  have hle := h.position_le
  unfold maxArrayLength at hmax
  have hposition : (out.position + Int32.ofNat bytes.length).toInt
      = out.position.toInt + bytes.length :=
    h.position_add (Int32.toInt_ofNat_of_lt (by omega)) (by omega)
  obtain ⟨i, hi⟩ := Int.eq_ofNat_of_zero_le hnonneg
  have hlength : (out.buffer.take i ++ bytes ++ out.buffer.drop (i + bytes.length)).length
      = out.buffer.length := by
    simp only [List.length_append, List.length_take, List.length_drop]
    omega
  have hstored : out.store bytes = some { out with
      buffer := out.buffer.take i ++ bytes ++ out.buffer.drop (i + bytes.length)
      position := out.position + Int32.ofNat bytes.length } := by
    rw [Output.store, if_pos ⟨Int32.le_iff_toInt_le.2 hnonneg, hroom⟩, hi, Int.toNat_natCast]
  refine ⟨_, hstored, ⟨?_, ?_, ?_, ?_⟩, ?_, rfl, hlength⟩
  · rw [hlength]
    exact h.length_eq
  · rw [hlength]
    exact h.le_max
  · show 0 ≤ (out.position + _).toInt
    omega
  · rw [hlength]
    show (out.position + _).toInt ≤ _
    omega
  · have htake : (out.buffer.take i ++ bytes).length = i + bytes.length := by
      rw [List.length_append, List.length_take]
      omega
    have hnat : (out.position.toInt + bytes.length).toNat = i + bytes.length := by omega
    simp only [contents]
    rw [hposition, hnat, hi, Int.toNat_natCast, ← htake, List.take_left, List.append_assoc]

theorem store_some {out out' : Output} {bytes : List UInt8} (h : out.store bytes = some out') :
    out.position.toInt + bytes.length ≤ out.buffer.length := by
  unfold store at h
  split at h
  · next hroom => exact hroom.2
  · cases h

theorem Valid.contents_length {out : Output} (h : out.Valid) :
    (out.contents.length : Int) = out.stream.length + out.position.toInt := by
  have hnonneg := h.position_nonneg
  have hle := h.position_le
  rw [contents, List.length_append, List.length_take]
  omega

end Output

/-! ## `OutputBuffer` writes what it is told to -/

namespace OutputBuffer

open Output

theorem resize_some {length : Int32} {out out' : Output} (h : resize length out = some out') :
    0 ≤ length.toInt ∧ length.toInt ≤ maxArrayLength ∧ out'.position = out.position ∧
      out'.stream = out.stream ∧ out'.length = length ∧
      out'.buffer.length = length.toInt.toNat ∧
      ∀ i ≤ out.buffer.length, i ≤ length.toInt.toNat →
        out'.buffer.take i = out.buffer.take i := by
  unfold resize at h
  split at h
  · next hlength =>
      obtain rfl := Option.some.inj h
      have hnonneg := Int32.le_iff_toInt_le.1 hlength.1
      refine ⟨hnonneg, hlength.2, rfl, rfl, rfl, ?_, fun i hi hn => ?_⟩
      · simp only [List.length_append, List.length_take, List.length_replicate]
        omega
      · rw [List.take_append_of_le_length (by rw [List.length_take]; omega), List.take_take,
          Nat.min_eq_left hn]
  · cases h

/-- After `Grow` there is room for `count` bytes more, and nothing is lost. -/
theorem grow_valid {out out' : Output} (h : out.Valid) {count : Int32} {k : Nat}
    (hcount : count.toInt = k) (hlt : out.position.toInt + k < 2 ^ 31)
    (hgrow : grow count out = some out') :
    out'.Valid ∧ out'.contents = out.contents ∧ out'.stream = out.stream := by
  obtain ⟨hnonneg, hmax, hposition, hstream, hlength, hbuffer, htake⟩ := resize_some hgrow
  have hminLength := h.position_add hcount hlt
  have hpos := h.position_nonneg
  have hle := h.position_le
  have hge : out.position.toInt ≤ (if out.length + (out.length >>> 1) < out.position + count
      then out.position + count else out.length + (out.length >>> 1)).toInt := by
    split
    · omega
    · next hnot =>
        rw [Int32.lt_iff_toInt_lt] at hnot
        omega
  refine ⟨⟨?_, ?_, ?_, ?_⟩, ?_, hstream⟩
  · rw [hlength, hbuffer]
    omega
  · rw [hbuffer]
    omega
  · rwa [hposition]
  · rw [hposition, hbuffer]
    omega
  · rw [contents, contents, hstream, hposition, htake _ (by omega) (by omega)]

theorem grow_some {out out' : Output} {count : Int32} (h : grow count out = some out') :
    out'.position = out.position ∧ out'.buffer.length ≤ maxArrayLength := by
  obtain ⟨hnonneg, hmax, hposition, -, -, hbuffer, -⟩ := resize_some h
  exact ⟨hposition, by rw [hbuffer]; omega⟩

/-- A method that appends some bytes, if it does not throw. -/
def Appends (op : OutputMethod) (bytes : List UInt8) : Prop :=
  ∀ out out', out.Valid → op out = some out' →
    out'.Valid ∧ out'.contents = out.contents ++ bytes ∧ out'.stream = out.stream

/-- Making room keeps what is there, if bytes that need the room are written next. -/
theorem appends_of_grow (grows : Output → Prop) [DecidablePred grows] {count : Int32}
    {bytes : List UInt8}
    (hcount : ∀ out : Output, out.Valid → out.position.toInt + bytes.length < 2 ^ 31 →
      ∃ k : Nat, count.toInt = k ∧ out.position.toInt + k < 2 ^ 31) :
    Appends (fun out => do
      let out ← (if grows out then grow count out else some out)
      out.store bytes) bytes := by
  intro out out' hvalid hrun
  obtain ⟨mid, hmid, hstore⟩ := Option.bind_eq_some_iff.1 hrun
  have hroom := store_some hstore
  have hkept : mid.Valid ∧ mid.contents = out.contents ∧ mid.stream = out.stream := by
    split at hmid
    · obtain ⟨hposition, hmax⟩ := grow_some hmid
      rw [hposition] at hroom
      unfold maxArrayLength at hmax
      obtain ⟨k, hk, hlt⟩ := hcount out hvalid (by omega)
      exact grow_valid hvalid hk hlt hmid
    · obtain rfl := Option.some.inj hmid
      exact ⟨hvalid, rfl, rfl⟩
  obtain ⟨hmidvalid, hcontents, hstream⟩ := hkept
  obtain ⟨out'', hstore', hvalid', hcontents', hstream', -⟩ := hmidvalid.store hroom
  rw [hstore, Option.some.injEq] at hstore'
  subst hstore'
  exact ⟨hvalid', by rw [hcontents', hcontents], hstream'.trans hstream⟩

end OutputBuffer

namespace OutputBuffer

open Output

theorem appends_writeReserved_const {count : Int32} {k : Nat} (hcount : count.toInt = k)
    (hk : k ≤ 10) (bytes : List UInt8) : Appends (writeReserved grow count bytes) bytes := by
  refine appends_of_grow (fun out => out.position + count > out.length) fun out h _ => ?_
  have hmax := h.le_max
  have hle := h.position_le
  unfold maxArrayLength at hmax
  exact ⟨k, hcount, by omega⟩

theorem appends_writeReserved_length (bytes : List UInt8) :
    Appends (writeReserved grow (Int32.ofNat bytes.length) bytes) bytes := by
  refine appends_of_grow
    (fun out => out.position + Int32.ofNat bytes.length > out.length) fun out h hlt => ?_
  have hnonneg := h.position_nonneg
  exact ⟨bytes.length, Int32.toInt_ofNat_of_lt (by omega), hlt⟩

/-- Whatever `OutputBuffer` writes comes behind what it has. -/
theorem appends_write (call : OutputWrite) : Appends (Output.write overrides call) call.encode := by
  cases call with
  | uint8 value =>
      refine appends_of_grow (fun out => out.position ≥ out.length) fun out h _ => ?_
      have hmax := h.le_max
      have hle := h.position_le
      unfold maxArrayLength at hmax
      exact ⟨1, rfl, by omega⟩
  | bytes data => exact appends_writeReserved_length data
  | string encoding value => exact appends_writeReserved_length _
  | uint16 value => exact appends_writeReserved_const (k := 2) rfl (by decide) _
  | uint32 value => exact appends_writeReserved_const (k := 4) rfl (by decide) _
  | uint64 value => exact appends_writeReserved_const (k := 8) rfl (by decide) _
  | float bits => exact appends_writeReserved_const (k := 4) rfl (by decide) _
  | double bits => exact appends_writeReserved_const (k := 8) rfl (by decide) _
  | varUInt16 value => exact appends_writeReserved_const (k := 3) rfl (by decide) _
  | varUInt32 value => exact appends_writeReserved_const (k := 5) rfl (by decide) _
  | varUInt64 value => exact appends_writeReserved_const (k := 10) rfl (by decide) _

end OutputBuffer

/-! ## So does `OutputStream` -/

namespace OutputStream

open Output

theorem flush_valid {out : Output} (h : out.Valid) :
    (flush out).Valid ∧ (flush out).contents = out.contents ∧
      (flush out).stream = out.contents := by
  refine ⟨⟨h.length_eq, h.le_max, Int.le_refl _, Int.natCast_nonneg _⟩, ?_, rfl⟩
  simp [flush, contents]

/-- A call that the buffer has room for; bytes and strings do not need it. -/
def FitsIn (bufferLength : Nat) : OutputWrite → Prop
  | .bytes _ => True
  | .string _ _ => True
  | call => call.encode.length ≤ bufferLength

instance (bufferLength : Nat) : DecidablePred (FitsIn bufferLength)
  | .bytes _ | .string _ _ => inferInstanceAs (Decidable True)
  | .uint8 _ | .uint16 _ | .uint32 _ | .uint64 _ | .float _ | .double _ | .varUInt16 _
  | .varUInt32 _ | .varUInt64 _ => inferInstanceAs (Decidable (_ ≤ _))

/-- A method that appends some bytes and does not throw. -/
def Emits (op : OutputMethod) (bytes : List UInt8) : Prop :=
  ∀ out : Output, out.Valid → out.position.toInt + bytes.length < 2 ^ 31 →
    ∃ out', op out = some out' ∧ out'.Valid ∧ out'.contents = out.contents ++ bytes ∧
      out'.buffer.length = out.buffer.length

/-- Where the buffer is too full it is flushed first. -/
theorem emits_of_flush (grows : Output → Prop) [DecidablePred grows] {bytes : List UInt8}
    {out : Output} (h : out.Valid) (hfits : bytes.length ≤ out.buffer.length)
    (hroom : ¬ grows out → out.position.toInt + bytes.length ≤ out.buffer.length)
    (count : Int32) :
    ∃ out', (do
      let out ← (if grows out then grow count out else some out)
      out.store bytes : Option Output) = some out' ∧ out'.Valid ∧
      out'.contents = out.contents ++ bytes ∧ out'.buffer.length = out.buffer.length := by
  by_cases hgrows : grows out
  · obtain ⟨hvalid, hcontents, -⟩ := flush_valid h
    have hempty : (flush out).position.toInt + bytes.length ≤ (flush out).buffer.length := by
      show (0 : Int) + bytes.length ≤ out.buffer.length
      omega
    obtain ⟨out', hstore, hvalid', hcontents', -, hlength⟩ := hvalid.store hempty
    rw [if_pos hgrows]
    exact ⟨out', hstore, hvalid', by rw [hcontents', hcontents], hlength⟩
  · obtain ⟨out', hstore, hvalid', hcontents', -, hlength⟩ := h.store (hroom hgrows)
    rw [if_neg hgrows]
    exact ⟨out', hstore, hvalid', hcontents', hlength⟩

theorem emits_writeReserved {count : Int32} {k : Nat} (hcount : count.toInt = k) (hk : k ≤ 10)
    {bytes : List UInt8} (hbytes : bytes.length ≤ k) {out : Output} (h : out.Valid)
    (hfits : bytes.length ≤ out.buffer.length) :
    ∃ out', writeReserved grow count bytes out = some out' ∧ out'.Valid ∧
      out'.contents = out.contents ++ bytes ∧ out'.buffer.length = out.buffer.length := by
  have hmax := h.le_max
  have hle := h.position_le
  have hlength := h.length_eq
  unfold maxArrayLength at hmax
  have hadd := h.position_add hcount (by omega)
  refine emits_of_flush (fun out => out.position + count > out.length) h hfits
    (fun hroom => ?_) count
  rw [gt_iff_lt, Int32.lt_iff_toInt_lt, hadd, hlength] at hroom
  omega

theorem emits_writeString (encoding : StringEncoding) (value : List UInt16) :
    Emits (writeString encoding value (stringSize encoding value)) (encoding.getBytes value) := by
  intro out h hlt
  have hnonneg := h.position_nonneg
  have hsize : (stringSize encoding value).toInt = (encoding.getBytes value).length :=
    Int32.toInt_ofNat_of_lt (by omega)
  have hadd := h.position_add hsize hlt
  have hlength := h.length_eq
  have hroom : out.position + stringSize encoding value > out.length ↔
      (out.buffer.length : Int) < out.position.toInt + (encoding.getBytes value).length := by
    rw [gt_iff_lt, Int32.lt_iff_toInt_lt, hadd, hlength]
  unfold writeString
  split
  · obtain ⟨hvalid, hcontents, hstream⟩ := flush_valid h
    rw [if_pos (Int.le_of_eq hsize.symm), hsize, Int.toNat_natCast, Nat.sub_self,
      List.replicate_zero, List.append_nil]
    refine ⟨_, rfl, ⟨hvalid.length_eq, hvalid.le_max, hvalid.position_nonneg, hvalid.position_le⟩,
      ?_, rfl⟩
    simp [contents, flush]
  · next hnot =>
      rw [hroom, Int.not_lt] at hnot
      obtain ⟨out', hstore, hvalid, hcontents, -, hkept⟩ := h.store hnot
      refine ⟨out', ?_, hvalid, hcontents, hkept⟩
      show (reserve grow _ out).bind _ = _
      rw [reserve, if_neg (by rw [hroom]; omega)]
      exact hstore

/-- Whatever `OutputStream` has room for comes behind what it has. -/
theorem emits_write {call : OutputWrite} {out : Output} (h : out.Valid)
    (hlt : out.position.toInt + call.encode.length < 2 ^ 31)
    (hfits : FitsIn out.buffer.length call) :
    ∃ out', Output.write overrides call out = some out' ∧ out'.Valid ∧
      out'.contents = out.contents ++ call.encode ∧ out'.buffer.length = out.buffer.length := by
  have hwidth (k n : Nat) : (littleEndian k n).length ≤ k := Nat.le_of_eq (littleEndian_length k n)
  cases call with
  | uint8 value =>
      refine emits_of_flush (fun out => out.position ≥ out.length) h hfits
        (fun hroom => ?_) 1
      rw [ge_iff_le, Int32.le_iff_toInt_le, h.length_eq] at hroom
      simp only [OutputWrite.encode, List.length_singleton]
      omega
  | bytes data =>
      obtain ⟨hvalid, hcontents, hstream⟩ := flush_valid h
      refine ⟨_, rfl,
        ⟨hvalid.length_eq, hvalid.le_max, hvalid.position_nonneg, hvalid.position_le⟩, ?_, rfl⟩
      simp [contents, flush, OutputWrite.encode]
  | string encoding value => exact emits_writeString encoding value out h hlt
  | uint16 value => exact emits_writeReserved (k := 2) rfl (by decide) (hwidth 2 _) h hfits
  | uint32 value => exact emits_writeReserved (k := 4) rfl (by decide) (hwidth 4 _) h hfits
  | uint64 value => exact emits_writeReserved (k := 8) rfl (by decide) (hwidth 8 _) h hfits
  | float bits => exact emits_writeReserved (k := 4) rfl (by decide) (hwidth 4 _) h hfits
  | double bits => exact emits_writeReserved (k := 8) rfl (by decide) (hwidth 8 _) h hfits
  | varUInt16 value =>
      exact emits_writeReserved (k := 3) rfl (by decide) (encodeVarUInt_length_le 2 _) h hfits
  | varUInt32 value =>
      exact emits_writeReserved (k := 5) rfl (by decide) (encodeVarUInt_length_le 4 _) h hfits
  | varUInt64 value =>
      exact emits_writeReserved (k := 10) rfl (by decide) (encodeVarUInt_length_le 9 _) h hfits

/-! ## Both streams -/

/-- What `OutputBuffer` takes and the buffer of `OutputStream` has room for comes to the same in
    both. -/
theorem writes_sim {calls : List OutputWrite} {out os out' : Output} (hout : out.Valid)
    (hstream : out.stream = []) (hos : os.Valid) (hsame : os.contents = out.contents)
    (hfits : ∀ call ∈ calls, FitsIn os.buffer.length call)
    (hrun : Output.writes OutputBuffer.overrides calls out = some out') :
    ∃ os', Output.writes overrides calls os = some os' ∧ os'.Valid ∧ out'.Valid ∧
      out'.stream = [] ∧ os'.contents = out'.contents := by
  induction calls generalizing out os with
  | nil =>
      obtain rfl := Option.some.inj hrun
      exact ⟨os, rfl, hos, hout, hstream, hsame⟩
  | cons call calls ih =>
      obtain ⟨mid, hmid, hrest⟩ := Option.bind_eq_some_iff.1 hrun
      obtain ⟨hmidvalid, hcontents, hmidstream⟩ := OutputBuffer.appends_write call out mid hout hmid
      obtain ⟨hcall, hcalls⟩ := List.forall_mem_cons.1 hfits
      -- what is in the memory buffer is no longer than an array
      have hlt : os.position.toInt + call.encode.length < 2 ^ 31 := by
        have hlength := hos.contents_length
        have hmidlength := hmidvalid.contents_length
        have hmax := hmidvalid.le_max
        have hle := hmidvalid.position_le
        unfold maxArrayLength at hmax
        rw [hcontents, List.length_append, ← hsame, hmidstream, hstream] at hmidlength
        simp only [List.length_nil, Nat.cast_zero, zero_add] at hmidlength
        omega
      obtain ⟨os', hos', hosvalid, hoscontents, hbuffer⟩ := emits_write hos hlt hcall
      obtain ⟨os'', hrun', hvalid⟩ := ih hmidvalid (hmidstream.trans hstream) hosvalid
        (by rw [hoscontents, hcontents, hsame]) (by rwa [hbuffer]) hrest
      refine ⟨os'', ?_, hvalid⟩
      show (Output.write overrides call os).bind _ = _
      rw [hos']
      exact hrun'

/-- After writes that `OutputBuffer` takes and the buffer has room for, `OutputStream` and a `Flush`
    have passed to the stream what `OutputBuffer` has as its `Data`. -/
theorem flush_stream_eq_data (bufferLength dataLength : Nat) (calls : List OutputWrite)
    (out : Output) (hbuffer : bufferLength ≤ maxArrayLength) (hdata : dataLength ≤ maxArrayLength)
    (hfits : ∀ call ∈ calls, FitsIn bufferLength call)
    (hrun : Output.writes OutputBuffer.overrides calls (ofLength dataLength) = some out) :
    ∃ os, Output.writes overrides calls (ofLength bufferLength) = some os ∧
      (flush os).stream = OutputBuffer.data out := by
  have hsame : (ofLength bufferLength).contents = (ofLength dataLength).contents := by
    rw [contents_ofLength, contents_ofLength]
  obtain ⟨os, hos, hvalid, -, hstream, hcontents⟩ := writes_sim (valid_ofLength hdata) rfl
    (valid_ofLength hbuffer) hsame (by simpa [ofLength] using hfits) hrun
  refine ⟨os, hos, ?_⟩
  rw [(flush_valid hvalid).2.2, hcontents, contents, hstream, List.nil_append]
  rfl

/-- A varint of two bytes, a long array and a string, with a buffer of two bytes. -/
theorem flush_stream_eq_data_small :
    ∃ os, Output.writes overrides [.varUInt16 300, .bytes [1, 2, 3], .string .unicode [0x61]]
        (ofLength 2) = some os ∧
      (flush os).stream = [0xAC, 2, 1, 2, 3, 0x61, 0] :=
  flush_stream_eq_data 2 1 [.varUInt16 300, .bytes [1, 2, 3], .string .unicode [0x61]]
    ⟨[0xAC, 2, 1, 2, 3, 0x61, 0], 7, 7, []⟩ (by decide) (by decide) (by decide) (by decide)

/-- A buffer of one byte has no room for a varint of two. -/
theorem not_flush_stream_eq_data :
    ¬ ∀ (bufferLength dataLength : Nat) (calls : List OutputWrite) (out : Output),
      bufferLength ≤ maxArrayLength → dataLength ≤ maxArrayLength →
      Output.writes OutputBuffer.overrides calls (ofLength dataLength) = some out →
      ∃ os, Output.writes overrides calls (ofLength bufferLength) = some os ∧
        (flush os).stream = OutputBuffer.data out := by
  intro h
  obtain ⟨os, hos, -⟩ := h 1 3 [.varUInt16 300] ⟨[0xAC, 2, 0], 2, 3, []⟩ (by decide) (by decide)
    (by decide)
  have hthrows : Output.writes overrides [.varUInt16 300] (ofLength 1) = none := by decide
  rw [hthrows] at hos
  cases hos

end OutputStream

end Bond.Cs

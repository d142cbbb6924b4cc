import Bond.Cpp.Encoding

set_option autoImplicit false

/-! # Output streams

A protocol writer is a template over its output stream. `OutputCall` is what it asks of the stream;
`OutputBuffer` (cpp/inc/bond/stream/output_buffer.h) turns a call into bytes and `OutputCounter`
(cpp/inc/bond/stream/output_counter.h) only into their number. How `OutputBuffer` cuts the bytes
into blobs is not observable here. -/

namespace Bond.Cpp

open Varint

/-- A value of one of the types that are written with a variable length. -/
inductive VarUnsigned where
  | uint16 (v : UInt16)
  | uint32 (v : UInt32)
  | uint64 (v : UInt64)
deriving DecidableEq, Repr

def VarUnsigned.width : VarUnsigned → VarWidth
  | .uint16 _ => .w16
  | .uint32 _ => .w32
  | .uint64 _ => .w64

def VarUnsigned.toNat : VarUnsigned → Nat
  | .uint16 v => v.toNat
  | .uint32 v => v.toNat
  | .uint64 v => v.toNat

theorem VarUnsigned.toNat_lt (v : VarUnsigned) : v.toNat < 2 ^ v.width.bits := by
  cases v with
  | uint16 v => exact v.toNat_lt
  | uint32 v => exact v.toNat_lt
  | uint64 v => exact v.toNat_lt

/-- One call on an output stream. -/
inductive OutputCall where
  /-- `Write` of a value, of a range of memory or of a blob -/
  | write (bytes : List UInt8)
  | writeVariableUnsigned (value : VarUnsigned)
deriving DecidableEq, Repr

/-- `VariableUnsigned<T, N>` has a last member, for this many bytes. -/
def VarWidth.lastByte : VarWidth → Nat
  | .w16 => 3
  | .w32 => 5
  | .w64 => 10

namespace OutputBuffer

/-- `output_buffer::VariableUnsignedUnchecked`, with the number of bytes that may follow this one.
    The last byte of a `uint64_t` is written without looking at what is left of the value. -/
def variableUnsignedUnchecked (w : VarWidth) : Nat → Nat → List UInt8
  | 0, value => if w = .w64 then [1] else [UInt8.ofNat value]
  | k + 1, value =>
      if value >>> 7 ≠ 0 then
        UInt8.ofNat (value ||| 0x80) :: variableUnsignedUnchecked w k (value >>> 7)
      else
        [UInt8.ofNat value]

/-- `WriteVariableUnsigned`; whether the current range has room decides between the two ways. -/
def writeVariableUnsigned (room : Bool) (value : VarUnsigned) : List UInt8 :=
  if room then
    variableUnsignedUnchecked value.width (value.width.lastByte - 1) value.toNat
  else
    genericWriteVariableUnsigned value.toNat

/-- What is left of a value after `lastByte - k - 1` bytes is below `bound * 128 ^ k`. -/
theorem variableUnsignedUnchecked_eq (w : VarWidth) (k value : Nat)
    (hpos : k = 0 → 0 < value) (hlt : value < (if w = .w64 then 2 else 128) * 128 ^ k) :
    variableUnsignedUnchecked w k value = varint value := by
  induction k generalizing value with
  | zero =>
      have hv := hpos rfl
      rw [variableUnsignedUnchecked, varint_of_lt (by split at hlt <;> omega)]
      split
      · have hone : value = 1 := by simp_all; omega
        rw [hone]
        rfl
      · rfl
  | succ k ih =>
      have hshift : value >>> 7 = value / 128 := Nat.shiftRight_eq_div_pow value 7
      rw [variableUnsignedUnchecked, hshift]
      by_cases hv : value < 128
      · rw [if_neg (by omega), varint_of_lt hv]
      · have hdiv : value / 128 < (if w = .w64 then 2 else 128) * 128 ^ k := by
          rw [Nat.div_lt_iff_lt_mul (by decide), Nat.mul_assoc, ← Nat.pow_succ]
          exact hlt
        rw [if_pos (by omega), ih _ (by omega) hdiv, varint_of_ge hv, toUInt8_or_high]

theorem variableUnsignedUnchecked_varint (w : VarWidth) {value : Nat} (h : value < 2 ^ w.bits) :
    variableUnsignedUnchecked w (w.lastByte - 1) value = varint value := by
  cases w <;> exact variableUnsignedUnchecked_eq _ _ _ (fun h => absurd h (by decide))
    (Nat.lt_of_lt_of_le h (by decide))

/-- Both ways of writing a variable-length integer write the same bytes. -/
theorem writeVariableUnsigned_eq (room : Bool) (value : VarUnsigned) :
    writeVariableUnsigned room value = varint value.toNat := by
  rw [writeVariableUnsigned]
  split
  · exact variableUnsignedUnchecked_varint value.width value.toNat_lt
  · exact genericWriteVariableUnsigned_eq _

end OutputBuffer

/-- The bytes an `OutputBuffer` appends for a call. -/
def OutputCall.bytes : OutputCall → List UInt8
  | .write bytes => bytes
  | .writeVariableUnsigned value => OutputBuffer.writeVariableUnsigned true value

/-- The bytes for a sequence of calls. -/
def outputBytes (calls : List OutputCall) : List UInt8 :=
  calls.flatMap OutputCall.bytes

@[simp] theorem bytes_writeVariableUnsigned (value : VarUnsigned) :
    (OutputCall.writeVariableUnsigned value).bytes = varint value.toNat :=
  OutputBuffer.writeVariableUnsigned_eq true value

@[simp] theorem bytes_write (bytes : List UInt8) : (OutputCall.write bytes).bytes = bytes :=
  rfl

@[simp] theorem outputBytes_nil : outputBytes [] = [] :=
  rfl

@[simp] theorem outputBytes_cons (call : OutputCall) (calls : List OutputCall) :
    outputBytes (call :: calls) = call.bytes ++ outputBytes calls :=
  List.flatMap_cons

@[simp] theorem outputBytes_append (calls calls' : List OutputCall) :
    outputBytes (calls ++ calls') = outputBytes calls ++ outputBytes calls' :=
  List.flatMap_append

/-! ## Counting -/

/-- `VariableUnsigned<T, N>::Write`, with the number of members that may follow this one. -/
def counterVariableUnsigned : Nat → Nat → Nat → Nat
  | 0, n, _ => n
  | k + 1, n, value => if value ≠ 0 then counterVariableUnsigned k (n + 1) (value >>> 7) else n

/-- How far an `OutputCounter` moves for a call. -/
def OutputCall.count : OutputCall → Nat
  | .write bytes => bytes.length
  | .writeVariableUnsigned value =>
      counterVariableUnsigned (value.width.lastByte - 1) 1 (value.toNat >>> 7)

theorem counterVariableUnsigned_eq (k n value : Nat) (hlt : value < 128 ^ (k + 1)) :
    counterVariableUnsigned k n (value >>> 7) + 1 = n + (varint value).length := by
  induction k generalizing n value with
  | zero =>
      rw [varint_of_lt (by simpa using hlt)]
      rfl
  | succ k ih =>
      have hshift : value >>> 7 = value / 128 := Nat.shiftRight_eq_div_pow value 7
      rw [counterVariableUnsigned]
      by_cases hv : value < 128
      · rw [if_neg (by omega), varint_of_lt hv]
        rfl
      · have hdiv : value / 128 < 128 ^ (k + 1) := by
          rw [Nat.div_lt_iff_lt_mul (by decide), ← Nat.pow_succ]
          exact hlt
        have hrest := ih (n + 1) (value / 128) hdiv
        rw [if_pos (by omega), hshift, hrest, varint_of_ge hv, List.length_cons]
        omega

/-- The counter mirrors the buffer. -/
theorem OutputCall.count_eq (call : OutputCall) : call.count = call.bytes.length := by
  cases call with
  | write bytes => rfl
  | writeVariableUnsigned value =>
      have hlt : value.toNat < 128 ^ (value.width.lastByte - 1 + 1) :=
        Nat.lt_of_lt_of_le value.toNat_lt (by cases value.width <;> decide)
      have hcount := counterVariableUnsigned_eq (value.width.lastByte - 1) 1 value.toNat hlt
      rw [bytes_writeVariableUnsigned]
      simp only [count]
      omega

/-- An `OutputCounter` after a sequence of calls; its count is a `uint32_t`. -/
def outputCount (count : UInt32) (calls : List OutputCall) : UInt32 :=
  calls.foldl (fun c call => c + UInt32.ofNat call.count) count

theorem outputCount_eq (count : UInt32) (calls : List OutputCall) :
    outputCount count calls = count + UInt32.ofNat (outputBytes calls).length := by
  induction calls generalizing count with
  | nil => simp [outputCount]
  | cons call calls ih =>
      have hstep := ih (count + UInt32.ofNat call.count)
      simp only [outputCount, List.foldl_cons] at hstep ⊢
      rw [hstep, OutputCall.count_eq, outputBytes_cons, List.length_append, UInt32.ofNat_add,
        UInt32.add_assoc]

end Bond.Cpp

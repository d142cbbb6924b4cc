import Bond.Lib.Requests
import Bond.Java.SkipExact
import Bond.Java.UntaggedSkip

set_option autoImplicit false

/-! # Input streams that deliver in portions

The binary readers of Java (java/core/src/main/java/org/bondlib) as programs that make requests to a
`java.io.InputStream`: `StreamHelper.readBytes` calls `read` once and `StreamHelper.skipBytes` calls
`skip` once, and each takes a short portion for the end of the stream. On a stream that delivers
whatever it is asked for these are the readers that are modelled elsewhere. -/

namespace Bond.Java

open Bond.Cpp (BondDataType BasicType BasicValue TypeDef)
open Bond.Cpp.CompactBinary (Version)
open Bond.Lib
open Decoder Varint
open ZigzagHelper StringHelper

/-- A program that reads from an `InputStream`. -/
abbrev Program := Requests UInt8 Exception

namespace Program

variable {β γ : Type}

/-- What the program reads from bytes that are all there. -/
def reader (p : Program β) : Reader β :=
  Requests.reader .endOfFile p

@[simp]
theorem reader_pure (b : β) : reader (Pure.pure b : Program β) = Pure.pure b :=
  Requests.reader_pure _ b

@[simp]
theorem reader_bind (p : Program β) (g : β → Program γ) :
    reader (p >>= g) = reader p >>= fun b => reader (g b) :=
  Requests.reader_bind _ p g

@[simp]
theorem reader_map (p : Program β) (g : β → γ) : reader (g <$> p) = g <$> reader p :=
  Requests.reader_map _ p g

@[simp]
theorem reader_ite {c : Prop} [Decidable c] (p q : Program β) :
    reader (if c then p else q) = if c then reader p else reader q :=
  Requests.reader_ite _ p q

@[simp]
theorem reader_repeatN (k : Nat) (p : Program β) :
    reader (Requests.repeatN k p) = repeatN k (reader p) :=
  Requests.reader_repeatN _ k p

@[simp]
theorem reader_forM (bs : List β) (f : β → Program Unit) :
    reader (forM bs f) = forM bs fun b => reader (f b) := by
  induction bs with
  | nil => rfl
  | cons b bs ih => simp [ih]

@[simp]
theorem reader_throw (e : Exception) : reader (.throw e : Program β) = throwException e :=
  rfl

end Program

/-! ## `BinaryStreamReader` -/

namespace Streams

def readInt8 : Program UInt8 :=
  .next .pure

/-- `StreamHelper.readBytes` -/
def readExactly (length : Nat) : Program (List UInt8) :=
  .take length .pure

def readBytes (byteCount : Int32) : Program (List UInt8) :=
  if byteCount < 0 then .throw .negativeArraySize else readExactly byteCount.toInt.toNat

/-- `readInt16`, `readInt32`, `readInt64`, `readFloat` and `readDouble`, by their bits -/
def readBits (size : Nat) : Program Nat :=
  ofLittleEndian <$> readExactly size

def readBool : Program Bool := do
  let b ← readInt8
  return b ≠ 0

/-- `StreamHelper.skipBytes` -/
def skipBytes (byteCount : Int) : Program Unit :=
  .skip byteCount.toNat (.pure ())

@[simp]
theorem reader_readInt8 : readInt8.reader = BinaryStreamReader.readInt8 := by
  funext s
  cases s <;> rfl

@[simp]
theorem reader_readExactly (length : Nat) :
    (readExactly length).reader = BinaryStreamReader.readExactly length := by
  funext s
  simp only [readExactly, BinaryStreamReader.readExactly, Program.reader, Requests.reader,
    Requests.onList]
  by_cases hlt : s.length < length
  · rw [if_pos hlt, if_pos hlt]
  · rw [if_neg hlt, if_neg hlt]

@[simp]
theorem reader_readBytes (byteCount : Int32) :
    (readBytes byteCount).reader = BinaryStreamReader.readBytes byteCount := by
  simp [readBytes, BinaryStreamReader.readBytes]

@[simp]
theorem reader_readBits (size : Nat) :
    (readBits size).reader = BinaryStreamReader.readBits size := by
  simp [readBits, BinaryStreamReader.readBits]

@[simp]
theorem reader_readBool : readBool.reader = BinaryStreamReader.readBool := by
  simp [readBool, BinaryStreamReader.readBool]

@[simp]
theorem reader_skipBytes (byteCount : Int) :
    (skipBytes byteCount).reader = BinaryStreamReader.skipBytes byteCount := by
  funext s
  simp only [skipBytes, BinaryStreamReader.skipBytes, Program.reader, Requests.reader,
    Requests.onList]
  by_cases hlt : s.length < byteCount.toNat
  · rw [if_pos hlt, if_pos (by omega)]
  · rw [if_neg hlt, if_neg (by omega), Nat.min_eq_left (by omega)]

/-! ## `VarUIntHelper` -/

def decodeVarUInt : (masked shift : Nat) → Program (Nat × UInt8)
  | 0, shift => do
      let raw ← readInt8
      return (raw.toNat <<< shift, raw)
  | masked + 1, shift => do
      let raw ← readInt8
      if 0x80 ≤ raw then
        let (result, last) ← decodeVarUInt masked (shift + 7)
        return (((raw.toNat &&& 0x7F) <<< shift) ||| result, last)
      else
        return (raw.toNat <<< shift, raw)

def decodeVarUInt16 : Program Int16 := do
  let (result, _) ← decodeVarUInt 2 0
  return Int16.ofNat result

def decodeVarUInt32 : Program Int32 := do
  let (result, _) ← decodeVarUInt 4 0
  return Int32.ofNat result

def decodeVarUInt64 : Program Int64 := do
  let (result, last) ← decodeVarUInt 8 0
  if 0x80 ≤ last then
    let _ ← readInt8
    return Int64.ofNat result
  else
    return Int64.ofNat result

@[simp]
theorem reader_decodeVarUInt (masked shift : Nat) :
    (decodeVarUInt masked shift).reader = VarUIntHelper.decodeVarUInt masked shift := by
  induction masked generalizing shift with
  | zero => simp [decodeVarUInt, VarUIntHelper.decodeVarUInt]
  | succ masked ih => simp [decodeVarUInt, VarUIntHelper.decodeVarUInt, ih]

@[simp]
theorem reader_decodeVarUInt16 : decodeVarUInt16.reader = VarUIntHelper.decodeVarUInt16 := by
  simp [decodeVarUInt16, VarUIntHelper.decodeVarUInt16]

@[simp]
theorem reader_decodeVarUInt32 : decodeVarUInt32.reader = VarUIntHelper.decodeVarUInt32 := by
  simp [decodeVarUInt32, VarUIntHelper.decodeVarUInt32]

@[simp]
theorem reader_decodeVarUInt64 : decodeVarUInt64.reader = VarUIntHelper.decodeVarUInt64 := by
  simp [decodeVarUInt64, VarUIntHelper.decodeVarUInt64]

end Streams

end Bond.Java

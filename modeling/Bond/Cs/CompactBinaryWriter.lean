import Bond.Managed.VarUInt
import Bond.Managed.Encoding
import Mathlib.Data.UInt

set_option autoImplicit false

/-! # The Compact Binary writer of C#

`CompactBinaryWriter` (cs/src/core/protocols/CompactBinary.cs) and the writer of its first pass,
`CompactBinaryCounter` (cs/src/core/protocols/CompactBinaryCounter.cs). In version 2 a struct begins
with its length, which the counter finds out by repeating each method of the writer. -/

namespace Bond.Cs

open Bond.Cpp (BondDataType)
open Bond.Lib Bond.Managed
open Varint

/-! ## `IntegerHelper` -/

namespace IntegerHelper

def getVarUInt16Length (value : UInt16) : Nat :=
  getVarUIntLength 1 2 value.toNat

def getVarUInt32Length (value : UInt32) : Nat :=
  getVarUIntLength 1 4 value.toNat

def getVarUInt64Length (value : UInt64) : Nat :=
  getVarUIntLength 1 9 value.toNat

def encodeVarUInt16 (value : UInt16) : List UInt8 :=
  encodeVarUInt 2 value.toNat

def encodeVarUInt32 (value : UInt32) : List UInt8 :=
  encodeVarUInt 4 value.toNat

def encodeVarUInt64 (value : UInt64) : List UInt8 :=
  encodeVarUInt 9 value.toNat

/-- `(UInt16)((value << 1) ^ (value >> 15))`, where the shifts are those of an `int`. -/
def encodeZigzag16 (value : Int16) : UInt16 :=
  ((value.toInt32 <<< 1) ^^^ (value.toInt32 >>> 15)).toUInt32.toUInt16

def encodeZigzag32 (value : Int32) : UInt32 :=
  ((value <<< 1) ^^^ (value >>> 31)).toUInt32

def encodeZigzag64 (value : Int64) : UInt64 :=
  ((value <<< 1) ^^^ (value >>> 63)).toUInt64

theorem getVarUInt16Length_eq (value : UInt16) :
    getVarUInt16Length value = (encodeVarUInt16 value).length :=
  getVarUIntLength_encode 2 _ (Nat.lt_of_lt_of_le value.toNat_lt (by decide))

theorem getVarUInt32Length_eq (value : UInt32) :
    getVarUInt32Length value = (encodeVarUInt32 value).length :=
  getVarUIntLength_encode 4 _ (Nat.lt_of_lt_of_le value.toNat_lt (by decide))

theorem getVarUInt64Length_eq (value : UInt64) :
    getVarUInt64Length value = (encodeVarUInt64 value).length :=
  getVarUIntLength_encode 9 _ (Nat.lt_of_lt_of_le value.toNat_lt (by decide))

end IntegerHelper

/-- `Encoding.UTF8.GetBytes`: a lone surrogate becomes U+FFFD. -/
def utf8GetBytes (value : List UInt16) : List UInt8 :=
  Utf16.utf8 [0xEF, 0xBF, 0xBD] value

/-- `Encoding.Unicode.GetBytes`: a lone surrogate becomes U+FFFD. -/
def unicodeGetBytes (value : List UInt16) : List UInt8 :=
  Utf16.utf16le [0xFD, 0xFF] value

namespace CompactBinary

open IntegerHelper

/-! ## The writer -/

def writeFieldBegin (type : BondDataType) (id : UInt16) : List UInt8 :=
  let fieldType := type.toUInt8.toUInt32
  if id ≤ 5 then
    [(fieldType ||| (id.toUInt32 <<< 5)).toUInt8]
  else if id ≤ 0xFF then
    littleEndian 2 (fieldType ||| (id.toUInt32 <<< 8) ||| ((0x06 : UInt32) <<< 5)).toUInt16.toNat
  else
    (fieldType ||| ((0x07 : UInt32) <<< 5)).toUInt8 :: littleEndian 2 id.toNat

def writeContainerBegin (version : UInt16) (count : Int32) (elementType : BondDataType) :
    List UInt8 :=
  if 2 == version && count < 7 then
    [(elementType.toUInt8.toUInt32 ||| ((count.toUInt32 + 1) <<< 5)).toUInt8]
  else
    elementType.toUInt8 :: encodeVarUInt32 count.toUInt32

/-- `WriteContainerBegin(count, keyType, valueType)` -/
def writeMapBegin (count : Int32) (keyType valueType : BondDataType) : List UInt8 :=
  keyType.toUInt8 :: valueType.toUInt8 :: encodeVarUInt32 count.toUInt32

def writeString (value : List UInt16) : List UInt8 :=
  if value.length = 0 then
    encodeVarUInt32 0
  else
    encodeVarUInt32 (UInt32.ofNat (utf8GetBytes value).length) ++ utf8GetBytes value

def writeWString (value : List UInt16) : List UInt8 :=
  if value.length = 0 then
    encodeVarUInt32 0
  else
    encodeVarUInt32 (UInt32.ofNat value.length) ++ unicodeGetBytes value

/-- `WriteBool`, `WriteUInt8`, …, `WriteWString` -/
def write : BasicValue → List UInt8
  | .bool value => [if value then 1 else 0]
  | .uint8 value => [value]
  | .uint16 value => encodeVarUInt16 value
  | .uint32 value => encodeVarUInt32 value
  | .uint64 value => encodeVarUInt64 value
  | .float bits => littleEndian 4 bits.toNat
  | .double bits => littleEndian 8 bits.toNat
  | .string value => writeString value
  | .int8 value => [value.toUInt8]
  | .int16 value => encodeVarUInt16 (encodeZigzag16 value)
  | .int32 value => encodeVarUInt32 (encodeZigzag32 value)
  | .int64 value => encodeVarUInt64 (encodeZigzag64 value)
  | .wstring value => writeWString value

/-- What a method other than `WriteStructBegin` writes to the output. -/
def callBytes (version : UInt16) : WriterCall → List UInt8
  | .writeStructBegin => []
  | .writeStructEnd => [BondDataType.stop.toUInt8]
  | .writeBaseBegin => []
  | .writeBaseEnd => [BondDataType.stopBase.toUInt8]
  | .writeFieldBegin type id => writeFieldBegin type id
  | .writeContainerBegin count elementType => writeContainerBegin version count elementType
  | .writeMapBegin count keyType valueType => writeMapBegin count keyType valueType
  | .writeBytes data => data
  | .write value => write value

/-- A `CompactBinaryWriter`: its output and `lengths`. -/
abbrev Writer := TwoPass.Pass2 UInt32

/-- A call on the writer. `lengths.First` of an empty list is an error. -/
def Writer.step (version : UInt16) (writer : Writer) (call : WriterCall) : Option Writer :=
  match call with
  | .writeStructBegin =>
      if version == 2 then
        match writer.lengths with
        | [] => none
        | length :: lengths => some ⟨writer.output ++ encodeVarUInt32 length, lengths⟩
      else
        some writer
  | call => some { writer with output := writer.output ++ callBytes version call }

/-! ## The counter -/

/-- What a method adds to the length of the struct on top of `counterStack`. -/
def counterBytes : WriterCall → UInt32
  | .writeStructBegin => 0
  | .writeStructEnd => 1
  | .writeBaseBegin => 0
  | .writeBaseEnd => 1
  | .writeFieldBegin _ id => if id ≤ 5 then 1 else if id ≤ 0xFF then 2 else 3
  | .writeContainerBegin count _ =>
      if count < 7 then 1 else 1 + UInt32.ofNat (getVarUInt32Length count.toUInt32)
  | .writeMapBegin count _ _ => 2 + UInt32.ofNat (getVarUInt32Length count.toUInt32)
  | .writeBytes data => UInt32.ofNat data.length
  | .write (.bool _) => 1
  | .write (.uint8 _) => 1
  | .write (.uint16 value) => UInt32.ofNat (getVarUInt16Length value)
  | .write (.uint32 value) => UInt32.ofNat (getVarUInt32Length value)
  | .write (.uint64 value) => UInt32.ofNat (getVarUInt64Length value)
  | .write (.float _) => 4
  | .write (.double _) => 8
  | .write (.string value) =>
      let size := UInt32.ofNat (utf8GetBytes value).length
      UInt32.ofNat (getVarUInt32Length size) + size
  | .write (.int8 _) => 1
  | .write (.int16 value) => UInt32.ofNat (getVarUInt16Length (encodeZigzag16 value))
  | .write (.int32 value) => UInt32.ofNat (getVarUInt32Length (encodeZigzag32 value))
  | .write (.int64 value) => UInt32.ofNat (getVarUInt64Length (encodeZigzag64 value))
  | .write (.wstring value) =>
      let length := UInt32.ofNat value.length
      UInt32.ofNat (getVarUInt32Length length) + length * 2

/-- A `CompactBinaryCounter`: `counterStack`, each frame with the place of its `lengthSlot`, and
    `lengths`. A `currentLength` is an `int` that is only added to and then cast to `uint`; it is
    kept as that `uint`. -/
abbrev Counter := TwoPass.Frames UInt32

/-- A call on the counter. To add bytes, or to end a struct, without a struct on the stack is an
    error. -/
def Counter.step (counter : Counter) (call : WriterCall) : Option Counter :=
  match call with
  | .writeStructBegin =>
      some ⟨(counter.lengths.length, 0) :: counter.stack, counter.lengths ++ [0]⟩
  | .writeStructEnd =>
      match counter.stack with
      | [] => none
      | (slot, currentLength) :: stack =>
          let structLength := currentLength + 1
          let lengths := counter.lengths.set slot structLength
          match stack with
          | [] => some ⟨[], lengths⟩
          | (slot', n) :: stack =>
              some ⟨(slot', n + UInt32.ofNat (getVarUInt32Length structLength) + structLength)
                :: stack, lengths⟩
  | .writeBaseBegin => some counter
  | call =>
      match counter.stack with
      | [] => none
      | (slot, currentLength) :: stack =>
          some { counter with stack := (slot, currentLength + counterBytes call) :: stack }

/-- The lengths that the first pass leaves behind, in version 2. -/
def firstPass (calls : List WriterCall) : Option (List UInt32) :=
  (calls.foldlM Counter.step ⟨[], []⟩).map TwoPass.Frames.lengths

/-- The two passes of version 2 stay in step. -/
def InStep (calls : List WriterCall) (agree : UInt32 → List UInt8 → Prop) : Prop :=
  TwoPass.InStep WriterCall.kind firstPass (Writer.step 2) encodeVarUInt32 calls agree

/-! ## The passes as a format -/

def format : TwoPass.Format WriterCall UInt32 where
  kind := WriterCall.kind
  count := counterBytes
  lengthCount length := UInt32.ofNat (getVarUInt32Length length)
  bytes := callBytes 2
  lengthBytes := encodeVarUInt32

theorem isWriter : IsWriter format where
  kind := rfl
  count_baseBegin := rfl
  bytes_baseBegin := rfl

theorem Writer.step_eq : Writer.step 2 = format.second := by
  funext writer call
  cases call with
  | writeStructBegin =>
      obtain ⟨output, lengths⟩ := writer
      cases lengths <;> rfl
  | _ => rfl

/-- The counter does what the format says; it does more, where no struct has begun. -/
theorem Counter.step_of_first {counter counter' : Counter} {call : WriterCall}
    (h : format.first counter call = some counter') : Counter.step counter call = some counter' := by
  obtain ⟨stack, lengths⟩ := counter
  cases call with
  | writeStructBegin => exact h
  | writeStructEnd =>
      cases stack with
      | nil => exact h
      | cons top stack =>
          cases stack with
          | nil => exact h
          | cons next stack =>
              rw [← h, step, TwoPass.Format.first_of_ends rfl]
              simp only [UInt32.add_assoc]
              rfl
  | writeBaseBegin =>
      cases stack with
      | nil => cases h
      | cons top stack =>
          rw [← h, step, TwoPass.Format.first_of_inside rfl]
          simp [format, counterBytes]
  | _ =>
      cases stack with
      | nil => cases h
      | cons top stack => exact h

end CompactBinary

end Bond.Cs

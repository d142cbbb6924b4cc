import Bond.Cs.CompactBinaryCounter

set_option autoImplicit false

/-! # The tagged writers of C#

`FastBinaryWriter` (cs/src/core/protocols/FastBinary.cs), and what a serializer makes of a struct with
it and with both versions of `CompactBinaryWriter`. -/

namespace Bond.Cs

open Bond.Cpp (BondDataType)
open Bond.Lib Bond.Managed
open Varint
open IntegerHelper

/-! ## Fast Binary -/

namespace FastBinary

def writeFieldBegin (type : BondDataType) (id : UInt16) : List UInt8 :=
  type.toUInt8 :: littleEndian 2 id.toNat

def writeContainerBegin (count : Int32) (elementType : BondDataType) : List UInt8 :=
  elementType.toUInt8 :: encodeVarUInt32 count.toUInt32

/-- `WriteContainerBegin(count, keyType, valueType)` -/
def writeMapBegin (count : Int32) (keyType valueType : BondDataType) : List UInt8 :=
  keyType.toUInt8 :: valueType.toUInt8 :: encodeVarUInt32 count.toUInt32

/-- `WriteBool`, `WriteUInt8`, …, `WriteWString`. The strings are written as in Compact Binary. -/
def write : BasicValue → List UInt8
  | .bool value => [if value then 1 else 0]
  | .uint8 value => [value]
  | .uint16 value => littleEndian 2 value.toNat
  | .uint32 value => littleEndian 4 value.toNat
  | .uint64 value => littleEndian 8 value.toNat
  | .float bits => littleEndian 4 bits.toNat
  | .double bits => littleEndian 8 bits.toNat
  | .string value => CompactBinary.writeString value
  | .int8 value => [value.toUInt8]
  | .int16 value => littleEndian 2 value.toUInt16.toNat
  | .int32 value => littleEndian 4 value.toUInt32.toNat
  | .int64 value => littleEndian 8 value.toUInt64.toNat
  | .wstring value => CompactBinary.writeWString value

/-- What a method writes. -/
def callBytes : WriterCall → List UInt8
  | .writeStructBegin => []
  | .writeStructEnd => [BondDataType.stop.toUInt8]
  | .writeBaseBegin => []
  | .writeBaseEnd => [BondDataType.stopBase.toUInt8]
  | .writeFieldBegin type id => writeFieldBegin type id
  | .writeContainerBegin count elementType => writeContainerBegin count elementType
  | .writeMapBegin count keyType valueType => writeMapBegin count keyType valueType
  | .writeBytes data => data
  | .write value => write value

end FastBinary

/-! ## Serialization -/

/-- The binary protocols with a tag for each field. -/
inductive Protocol where
  | compactBinaryV1
  | compactBinaryV2
  | fastBinary
deriving DecidableEq

namespace Protocol

/-- What a writer that makes one pass puts out for its calls. -/
def onePass (bytes : WriterCall → List UInt8) : TwoPass.Format WriterCall UInt32 where
  kind := WriterCall.kind
  count _ := 0
  lengthCount _ := 0
  bytes := bytes
  lengthBytes _ := []

def format : Protocol → TwoPass.Format WriterCall UInt32
  | .compactBinaryV1 => onePass (CompactBinary.callBytes 1)
  | .compactBinaryV2 => CompactBinary.format
  | .fastBinary => onePass FastBinary.callBytes

/-- What `Serializer.Serialize` writes for a struct; `CompactBinaryWriter` of version 2 has a first
    pass, which counts. -/
def serialize (p : Protocol) (s : StructValue) : Option (List UInt8) :=
  match p with
  | .compactBinaryV1 =>
      ((s.calls .within).foldlM (CompactBinary.Writer.step 1) ⟨[], []⟩).map TwoPass.Pass2.output
  | .compactBinaryV2 => do
      let lengths ← CompactBinary.firstPass (s.calls .within)
      ((s.calls .within).foldlM (CompactBinary.Writer.step 2) ⟨[], lengths⟩).map
        TwoPass.Pass2.output
  | .fastBinary => some ((s.calls .within).flatMap FastBinary.callBytes)

theorem isWriter (p : Protocol) : IsWriter p.format := by
  cases p with
  | compactBinaryV2 => exact CompactBinary.isWriter
  | compactBinaryV1 | fastBinary => exact ⟨rfl, rfl, rfl⟩

theorem writer_v1 (calls : List WriterCall) (output : List UInt8) :
    calls.foldlM (CompactBinary.Writer.step 1) ⟨output, []⟩
      = some ⟨output ++ calls.flatMap (CompactBinary.callBytes 1), []⟩ := by
  induction calls generalizing output with
  | nil => simp
  | cons call calls ih =>
      have hcall : CompactBinary.Writer.step 1 ⟨output, []⟩ call
          = some ⟨output ++ CompactBinary.callBytes 1 call, []⟩ := by
        cases call with
        | writeStructBegin => simp [CompactBinary.Writer.step, CompactBinary.callBytes]
        | _ => rfl
      rw [List.foldlM_cons, hcall, Option.bind_eq_bind, Option.bind_some, ih, List.flatMap_cons,
        List.append_assoc]

/-- One pass writes the bytes of the calls. -/
theorem flatMap_onePass {bytes : WriterCall → List UInt8} (h : bytes .writeStructBegin = [])
    (hF : IsWriter (onePass bytes)) (s : StructValue) :
    (s.calls .within).flatMap bytes = (Value.struct s).encode (onePass bytes) := by
  have hcounts : CountsAs (onePass bytes) ((Value.struct s).calls .within) _ _ :=
    hF.value (.struct s)
  obtain ⟨structs, hcounts⟩ := hcounts
  refine hcounts.flatMap_bytes (fun _ => rfl) fun o ho => ?_
  cases o with
  | writeStructBegin => exact h
  | _ => cases ho

/-- What is written for a struct is its encoding. -/
theorem serialize_eq (p : Protocol) (s : StructValue) :
    p.serialize s = some ((Value.struct s).encode p.format) := by
  have hF := p.isWriter
  match p with
  | .compactBinaryV1 =>
      rw [serialize, writer_v1, Option.map_some, List.nil_append]
      exact congrArg some (flatMap_onePass rfl hF s)
  | .compactBinaryV2 =>
      obtain ⟨structs, hbody⟩ := hF.structBody .within s
      have hstruct := hbody.struct (o := .writeStructBegin) (c := .writeStructEnd) rfl rfl
      have hsecond := hstruct.second [] []
      rw [List.append_nil] at hsecond
      rw [serialize, StructValue.calls, CompactBinary.firstPass_struct hbody, Option.bind_eq_bind,
        Option.bind_some, CompactBinary.Writer.step_eq]
      exact congrArg (Option.map TwoPass.Pass2.output) hsecond
  | .fastBinary => exact congrArg some (flatMap_onePass rfl hF s)

end Protocol

end Bond.Cs

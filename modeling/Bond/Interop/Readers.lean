import Bond.Interop.Serialized
import Bond.Cs.BinaryReaders

set_option autoImplicit false

/-! # What C++ writes, in C# and Java

The tagged readers of C# and Java read every payload of C++ that is short enough for their buffers,
and so they read what the writers of all three languages write. -/

namespace Bond.Interop

open Bond.Cpp (outputBytes)
open Varint

theorem fast_write_pos (v : Cpp.BasicValue) :
    0 < (outputBytes (Cpp.FastBinary.write v)).length := by
  have hfixed (h : 0 < v.type.sizeof) : 0 < (outputBytes (Cpp.writeFixed v)).length := by
    rw [Cpp.outputBytes_writeFixed, littleEndian_length]
    exact h
  cases v with
  | string units =>
      show 0 < (outputBytes (Cpp.writeString (.string units))).length
      rw [Cs.writeString_eq, List.length_append]
      exact Nat.add_pos_left (varint_length_pos _) _
  | wstring units =>
      show 0 < (outputBytes (Cpp.writeString (.wstring units))).length
      rw [Cs.writeWString_eq, List.length_append]
      exact Nat.add_pos_left (varint_length_pos _) _
  | _ => exact hfixed (by simp [Cpp.BasicValue.type, Cpp.BasicType.sizeof])

theorem compact_write_pos (v : Cpp.BasicValue) :
    0 < (outputBytes (Cpp.CompactBinary.write v)).length := by
  have hvarint {u : Cpp.VarUnsigned} (hu : Cpp.CompactBinary.varUnsigned v = some u) :
      0 < (outputBytes (Cpp.CompactBinary.write v)).length := by
    rw [Cpp.CompactBinary.outputBytes_write hu]
    exact varint_length_pos _
  cases v with
  | uint16 | uint32 | uint64 | int16 | int32 | int64 => exact hvarint rfl
  | bool v => exact fast_write_pos (.bool v)
  | uint8 v => exact fast_write_pos (.uint8 v)
  | int8 v => exact fast_write_pos (.int8 v)
  | float bits => exact fast_write_pos (.float bits)
  | double bits => exact fast_write_pos (.double bits)
  | string units => exact fast_write_pos (.string units)
  | wstring units => exact fast_write_pos (.wstring units)

end Bond.Interop

namespace Bond.Cs

open Bond.Cpp (BondDataType outputBytes stopBytes)
open Bond.Interop (Reads)
open Decoder Varint InputBuffer

/-! ## C# -/

theorem CompactBinary.reads (version : Cpp.CompactBinary.Version) :
    Reads (CompactBinary.payloadReader (if version = .v2 then 2 else 1))
      (Cpp.CompactBinary.writer version) where
  structBegin length := by
    cases version with
    | v1 => exact Decodes.pure ()
    | v2 =>
        have hread := (decodes_readVarUInt32_toUInt32 length).bind_return fun _ => ()
        rwa [← Cpp.CompactBinary.outputBytes_lengthBegin] at hread
  fieldBegin type id h := CompactBinary.decodes_readFieldBegin h id
  structEnd base := by
    show Decodes CompactBinary.readFieldBegin _ _
    rw [CompactBinary.readFieldBegin, ← List.append_nil (stopBytes base)]
    cases base with
    | false => exact (decodes_readUInt8 0).bind_pure (Decodes.pure _)
    | true => exact (decodes_readUInt8 1).bind_pure (Decodes.pure _)
  listBegin count element hcount h := CompactBinary.decodes_listBegin version hcount h
  mapBegin count key element hcount hkey h := decodes_mapBegin hcount hkey h
  read := CompactBinary.decodes_read
  write_pos := Bond.Interop.compact_write_pos

theorem FastBinary.reads : Reads FastBinary.payloadReader Cpp.FastBinary.writer where
  structBegin _ := Decodes.pure ()
  fieldBegin type id h := by
    have hne : type ≠ .stop ∧ type ≠ .stopBase := by
      constructor <;> rintro rfl <;> cases h
    show Decodes FastBinary.readFieldBegin ([type.toUInt8] ++ littleEndian 2 id.toNat) _
    rw [FastBinary.readFieldBegin]
    refine (decodes_readUInt8 _).bind_pure ?_
    simp only [BondDataType.ofUInt8_toUInt8 h, if_pos hne]
    have hread := (decodes_readUInt16 id.toNat id.toNat_lt).bind_return fun id => (type, id)
    rwa [UInt16.ofNat_toNat] at hread
  structEnd base := by
    show Decodes FastBinary.readFieldBegin _ _
    rw [FastBinary.readFieldBegin, ← List.append_nil (stopBytes base)]
    cases base with
    | false => exact (decodes_readUInt8 0).bind_pure (Decodes.pure _)
    | true => exact (decodes_readUInt8 1).bind_pure (Decodes.pure _)
  listBegin count element hcount h := by
    have hread : Decodes FastBinary.readContainerBegin
        ([element.toUInt8] ++ varint (UInt32.ofNat count).toNat)
        (pure ((UInt32.ofNat count).toInt32, element)) := by
      rw [FastBinary.readContainerBegin]
      refine (decodes_readUInt8 _).bind_pure ?_
      simp only [BondDataType.ofUInt8_toUInt8 h]
      exact (decodes_readVarUInt32_toUInt32 _).bind_return fun count => (count.toInt32, element)
    have hturns := hread.bind_return fun r => (r.2, r.1.toInt.toNat)
    rw [CompactBinary.toInt_toInt32 hcount] at hturns
    show Decodes _ ([element.toUInt8] ++ outputBytes [.writeVariableUnsigned (.uint32 _)]) _
    rw [Bond.Interop.outputBytes_varUnsigned]
    exact hturns
  mapBegin count key element hcount hkey h := decodes_mapBegin hcount hkey h
  read := FastBinary.decodes_read
  write_pos := Bond.Interop.fast_write_pos

theorem Protocol.reads (p : Protocol) : Reads p.payloadReader p.inCpp.writer := by
  cases p with
  | compactBinaryV1 => exact CompactBinary.reads .v1
  | compactBinaryV2 => exact CompactBinary.reads .v2
  | fastBinary => exact FastBinary.reads

end Bond.Cs

namespace Bond.Java

open Bond.Cpp (BondDataType outputBytes stopBytes)
open Bond.Interop (PayloadReader Reads java_writesAs)
open Bond.Lib Bond.Managed
open Decoder Varint

/-! ## Java -/

/-- The reader as one of payloads; a loop turns as often as its count says. -/
def TaggedProtocolReader.payloadReader (reader : TaggedProtocolReader) :
    PayloadReader (List UInt8) (Except Exception) where
  readStructBegin := reader.readStructBegin
  readFieldBegin := reader.readFieldBegin
  readListBegin := do
    let (element, count) ← reader.readListBegin
    return (element, turns count)
  readMapBegin := do
    let (key, element, count) ← reader.readMapBegin
    return (key, element, turns count)
  read := reader.read
  endOfStream _ := throwException .endOfFile
  invalidType _ _ := throwException .invalidBondData

/-- A length in front of as many bytes. -/
theorem decodes_readString_bytes {bytes : List UInt8} (h : bytes.length < 2 ^ 31) :
    Decodes readString (varint (UInt32.ofNat bytes.length).toNat ++ bytes) (pure bytes) := by
  have hcount := VarUIntHelper.decodes_decodeVarUInt32 (Int32.ofNat bytes.length)
  rw [VarUIntHelper.encodeVarUInt32_eq] at hcount
  refine hcount.bind_pure ?_
  rcases Nat.eq_zero_or_pos bytes.length with hzero | hpos
  · rw [List.length_eq_zero_iff.1 hzero]
    exact Decodes.pure _
  · rw [if_neg (ofNat_ne_zero hpos h)]
    exact decodes_readBytes h

theorem decodes_readWString_units {units : List UInt16} (h : 2 * units.length < 2 ^ 31) :
    Decodes ((fun bytes => Cpp.BasicValue.wstring (Java.units bytes)) <$> readWString)
      (varint (UInt32.ofNat units.length).toNat
        ++ units.flatMap fun unit => littleEndian 2 unit.toNat) (pure (.wstring units)) := by
  have hcount := VarUIntHelper.decodes_decodeVarUInt32 (Int32.ofNat units.length)
  rw [VarUIntHelper.encodeVarUInt32_eq] at hcount
  have hbytes : (units.flatMap fun unit => littleEndian 2 unit.toNat).length
      = 2 * units.length := by
    simp [List.length_flatMap, Nat.mul_comm]
  have hread : Decodes readWString (varint (UInt32.ofNat units.length).toNat
      ++ units.flatMap fun unit => littleEndian 2 unit.toNat)
      (pure (units.flatMap fun unit => littleEndian 2 unit.toNat)) := by
    refine hcount.bind_pure ?_
    rcases Nat.eq_zero_or_pos units.length with hzero | hpos
    · rw [List.length_eq_zero_iff.1 hzero]
      exact Decodes.pure _
    · rw [if_neg (ofNat_ne_zero hpos (by omega)), double_count, ← hbytes]
      exact decodes_readBytes (by omega)
  have hunits := hread.map fun bytes => Cpp.BasicValue.wstring (Java.units bytes)
  rwa [map_pure, StringHelper.units_littleEndian] at hunits

/-- A value of a basic type is read if a value of Java is that is written so. -/
theorem decodes_read_inCpp {F : TwoPass.Format WriterCall Int32} {P : Cpp.ProtocolWriter}
    {fits : StructValue → Prop} {reader : TaggedProtocolReader} (hG : Grammar reader F)
    (hF : WritesAs StringHelper.encodeString F P fits) {v : BasicValue}
    (h : v.wellFormed StringHelper.encodeString = true)
    (hwire : v.onWire = v.inCpp StringHelper.encodeString)
    (htype : v.type = (v.inCpp StringHelper.encodeString).type) :
    Decodes (reader.read (v.inCpp StringHelper.encodeString).type)
      (outputBytes (P.write (v.inCpp StringHelper.encodeString)))
      (pure (v.inCpp StringHelper.encodeString)) := by
  have hread := hG.read v h
  rwa [hF.write v h, hwire, htype] at hread

theorem Protocol.reads (p : Protocol) : Reads p.reader.payloadReader p.inCpp.writer := by
  have hG : Grammar p.reader p.format := by
    cases p with
    | compactBinary version => exact CompactBinary.reader_grammar version
    | fastBinary => exact FastBinary.reader_grammar
  have hF := java_writesAs p
  have hbegin (length : UInt32) :
      p.format.lengthBytes length.toInt32 = outputBytes (p.inCpp.writer.lengthBegin length) := by
    cases p with
    | compactBinary version =>
        cases version with
        | v1 => rfl
        | v2 =>
            refine (VarUIntHelper.encodeVarUInt32_eq _).trans ?_
            exact (Cpp.CompactBinary.outputBytes_lengthBegin length).symm
    | fastBinary => rfl
  have hpos (v : Cpp.BasicValue) : 0 < (outputBytes (p.inCpp.writer.write v)).length := by
    cases p with
    | compactBinary => exact Bond.Interop.compact_write_pos v
    | fastBinary => exact Bond.Interop.fast_write_pos v
  have hstring (units : List UInt8) : outputBytes (p.inCpp.writer.write (.string units))
      = outputBytes (Cpp.writeString (.string units)) := by
    cases p <;> rfl
  have hwstring (units : List UInt16) : outputBytes (p.inCpp.writer.write (.wstring units))
      = outputBytes (Cpp.writeString (.wstring units)) := by
    cases p <;> rfl
  exact {
    structBegin := fun length => hbegin length ▸ hG.structBegin _
    fieldBegin := fun type id h => hF.fieldBegin type id h ▸ hG.fieldBegin type id h
    structEnd := fun base => by
      cases base with
      | false => exact hF.structEnd ▸ hG.structEnd
      | true => exact hF.baseEnd ▸ hG.baseEnd
    listBegin := fun count element hcount h => by
      have hread := (hG.listBegin count element hcount h).bind_return fun r => (r.1, turns r.2)
      rwa [turns_ofNat hcount, hF.containerBegin count element hcount h] at hread
    mapBegin := fun count key element hcount hkey h => by
      have hread := (hG.mapBegin count key element hcount hkey h).bind_return
        fun r => (r.1, r.2.1, turns r.2.2)
      rwa [turns_ofNat hcount, hF.mapBegin count key element hcount] at hread
    read := fun v h => by
      cases v with
      | string units =>
          rw [hstring, Cs.writeString_eq] at h ⊢
          have hread := (decodes_readString_bytes (Cs.length_lt_of_append h)).map
            Bond.Cpp.BasicValue.string
          cases p <;> exact hread
      | wstring units =>
          rw [hwstring, Cs.writeWString_eq] at h ⊢
          have hlength := Cs.length_lt_of_append h
          have hcount : (units.flatMap fun unit => littleEndian 2 unit.toNat).length
              = 2 * units.length := by simp [List.length_flatMap, Nat.mul_comm]
          rw [hcount] at hlength
          cases p <;> exact decodes_readWString_units hlength
      | bool v => exact decodes_read_inCpp hG hF (v := .bool v) rfl rfl rfl
      | uint8 v => exact decodes_read_inCpp hG hF (v := .uint8 v) rfl rfl rfl
      | uint16 v => exact decodes_read_inCpp hG hF (v := .uint16 v) rfl rfl rfl
      | uint32 v => exact decodes_read_inCpp hG hF (v := .uint32 v) rfl rfl rfl
      | uint64 v => exact decodes_read_inCpp hG hF (v := .uint64 v) rfl rfl rfl
      | float bits => exact decodes_read_inCpp hG hF (v := .float bits) rfl rfl rfl
      | double bits => exact decodes_read_inCpp hG hF (v := .double bits) rfl rfl rfl
      | int8 v => exact decodes_read_inCpp hG hF (v := .int8 v) rfl rfl rfl
      | int16 v => exact decodes_read_inCpp hG hF (v := .int16 v) rfl rfl rfl
      | int32 v => exact decodes_read_inCpp hG hF (v := .int32 v) rfl rfl rfl
      | int64 v => exact decodes_read_inCpp hG hF (v := .int64 v) rfl rfl rfl
    write_pos := hpos }

end Bond.Java

namespace Bond.Interop

open Bond.Managed
open Decoder
open Cs (utf8GetBytes)
open Java.StringHelper (encodeString)

/-! ## What is read -/

end Bond.Interop

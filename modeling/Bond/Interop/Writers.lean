import Bond.Interop.Values
import Bond.Cs.BinaryWriters
import Bond.Java.SkipExact
import Bond.Cpp.RoundTrip

set_option autoImplicit false

/-! # One wire format in three languages

What the tagged writers of C# and Java put out is what those of C++ put out for the value in C++:
the binary protocols are one format. Only strings with lone surrogates differ, which C# and Java
encode in different ways. -/

namespace Bond.Cs.Protocol

/-- The protocol in C++. -/
def inCpp : Protocol → Cpp.TaggedProtocol
  | .compactBinaryV1 => Cpp.compactBinary .v1
  | .compactBinaryV2 => Cpp.compactBinary .v2
  | .fastBinary => Cpp.fastBinary

end Bond.Cs.Protocol

namespace Bond.Java.Protocol

/-- The protocol in C++. -/
def inCpp : Protocol → Cpp.TaggedProtocol
  | .compactBinary version => Cpp.compactBinary version
  | .fastBinary => Cpp.fastBinary

end Bond.Java.Protocol

namespace Bond.Interop

open Bond.Cpp (BondDataType ProtocolWriter outputBytes stopBytes TaggedProtocol)
open Bond.Lib Bond.Managed
open Hereditary Varint

/-! ## Strings -/

theorem length_replaced (chars : List UInt16) :
    (Utf16.replaced 0xFFFD chars).length = chars.length := by
  have hbytes := congrArg List.length (Utf16.utf16le_eq (r := 0xFFFD) (by decide) chars)
  rw [Utf16.utf16le_length (littleEndian_length 2 _)] at hbytes
  simp only [List.length_flatMap, littleEndian_length, List.map_const', List.sum_replicate,
    smul_eq_mul] at hbytes
  omega

theorem outputBytes_string (units : List UInt8) :
    outputBytes (Cpp.writeString (.string units))
      = varint (UInt32.ofNat units.length).toNat ++ units := by
  simp [Cpp.writeString, Cpp.VarUnsigned.toNat]

theorem outputBytes_wstring (chars : List UInt16) :
    outputBytes (Cpp.writeString (.wstring (Utf16.replaced 0xFFFD chars)))
      = varint (UInt32.ofNat chars.length).toNat ++ Utf16.utf16le [0xFD, 0xFF] chars := by
  have hbytes := Utf16.utf16le_eq (r := 0xFFFD) (by decide) chars
  have hunit : littleEndian 2 0xFFFD = [0xFD, 0xFF] := by decide
  rw [← hunit, hbytes, Cpp.writeString, Cpp.outputBytes_cons, Cpp.bytes_writeVariableUnsigned,
    length_replaced, outputBytes, List.flatMap_map]
  rfl

theorem cs_writeString_eq (value : List UInt16) :
    Cs.CompactBinary.writeString value
      = outputBytes (Cpp.writeString (.string (Cs.utf8GetBytes value))) := by
  have hlength (n : Nat) : Cs.IntegerHelper.encodeVarUInt32 (UInt32.ofNat n)
      = varint (UInt32.ofNat n).toNat :=
    encodeVarUInt_eq 4 _ (Nat.lt_of_lt_of_le (UInt32.toNat_lt _) (by decide))
  rw [outputBytes_string, Cs.CompactBinary.writeString]
  split
  · next hempty =>
      obtain rfl := List.length_eq_zero_iff.1 hempty
      exact (hlength 0).trans (List.append_nil _).symm
  · rw [hlength]

theorem cs_writeWString_eq (value : List UInt16) :
    Cs.CompactBinary.writeWString value
      = outputBytes (Cpp.writeString (.wstring (Utf16.replaced 0xFFFD value))) := by
  have hlength (n : Nat) : Cs.IntegerHelper.encodeVarUInt32 (UInt32.ofNat n)
      = varint (UInt32.ofNat n).toNat :=
    encodeVarUInt_eq 4 _ (Nat.lt_of_lt_of_le (UInt32.toNat_lt _) (by decide))
  rw [outputBytes_wstring, Cs.CompactBinary.writeWString]
  split
  · next hempty =>
      obtain rfl := List.length_eq_zero_iff.1 hempty
      exact (hlength 0).trans (List.append_nil _).symm
  · rw [hlength]
    rfl

theorem java_writeString_eq (value : List UInt16) :
    Java.writeString value
      = outputBytes (Cpp.writeString (.string (Java.StringHelper.encodeString value))) := by
  rw [outputBytes_string, Java.writeString]
  have hlength := Java.VarUIntHelper.encodeVarUInt32_eq
  cases value with
  | nil => exact (hlength 0).trans (List.append_nil _).symm
  | cons char chars =>
      rw [List.isEmpty_cons, if_neg Bool.false_ne_true]
      dsimp only
      rw [hlength]
      rfl

theorem java_writeWString_eq {value : List UInt16} (h : 2 * value.length < 2 ^ 31) :
    Java.writeWString value
      = outputBytes (Cpp.writeString (.wstring (Utf16.replaced 0xFFFD value))) := by
  rw [outputBytes_wstring, Java.writeWString]
  have hlength := Java.VarUIntHelper.encodeVarUInt32_eq
  cases value with
  | nil => exact (hlength 0).trans (List.append_nil _).symm
  | cons char chars =>
      rw [List.isEmpty_cons, if_neg Bool.false_ne_true]
      dsimp only
      rw [Java.encodeWString_length, Java.half_length h, hlength]
      rfl

/-! ## Basic values -/

section

variable (utf8 : List UInt16 → List UInt8)

/-- A value that is not a string is written in its fixed width by Fast Binary. -/
theorem cs_fast_fixed (v : BasicValue) (h : v.type.isString = false) :
    Cs.FastBinary.write v = outputBytes (Cpp.writeFixed (v.inCpp utf8)) := by
  rw [Cpp.outputBytes_writeFixed]
  cases v with
  | bool v => cases v <;> rfl
  | uint8 v | int8 v => simp [Cs.FastBinary.write, BasicValue.inCpp, Cpp.BasicValue.type,
      Cpp.BasicType.sizeof, Cpp.BasicValue.bits, littleEndian]
  | string | wstring => cases h
  | _ => rfl

theorem java_fast_fixed (v : BasicValue) (h : v.type.isString = false) :
    Java.FastBinary.write v = outputBytes (Cpp.writeFixed (v.inCpp utf8)) := by
  rw [← cs_fast_fixed utf8 v h]
  cases v with
  | string | wstring => cases h
  | _ => rfl

end

theorem cs_fast_write (v : BasicValue) :
    Cs.FastBinary.write v = outputBytes (Cpp.FastBinary.write (v.inCpp Cs.utf8GetBytes)) := by
  cases v with
  | string value => exact cs_writeString_eq value
  | wstring value => exact cs_writeWString_eq value
  | _ => exact cs_fast_fixed Cs.utf8GetBytes _ rfl

theorem java_fast_write (v : BasicValue)
    (h : v.wellFormed Java.StringHelper.encodeString = true) :
    Java.FastBinary.write v
      = outputBytes (Cpp.FastBinary.write (v.inCpp Java.StringHelper.encodeString)) := by
  cases v with
  | string value => exact java_writeString_eq value
  | wstring value => exact java_writeWString_eq (of_decide_eq_true h)
  | _ => exact java_fast_fixed Java.StringHelper.encodeString _ rfl

/-- An integer is written with a variable length by Compact Binary. -/
theorem outputBytes_varUnsigned (u : Cpp.VarUnsigned) :
    outputBytes [.writeVariableUnsigned u] = varint u.toNat := by
  rw [Cpp.outputBytes_cons, Cpp.outputBytes_nil, List.append_nil, Cpp.bytes_writeVariableUnsigned]

theorem cs_compact_write (v : BasicValue) :
    Cs.CompactBinary.write v
      = outputBytes (Cpp.CompactBinary.write (v.inCpp Cs.utf8GetBytes)) := by
  have h16 (v : UInt16) : Cs.IntegerHelper.encodeVarUInt16 v = varint v.toNat :=
    encodeVarUInt_eq 2 _ (Nat.lt_of_lt_of_le v.toNat_lt (by decide))
  have h32 (v : UInt32) : Cs.IntegerHelper.encodeVarUInt32 v = varint v.toNat :=
    encodeVarUInt_eq 4 _ (Nat.lt_of_lt_of_le v.toNat_lt (by decide))
  have h64 (v : UInt64) : Cs.IntegerHelper.encodeVarUInt64 v = varint v.toNat :=
    encodeVarUInt_eq 9 _ (Nat.lt_of_lt_of_le v.toNat_lt (by decide))
  cases v with
  | string value => exact cs_writeString_eq value
  | wstring value => exact cs_writeWString_eq value
  | uint16 v => exact (h16 v).trans (outputBytes_varUnsigned (.uint16 v)).symm
  | uint32 v => exact (h32 v).trans (outputBytes_varUnsigned (.uint32 v)).symm
  | uint64 v => exact (h64 v).trans (outputBytes_varUnsigned (.uint64 v)).symm
  | int16 v =>
      have hbits : (Cs.IntegerHelper.encodeZigzag16 v).toBitVec = Cpp.encodeZigZag v.toBitVec := by
        rw [← Java.ZigzagHelper.toBitVec_encodeZigzag16]
        unfold Cs.IntegerHelper.encodeZigzag16 Java.ZigzagHelper.encodeZigzag16
        rw [Int32.toBitVec_toInt16, BitVec.signExtend_eq_setWidth_of_le _ (by decide)]
        rfl
      exact (h16 _).trans ((congrArg (fun bits => varint bits.toNat) hbits).trans
        (outputBytes_varUnsigned (.uint16 (.ofBitVec _))).symm)
  | int32 v => exact (h32 _).trans (outputBytes_varUnsigned (.uint32 (.ofBitVec _))).symm
  | int64 v => exact (h64 _).trans (outputBytes_varUnsigned (.uint64 (.ofBitVec _))).symm
  | bool v => exact cs_fast_fixed Cs.utf8GetBytes (.bool v) rfl
  | uint8 v => exact cs_fast_fixed Cs.utf8GetBytes (.uint8 v) rfl
  | int8 v => exact cs_fast_fixed Cs.utf8GetBytes (.int8 v) rfl
  | float bits => exact cs_fast_fixed Cs.utf8GetBytes (.float bits) rfl
  | double bits => exact cs_fast_fixed Cs.utf8GetBytes (.double bits) rfl

theorem java_compact_write (v : BasicValue)
    (h : v.wellFormed Java.StringHelper.encodeString = true) :
    Java.CompactBinary.write v
      = outputBytes (Cpp.CompactBinary.write (v.inCpp Java.StringHelper.encodeString)) := by
  cases v with
  | string value => exact java_writeString_eq value
  | wstring value => exact java_writeWString_eq (of_decide_eq_true h)
  | uint16 v =>
      exact (Java.VarUIntHelper.encodeVarUInt16_eq _).trans
        (outputBytes_varUnsigned (.uint16 v)).symm
  | uint32 v =>
      exact (Java.VarUIntHelper.encodeVarUInt32_eq _).trans
        (outputBytes_varUnsigned (.uint32 v)).symm
  | uint64 v =>
      exact (Java.VarUIntHelper.encodeVarUInt64_eq _).trans
        (outputBytes_varUnsigned (.uint64 v)).symm
  | int16 v =>
      exact (Java.VarUIntHelper.encodeVarUInt16_eq _).trans ((congrArg
        (fun bits : BitVec 16 => varint bits.toNat)
        (Java.ZigzagHelper.toBitVec_encodeZigzag16 v)).trans
        (outputBytes_varUnsigned (.uint16 (.ofBitVec _))).symm)
  | int32 v =>
      exact (Java.VarUIntHelper.encodeVarUInt32_eq _).trans
        (outputBytes_varUnsigned (.uint32 (.ofBitVec _))).symm
  | int64 v =>
      exact (Java.VarUIntHelper.encodeVarUInt64_eq _).trans
        (outputBytes_varUnsigned (.uint64 (.ofBitVec _))).symm
  | bool v => exact java_fast_fixed Java.StringHelper.encodeString (.bool v) rfl
  | uint8 v => exact java_fast_fixed Java.StringHelper.encodeString (.uint8 v) rfl
  | int8 v => exact java_fast_fixed Java.StringHelper.encodeString (.int8 v) rfl
  | float bits => exact java_fast_fixed Java.StringHelper.encodeString (.float bits) rfl
  | double bits => exact java_fast_fixed Java.StringHelper.encodeString (.double bits) rfl

/-! ## Headers -/

theorem cs_encodeVarUInt32_ofNat (n : Nat) :
    Cs.IntegerHelper.encodeVarUInt32 (Int32.ofNat n).toUInt32
      = outputBytes [.writeVariableUnsigned (.uint32 (UInt32.ofNat n))] := by
  rw [outputBytes_varUnsigned]
  exact encodeVarUInt_eq 4 _ (Nat.lt_of_lt_of_le (UInt32.toNat_lt _) (by decide))

theorem java_encodeVarUInt32_ofNat (n : Nat) :
    Java.VarUIntHelper.encodeVarUInt32 (Int32.ofNat n)
      = outputBytes [.writeVariableUnsigned (.uint32 (UInt32.ofNat n))] := by
  rw [outputBytes_varUnsigned]
  exact Java.VarUIntHelper.encodeVarUInt32_eq _

theorem java_compact_fieldBegin {type : BondDataType} (h : type.isValue = true) (id : UInt16) :
    Java.CompactBinary.writeFieldBegin type id
      = outputBytes (Cpp.CompactBinary.writeFieldBegin type id) := by
  rw [Java.CompactBinary.writeFieldBegin_eq h, Cpp.CompactBinary.writeFieldBegin]
  split_ifs with h5 hff
  · have hid : UInt8.ofNat id.toNat = id.toUInt8 := rfl
    simp [hid]
  · simp
  · simp

/-- C# writes the two bytes of a header as one integer. -/
theorem cs_compact_fieldBegin {type : BondDataType} (h : type.isValue = true) (id : UInt16) :
    Cs.CompactBinary.writeFieldBegin type id
      = outputBytes (Cpp.CompactBinary.writeFieldBegin type id) := by
  rw [← java_compact_fieldBegin h, Cs.CompactBinary.writeFieldBegin,
    Java.CompactBinary.writeFieldBegin]
  split_ifs with h5 hff
  · rfl
  · have htype := BondDataType.toUInt8_lt h
    have hid : id.toNat ≤ 255 := UInt16.le_iff_toNat_le.1 hff
    have hlow : type.toUInt8.toNat ||| 192 < 2 ^ 8 := Nat.or_lt_two_pow (by omega) (by decide)
    have hvalue : (type.toUInt8.toUInt32 ||| (id.toUInt32 <<< 8)
        ||| ((0x06 : UInt32) <<< 5)).toUInt16.toNat
        = (type.toUInt8.toNat ||| 192) + id.toNat * 2 ^ 8 := by
      have hsix : ((0x06 : UInt32) <<< 5).toNat = 192 := by decide
      have hshift : (id.toUInt32 <<< 8).toNat = id.toNat <<< 8 := by
        rw [UInt32.toNat_shiftLeft, UInt16.toNat_toUInt32]
        have height : (8 : UInt32).toNat % 32 = 8 := rfl
        rw [height, Nat.shiftLeft_eq, Nat.mod_eq_of_lt (by omega)]
      rw [UInt32.toNat_toUInt16, UInt32.toNat_or, UInt32.toNat_or, hsix, hshift,
        UInt8.toNat_toUInt32, Nat.or_right_comm, Cpp.InputBuffer.or_shiftLeft_eq_add hlow,
        Nat.mod_eq_of_lt (by omega)]
    rw [hvalue]
    have hbyte : (type.toUInt8.toUInt32 ||| 0xC0).toUInt8
        = UInt8.ofNat ((type.toUInt8.toNat ||| 192) + id.toNat * 2 ^ 8) := by
      apply UInt8.toNat_inj.1
      have hhigh : (0xC0 : UInt32).toNat = 192 := rfl
      rw [UInt32.toNat_toUInt8, UInt32.toNat_or, UInt8.toNat_toUInt32, hhigh, UInt8.toNat_ofNat']
      omega
    have hnext : ((type.toUInt8.toNat ||| 192) + id.toNat * 2 ^ 8) / 256 = id.toNat := by omega
    rw [hbyte, littleEndian, littleEndian, littleEndian, hnext]
    rfl
  · rfl

theorem ofNat_lt_seven {n : Nat} (h : n < 2 ^ 31) :
    (Int32.ofNat n < 7 ↔ n < 7) ∧ (UInt32.ofNat n < 7 ↔ n < 7) := by
  constructor
  · rw [Int32.lt_iff_toInt_lt, Int32.toInt_ofNat_of_lt h]
    have hseven : (7 : Int32).toInt = 7 := rfl
    omega
  · rw [UInt32.lt_iff_toNat_lt, UInt32.toNat_ofNat_of_lt' (Nat.lt_of_lt_of_le h (by decide))]
    rfl

theorem cs_compact_containerBegin {n : Nat} (hn : n < 2 ^ 31) {element : BondDataType}
    (h : element.isValue = true) (version : Cpp.CompactBinary.Version) :
    Cs.CompactBinary.writeContainerBegin (if version = .v2 then 2 else 1) (Int32.ofNat n) element
      = outputBytes (Cpp.CompactBinary.writeContainerBegin version (UInt32.ofNat n) element) := by
  obtain ⟨hcs, hcpp⟩ := ofNat_lt_seven hn
  rw [Cs.CompactBinary.writeContainerBegin, Cpp.CompactBinary.writeContainerBegin]
  cases version with
  | v1 =>
      simp only [reduceCtorEq, false_and, if_false]
      rw [if_neg (by simp), cs_encodeVarUInt32_ofNat]
      rfl
  | v2 =>
      simp only [true_and, if_true, hcs, hcpp, beq_self_eq_true, Bool.true_and, decide_eq_true_eq]
      split_ifs with hsmall
      · have hcount : ∀ n < 7, (Int32.ofNat n).toUInt32 + 1 = UInt32.ofNat (n + 1) ∧
            (UInt32.ofNat n + 1).toUInt8 = UInt8.ofNat (n + 1) := by decide
        obtain ⟨hhigh, hhigh'⟩ := hcount n hsmall
        rw [hhigh, Java.CompactBinary.packed_int h (n + 1) (by omega), hhigh']
        simp
      · rw [cs_encodeVarUInt32_ofNat]
        rfl

theorem java_compact_containerBegin {n : Nat} (hn : n < 2 ^ 31) {element : BondDataType}
    (h : element.isValue = true) (version : Cpp.CompactBinary.Version) :
    Java.CompactBinary.writeContainerBegin version (Int32.ofNat n) element
      = outputBytes (Cpp.CompactBinary.writeContainerBegin version (UInt32.ofNat n) element) := by
  obtain ⟨hjava, hcpp⟩ := ofNat_lt_seven hn
  rw [Java.CompactBinary.writeContainerBegin, Cpp.CompactBinary.writeContainerBegin]
  simp only [hjava, hcpp]
  split_ifs with hsmall
  · have hcount : ∀ n < 7, ((Int32.ofNat n + 1) <<< 5).toUInt32 = UInt32.ofNat (n + 1) <<< 5 ∧
        (UInt32.ofNat n + 1).toUInt8 = UInt8.ofNat (n + 1) := by decide
    obtain ⟨hhigh, hhigh'⟩ := hcount n hsmall.2
    rw [hhigh, Java.CompactBinary.packed_int h (n + 1) (by omega), hhigh']
    simp
  · rw [java_encodeVarUInt32_ofNat]
    rfl

/-! ## Calls -/

theorem byte_compact (utf8 : List UInt16 → List UInt8) {element : BondDataType}
    (h : element = .basic .int8 ∨ element = .basic .uint8) (b : UInt8) :
    outputBytes (Cpp.CompactBinary.write ((byteValue element b).inCpp utf8)) = [b] := by
  rcases h with rfl | rfl <;> simp [byteValue, BasicValue.inCpp, Cpp.CompactBinary.write,
    Cpp.outputBytes_writeFixed, Cpp.BasicValue.type, Cpp.BasicType.sizeof, Cpp.BasicValue.bits,
    littleEndian]

theorem byte_fast (utf8 : List UInt16 → List UInt8) {element : BondDataType}
    (h : element = .basic .int8 ∨ element = .basic .uint8) (b : UInt8) :
    outputBytes (Cpp.FastBinary.write ((byteValue element b).inCpp utf8)) = [b] := by
  rw [← byte_compact utf8 h b]
  rcases h with rfl | rfl <;> rfl

/-- The length that the first pass of C# counts for a struct, as a `uint`. -/
theorem cs_length (s : StructValue) :
    s.length Cs.CompactBinary.format = UInt32.ofNat
      (s.encodeBody Cs.CompactBinary.format ++ [BondDataType.stop.toUInt8]).length := by
  obtain ⟨structs, hbody⟩ := Cs.CompactBinary.isWriter.structBody .within s
  have hstruct := hbody.struct (o := .writeStructBegin) (c := .writeStructEnd) rfl rfl
  exact hstruct.structs_eq
    (fun length => congrArg UInt32.ofNat (Cs.IntegerHelper.getVarUInt32Length_eq length))
    (fun call _ => Cs.CompactBinary.format_short call) _ List.mem_cons_self

theorem cs_compact_writesAs (version : Cpp.CompactBinary.Version)
    {F : TwoPass.Format WriterCall UInt32}
    (hbytes : F.bytes = Cs.CompactBinary.callBytes (if version = .v2 then 2 else 1))
    (hlength : ∀ s : StructValue, F.lengthBytes (s.length F) = outputBytes
      (Cpp.CompactBinary.lengthBegin version
        (UInt32.ofNat (s.encodeBody F ++ F.bytes .writeStructEnd).length))) :
    WritesAs Cs.utf8GetBytes F (Cpp.compactBinary version).writer fun _ => True where
  fieldBegin type id h := by
    rw [hbytes]
    exact cs_compact_fieldBegin h id
  structEnd := by
    rw [hbytes]
    rfl
  baseEnd := by
    rw [hbytes]
    rfl
  containerBegin count element hcount h := by
    rw [hbytes]
    exact cs_compact_containerBegin hcount h version
  mapBegin count key element _ := by
    rw [hbytes]
    exact congrArg ([key.toUInt8, element.toUInt8] ++ ·) (cs_encodeVarUInt32_ofNat count)
  bytes _ := by
    rw [hbytes]
    rfl
  byte b element h := byte_compact _ h b
  write v _ := by
    rw [hbytes]
    exact cs_compact_write v
  length s _ _ := hlength s

theorem cs_writesAs (p : Cs.Protocol) :
    WritesAs Cs.utf8GetBytes p.format p.inCpp.writer fun _ => True := by
  cases p with
  | compactBinaryV1 => exact cs_compact_writesAs .v1 rfl fun _ => rfl
  | compactBinaryV2 =>
      refine cs_compact_writesAs .v2 rfl fun s => ?_
      show Cs.IntegerHelper.encodeVarUInt32 (s.length Cs.CompactBinary.format) = _
      rw [cs_length]
      exact cs_encodeVarUInt32_ofNat _
  | fastBinary =>
      exact {
        fieldBegin := fun _ _ _ => rfl
        structEnd := rfl
        baseEnd := rfl
        containerBegin := fun count element _ _ =>
          congrArg ([element.toUInt8] ++ ·) (cs_encodeVarUInt32_ofNat count)
        mapBegin := fun count key element _ =>
          congrArg ([key.toUInt8, element.toUInt8] ++ ·) (cs_encodeVarUInt32_ofNat count)
        bytes := fun _ => rfl
        byte := fun b _ h => byte_fast _ h b
        write := fun v _ => cs_fast_write v
        length := fun _ _ _ => rfl }

theorem java_writesAs (p : Java.Protocol) :
    WritesAs Java.StringHelper.encodeString p.format p.inCpp.writer p.structFits := by
  cases p with
  | compactBinary version =>
      exact {
        fieldBegin := fun type id h => java_compact_fieldBegin h id
        structEnd := rfl
        baseEnd := rfl
        containerBegin := fun count element hcount h =>
          java_compact_containerBegin hcount h version
        mapBegin := fun count key element _ =>
          congrArg ([key.toUInt8, element.toUInt8] ++ ·) (java_encodeVarUInt32_ofNat count)
        bytes := fun _ => rfl
        byte := fun b _ h => byte_compact _ h b
        write := java_compact_write
        length := fun s h hfits => by
          cases version with
          | v1 => rfl
          | v2 =>
              have hlength := (Java.CompactBinary.length_toInt_iff h).2 hfits
              obtain ⟨_, hsize⟩ := Java.CompactBinary.eq_size_of_toInt hlength
              show Java.VarUIntHelper.encodeVarUInt32 (s.length (Java.CompactBinary.format .v2)) = _
              rw [hsize]
              exact java_encodeVarUInt32_ofNat _ }
  | fastBinary =>
      exact {
        fieldBegin := fun _ _ _ => rfl
        structEnd := rfl
        baseEnd := rfl
        containerBegin := fun count element _ _ =>
          congrArg ([element.toUInt8] ++ ·) (java_encodeVarUInt32_ofNat count)
        mapBegin := fun count key element _ =>
          congrArg ([key.toUInt8, element.toUInt8] ++ ·) (java_encodeVarUInt32_ofNat count)
        bytes := fun _ => rfl
        byte := fun b _ h => byte_fast _ h b
        write := java_fast_write
        length := fun s _ _ => rfl }

end Bond.Interop

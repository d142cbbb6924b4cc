import Bond.Lib.Truncation
import Bond.Cpp.CompactBinary
import Bond.Cpp.FastBinary

set_option autoImplicit false

/-! # Inputs that are cut off

What the reads and the skips of an `InputBuffer` do where the buffer ends inside of what they are to
read: a read throws, while `Skip` leaves the buffer as it is. From these, what is done with values of
basic types and with the headers of both binary protocols. -/

namespace Bond.Cpp

open Decoder Varint InputBuffer

variable {n : Nat}

namespace InputBuffer

/-! ## Reads -/

theorem throws_eofException {α : Type} (size : Nat) (symbols : List UInt8) :
    Throws (eofException size : Reader α) symbols :=
  fun b _ => ⟨(.eof size b.pointer b.blob.length, b), rfl⟩

theorem throws_readUInt8 : Throws readUInt8 [] := by
  intro b hb
  have hlen := congrArg List.length hb
  rw [remaining_length, List.length_nil] at hlen
  have hle := b.pointer_le
  have heq : b.pointer = b.blob.length := by omega
  refine ⟨(.eof 1 b.pointer b.blob.length, b), ?_⟩
  simp only [StateT.run, readUInt8, dif_pos heq]
  rfl

theorem reads_readUInt8 (v : UInt8) : Reads n readUInt8 [v] v := by
  refine .of_throws (decodes_readUInt8 v) fun k hk => ?_
  obtain rfl : k = 0 := by simpa using hk
  exact throws_readUInt8

theorem throws_readBytes {size : Nat} {symbols : List UInt8} (h : symbols.length < size) :
    Throws (readBytes size) symbols := by
  intro b hb
  have hlen := congrArg List.length hb
  rw [remaining_length] at hlen
  refine ⟨(.eof size b.pointer b.blob.length, b), ?_⟩
  simp only [StateT.run, readBytes]
  rw [if_pos (by omega)]
  rfl

theorem reads_readBytes (bs : List UInt8) : Reads n (readBytes bs.length) bs bs := by
  refine .of_throws (decodes_readBytes bs) fun k hk => throws_readBytes ?_
  rw [List.length_take]
  omega

theorem reads_readUnsigned (size v : Nat) (h : v < 256 ^ size) :
    Reads n (readUnsigned size) (littleEndian size v) v := by
  refine .of_throws (decodes_readUnsigned size v h) fun k hk => ?_
  rw [littleEndian_length] at hk
  refine Throws.map (throws_readBytes ?_) ofLittleEndian
  rw [List.length_take, littleEndian_length]
  omega

/-- All bytes of a cut varint have their high bit set, so the loop goes on to the end of the buffer. -/
theorem throws_genericReadLoop (w : VarWidth) (left v value shift : Nat) {k : Nat}
    (hk : k < (varint v).length) :
    Throws (genericReadLoop w left value shift) ((varint v).take k) := by
  induction left generalizing v value shift k with
  | zero => exact throws_eofException 1 _
  | succ left ih =>
      rw [genericReadLoop]
      cases k with
      | zero => exact throws_readUInt8.bind
      | succ k =>
          have hlarge : ¬ v < 128 := by
            intro hlt
            rw [varint_of_lt hlt] at hk
            simp at hk
          have hmore : UInt8.ofNat (v % 128 + 128) ≥ 0x80 := by
            rw [ge_iff_le, UInt8.le_iff_toNat_le, varint_low_byte]
            simp
          rw [varint_of_ge hlarge] at hk ⊢
          rw [List.take_succ_cons, ← List.singleton_append]
          refine (decodes_readUInt8 _).bind_throws ?_
          simp only [hmore, if_true]
          exact ih _ _ _ (by simpa using hk)

theorem throws_readVariableUnsigned (w : VarWidth) {v : Nat} (hv : v < 2 ^ w.bits) {k : Nat}
    (hk : k < (varint v).length) : Throws (readVariableUnsigned w) ((varint v).take k) := by
  have hlen : (varint v).length ≤ w.sizeof * 8 / 7 + 1 := by
    refine varint_length_le _ v (Nat.succ_pos _) (Nat.lt_of_lt_of_le hv ?_)
    cases w <;> decide
  intro b hb
  have hleft := congrArg List.length hb
  rw [remaining_length, List.length_take, Nat.min_eq_left (Nat.le_of_lt hk)] at hleft
  -- too few bytes are left for the unrolled path
  obtain ⟨e, he⟩ := throws_genericReadLoop w b.remaining.length v 0 0 hk b hb
  refine ⟨e, ?_⟩
  simp only [StateT.run, readVariableUnsigned]
  rw [if_neg (by omega)]
  exact he

theorem reads_readVariableUnsigned (w : VarWidth) (v : Nat) (hv : v < 2 ^ w.bits) :
    Reads n (readVariableUnsigned w) (varint v) v :=
  .of_throws (decodes_readVariableUnsigned w v hv) fun _ hk => throws_readVariableUnsigned w hv hk

/-- A program that asks for the number of bytes left has a bound behind which no cut lies. -/
theorem throws_remainingLength {α : Type} {f : Nat → Reader α} {symbols : List UInt8}
    (h : Throws (f symbols.length) symbols) : Throws (remainingLength >>= f) symbols := by
  intro b hb
  obtain ⟨e, he⟩ := h b hb
  refine ⟨e, ?_⟩
  rw [← he, ← hb]
  rfl

theorem succeeds_remainingLength {α : Type} {f : Nat → Reader α} {symbols : List UInt8}
    (h : Succeeds (f symbols.length) symbols) : Succeeds (remainingLength >>= f) symbols := by
  intro b hb
  obtain ⟨r, hr⟩ := h b hb
  refine ⟨r, ?_⟩
  rw [← hr, ← hb]
  rfl

/-! ## Skips -/

theorem succeeds_skip (size : Nat) (symbols : List UInt8) :
    Succeeds (InputBuffer.skip size) symbols := by
  intro b _
  simp only [StateT.run, InputBuffer.skip]
  split
  · exact ⟨_, rfl⟩
  · exact ⟨_, rfl⟩

theorem succeeds_checkedMultiply_skip {size width : Nat} (h : size * width < 2 ^ 32)
    (symbols : List UInt8) : Succeeds (checkedMultiply size width >>= InputBuffer.skip) symbols := by
  rw [checkedMultiply, if_neg (by omega), pure_bind]
  exact succeeds_skip _ symbols

end InputBuffer

/-! ## Basic values -/

theorem reads_readFixed (v : BasicValue) (h : v.type.isString = false) :
    Reads n (readFixed v.type) (outputBytes (writeFixed v)) v := by
  refine .of_throws (decodes_readFixed v h) fun k hk => Throws.bind ?_
  rw [outputBytes_writeFixed, littleEndian_length] at hk
  rw [outputBytes_writeFixed]
  refine Throws.map (throws_readBytes ?_) ofLittleEndian
  rw [List.length_take, littleEndian_length]
  omega

theorem reads_readString (v : BasicValue) (h : v.type.isString = true) (hwf : v.wellFormed = true) :
    Reads n (readString v.type) (outputBytes (writeString v)) v := by
  have hlength : Reads n (readVariableUnsigned .w32) (varint v.stringLength) v.stringLength :=
    reads_readVariableUnsigned .w32 v.stringLength (stringLength_lt hwf)
  rw [outputBytes_writeString h hwf]
  cases v with
  | string units => exact hlength.bind ((reads_readBytes units).bind_return _)
  | wstring units =>
      have hunits : Reads (n - (varint units.length).length) _ _ _ := .repeatN units fun unit _ =>
        reads_readUnsigned 2 unit.toNat unit.toNat_lt
      have hread := hunits.bind_return fun units => BasicValue.wstring (units.map UInt16.ofNat)
      have hself : (units.map UInt16.toNat).map UInt16.ofNat = units := by
        simp [Function.comp_def]
      rw [hself] at hread
      exact hlength.bind hread
  | _ => simp [BasicValue.type, BasicType.isString] at h

/-- The code units of a string are skipped, its length is read. -/
def stringPassed (v : BasicValue) : List Bool :=
  unmarked (varint v.stringLength) ++ marked (stringData v)

theorem cut_skipString (v : BasicValue) (h : v.type.isString = true) (hwf : v.wellFormed = true) :
    Cut n (skipString v.type) (outputBytes (writeString v)) (stringPassed v) () := by
  have hlength : Reads n (readVariableUnsigned .w32) (varint v.stringLength) v.stringLength :=
    reads_readVariableUnsigned .w32 v.stringLength (stringLength_lt hwf)
  rw [outputBytes_writeString h hwf]
  cases v with
  | string units => exact Cut.bind hlength (.of_marked (decodes_skip units))
  | wstring units =>
      have hsize : units.length * 2 = (stringData (.wstring units)).length := by
        simp [stringData, List.length_flatMap]
      exact Cut.bind hlength (.of_marked (decodes_checkedMultiply_skip hsize))
  | _ => simp [BasicValue.type, BasicType.isString] at h

theorem slides_skipString (v : BasicValue) (h : v.type.isString = true) (hwf : v.wellFormed = true)
    (hlt : (outputBytes (writeString v)).length < 2 ^ 32) :
    Slides n (skipString v.type) (outputBytes (writeString v)) (stringPassed v) := by
  have hlength : Reads n (readVariableUnsigned .w32) (varint v.stringLength) v.stringLength :=
    reads_readVariableUnsigned .w32 v.stringLength (stringLength_lt hwf)
  have hpos := varint_length_pos v.stringLength
  rw [outputBytes_writeString h hwf, List.length_append] at hlt
  rw [outputBytes_writeString h hwf]
  refine .bind_unmarked hlength hpos fun _ => .of_succeeds fun symbols => ?_
  cases v with
  | string units => exact succeeds_skip _ symbols
  | wstring units =>
      have hsize : units.length * 2 = (stringData (.wstring units)).length := by
        simp [stringData, List.length_flatMap]
      have hdouble : (stringData (.wstring units)).length < 2 ^ 32 := by omega
      exact succeeds_checkedMultiply_skip (hsize ▸ hdouble) symbols
  | _ => simp [BasicValue.type, BasicType.isString] at h

/-! ## Values of a basic type in a row -/

/-- What is done with values of fixed size that are skipped at once. -/
theorem cut_skipFixed (type : BasicType) (vs : List BasicValue) (h : ∀ v ∈ vs, v.type = type) :
    Cut n (checkedMultiply vs.length type.sizeof >>= InputBuffer.skip)
      (vs.flatMap fun v => outputBytes (writeFixed v))
      (vs.flatMap fun v => marked (outputBytes (writeFixed v))) () := by
  have hmarked : (vs.flatMap fun v => marked (outputBytes (writeFixed v)))
      = marked (vs.flatMap fun v => outputBytes (writeFixed v)) := List.map_flatMap.symm
  rw [hmarked]
  exact .of_marked (decodes_checkedMultiply_skip (writeFixed_length type vs h))

theorem slides_skipFixed (type : BasicType) (vs : List BasicValue) (h : ∀ v ∈ vs, v.type = type)
    (hlt : (vs.flatMap fun v => outputBytes (writeFixed v)).length < 2 ^ 32) {passed : List Bool} :
    Slides n (checkedMultiply vs.length type.sizeof >>= InputBuffer.skip)
      (vs.flatMap fun v => outputBytes (writeFixed v)) passed := by
  rw [← writeFixed_length type vs h] at hlt
  exact .of_succeeds fun symbols => succeeds_checkedMultiply_skip hlt symbols

theorem cut_skipStrings (type : BasicType) (vs : List BasicValue) (htype : type.isString = true)
    (h : ∀ v ∈ vs, v.type = type ∧ v.wellFormed = true) :
    Cut n (repeatN vs.length (skipString type) >>= fun _ => pure ())
      (vs.flatMap fun v => outputBytes (writeString v)) (vs.flatMap stringPassed) () := by
  refine .repeatN_discard vs fun v hv => ?_
  obtain ⟨rfl, hwf⟩ := h v hv
  exact cut_skipString v htype hwf

theorem slides_skipStrings (type : BasicType) (vs : List BasicValue) (htype : type.isString = true)
    (h : ∀ v ∈ vs, v.type = type ∧ v.wellFormed = true)
    (hlt : (vs.flatMap fun v => outputBytes (writeString v)).length < 2 ^ 32) :
    Slides n (repeatN vs.length (skipString type) >>= fun _ => pure ())
      (vs.flatMap fun v => outputBytes (writeString v)) (vs.flatMap stringPassed) := by
  refine .repeatN_discard vs (fun v hv => ?_) fun v hv => ?_
  · obtain ⟨rfl, hwf⟩ := h v hv
    exact cut_skipString v htype hwf
  · obtain ⟨rfl, hwf⟩ := h v hv
    refine slides_skipString v htype hwf (Nat.lt_of_le_of_lt ?_ hlt)
    exact (List.sublist_flatten_of_mem
      (List.mem_map_of_mem (f := fun v => outputBytes (writeString v)) hv)).length_le

/-! ## Headers -/

theorem reads_stop {readFieldBegin : Reader (BondDataType × UInt16)}
    (hempty : Throws readFieldBegin []) {P : ProtocolWriter} (hP : DecodesFields P readFieldBegin)
    (base : Bool) :
    Reads n readFieldBegin (stopBytes base) (if base then .stopBase else .stop, 0) := by
  refine .of_throws (hP.end_ base) fun k hk => ?_
  obtain rfl : k = 0 := by simpa using hk
  exact hempty

namespace FastBinary

theorem reads_readType (type : BondDataType) (h : type.isValue = true) :
    Reads n readType (outputBytes (writeType type)) type := by
  have hread : Reads n readType (outputBytes (writeType type)) _ :=
    (reads_readUInt8 type.toUInt8).map BondDataType.ofUInt8
  rwa [BondDataType.ofUInt8_toUInt8 h] at hread

theorem reads_readFieldBegin (type : BondDataType) (id : UInt16) (h : type.isValue = true) :
    Reads n readFieldBegin (outputBytes (writeFieldBegin type id)) (type, id) := by
  have htype : type ≠ .stop ∧ type ≠ .stopBase := by
    constructor <;> rintro rfl <;> exact absurd h (by decide)
  have hid : Reads (n - (outputBytes (writeType type)).length) _ (littleEndian 2 id.toNat) _ :=
    (reads_readUnsigned 2 id.toNat id.toNat_lt).bind_return fun id => (type, UInt16.ofNat id)
  rw [UInt16.ofNat_toNat] at hid
  rw [writeFieldBegin, outputBytes_append, readFieldBegin]
  refine (reads_readType type h).bind ?_
  rw [if_pos htype, outputBytes_cons, outputBytes_nil, List.append_nil, bytes_write]
  exact hid

theorem reads_readContainerBegin (size : UInt32) (type : BondDataType) (h : type.isValue = true) :
    Reads n readContainerBegin (outputBytes (writeContainerBegin size type))
      (size.toNat, type) := by
  have hsize : Reads (n - (outputBytes (writeType type)).length) _ (varint size.toNat) _ :=
    (reads_readVariableUnsigned .w32 size.toNat size.toNat_lt).bind_return fun size => (size, type)
  rw [writeContainerBegin, outputBytes_append, readContainerBegin]
  refine (reads_readType type h).bind ?_
  simpa [VarUnsigned.toNat] using hsize

theorem reads_readContainerBeginPair (size : UInt32) (key element : BondDataType)
    (hkey : key.isValue = true) (helement : element.isValue = true) :
    Reads n readContainerBeginPair (outputBytes (writeContainerBeginPair size key element))
      (size.toNat, key, element) := by
  have hsize : Reads (n - (outputBytes (writeType key)).length
      - (outputBytes (writeType element)).length) _ (varint size.toNat) _ :=
    (reads_readVariableUnsigned .w32 size.toNat size.toNat_lt).bind_return
      fun size => (size, key, element)
  rw [writeContainerBeginPair, outputBytes_append, outputBytes_append, List.append_assoc,
    readContainerBeginPair]
  refine (reads_readType key hkey).bind ((reads_readType element helement).bind ?_)
  simpa [VarUnsigned.toNat] using hsize

theorem reads_read (value : BasicValue) (h : value.wellFormed = true) :
    Reads n (read value.type) (outputBytes (write value)) value := by
  rw [read, write]
  cases hstring : value.type.isString with
  | true => exact reads_readString value hstring h
  | false => exact reads_readFixed value hstring

end FastBinary

namespace CompactBinary

theorem reads_readFieldBegin (type : BondDataType) (id : UInt16) (h : type.isValue = true) :
    Reads n readFieldBegin (outputBytes (writeFieldBegin type id)) (type, id) := by
  have htype := BondDataType.toUInt8_lt h
  have hself := BondDataType.ofUInt8_toUInt8 h
  have hdecodes := decodes_readFieldBegin type id h
  rw [writeFieldBegin] at hdecodes ⊢
  split_ifs at hdecodes ⊢ with h5 hff
  · -- the id in the type byte
    rw [outputBytes_cons, outputBytes_nil, bytes_write, List.append_nil] at hdecodes ⊢
    refine .of_throws hdecodes fun k hk => ?_
    obtain rfl : k = 0 := by simpa using hk
    exact throws_readUInt8.bind
  · -- the id in a byte of its own
    have hid : id.toNat ≤ 0xff := UInt16.le_iff_toNat_le.1 hff
    obtain ⟨hlow, hhigh, -, -⟩ := packed type.toUInt8 6 htype (by decide)
    rw [outputBytes_cons, outputBytes_cons, outputBytes_nil, List.append_nil, bytes_write,
      bytes_write, readFieldBegin]
    refine (reads_readUInt8 _).bind ?_
    simp only [hlow, hhigh, hself]
    rw [if_neg (shift_ne (by decide) (by decide) (by decide)), if_pos trivial]
    have hread : Reads (n - 1) _ [id.toUInt8] _ :=
      (reads_readUInt8 id.toUInt8).bind_return fun raw => (type, raw.toUInt16)
    rwa [toUInt8_toUInt16 (by omega)] at hread
  · -- the id in two bytes
    obtain ⟨hlow, hhigh, -, -⟩ := packed type.toUInt8 7 htype (by decide)
    rw [outputBytes_cons, outputBytes_cons, outputBytes_nil, List.append_nil, bytes_write,
      bytes_write, readFieldBegin]
    refine (reads_readUInt8 _).bind ?_
    simp only [hlow, hhigh, hself]
    rw [if_pos trivial]
    have hread : Reads (n - 1) _ (littleEndian 2 id.toNat) _ :=
      (reads_readUnsigned 2 id.toNat id.toNat_lt).bind_return fun id => (type, UInt16.ofNat id)
    rwa [UInt16.ofNat_toNat] at hread

theorem reads_readContainerBegin (version : Version) (size : UInt32) (type : BondDataType)
    (h : type.isValue = true) :
    Reads n (readContainerBegin version) (outputBytes (writeContainerBegin version size type))
      (size.toNat, type) := by
  have htype := BondDataType.toUInt8_lt h
  have hself := BondDataType.ofUInt8_toUInt8 h
  have hdecodes := decodes_readContainerBegin version size type h
  rw [writeContainerBegin] at hdecodes ⊢
  split_ifs at hdecodes ⊢ with hshort
  · -- the count is packed into the type byte
    rw [outputBytes_cons, outputBytes_nil, bytes_write, List.append_nil] at hdecodes ⊢
    refine .of_throws hdecodes fun k hk => ?_
    obtain rfl : k = 0 := by simpa using hk
    exact throws_readUInt8.bind
  · -- the count follows
    obtain ⟨hlow, hhigh, -, -⟩ := packed type.toUInt8 0 htype (by decide)
    have hzero : type.toUInt8 ||| ((0 : UInt8) <<< 5) = type.toUInt8 := by simp
    rw [hzero] at hlow hhigh
    have hread : Reads (n - 1) _ (varint size.toNat) _ :=
      (reads_readVariableUnsigned .w32 size.toNat size.toNat_lt).bind_return
        fun size => (size, type)
    rw [outputBytes_cons, outputBytes_cons, outputBytes_nil, List.append_nil, bytes_write,
      bytes_writeVariableUnsigned, VarUnsigned.toNat, readContainerBegin]
    refine (reads_readUInt8 _).bind ?_
    simp only [hlow, hhigh, hself]
    rw [if_neg (by simp)]
    exact hread

theorem reads_readContainerBeginPair (size : UInt32) (key element : BondDataType)
    (hkey : key.isValue = true) (helement : element.isValue = true) :
    Reads n readContainerBeginPair (outputBytes (writeContainerBeginPair size key element))
      (size.toNat, key, element) := by
  have hread : Reads (n - 1 - 1) _ (varint size.toNat) _ :=
    (reads_readVariableUnsigned .w32 size.toNat size.toNat_lt).bind_return
      fun size => (size, key, element)
  rw [writeContainerBeginPair, readContainerBeginPair, outputBytes_cons, outputBytes_cons,
    outputBytes_cons, outputBytes_nil, List.append_nil, bytes_write, bytes_write,
    bytes_writeVariableUnsigned, VarUnsigned.toNat]
  refine (reads_readUInt8 _).bind ((reads_readUInt8 _).bind ?_)
  simp only [BondDataType.ofUInt8_toUInt8 hkey, BondDataType.ofUInt8_toUInt8 helement]
  exact hread

theorem reads_readStructBegin (version : Version) (length : UInt32) :
    Reads n (readStructBegin version false) (outputBytes (lengthBegin version length)) () := by
  cases version with
  | v1 => exact .pure ()
  | v2 =>
      have hread : Reads n _ (varint length.toNat) _ :=
        (reads_readVariableUnsigned .w32 length.toNat length.toNat_lt).bind_return fun _ => ()
      simpa [readStructBegin, lengthBegin, VarUnsigned.toNat] using hread

/-- A value that is written as a variable-length integer. -/
theorem reads_skipVarUnsigned (u : VarUnsigned) :
    Reads n (readVariableUnsigned .w64 >>= fun _ => pure ()) (varint u.toNat) () := by
  have hlt : u.toNat < 2 ^ VarWidth.w64.bits :=
    Nat.lt_of_lt_of_le u.toNat_lt (by cases u.width <;> decide)
  exact (reads_readVariableUnsigned .w64 u.toNat hlt).bind_return fun _ => ()

theorem reads_read (value : BasicValue) (h : value.wellFormed = true) :
    Reads n (read value.type) (outputBytes (write value)) value := by
  have hdecodes := decodes_read value h
  have hvar {u : VarUnsigned} (hu : varUnsigned value = some u)
      {convert : Nat → BasicValue}
      (hread : read value.type = readVariableUnsigned u.width >>= fun n => pure (convert n)) :
      Reads n (read value.type) (outputBytes (write value)) value := by
    refine .of_throws hdecodes fun k hk => ?_
    rw [outputBytes_write hu] at hk ⊢
    rw [hread]
    exact (throws_readVariableUnsigned u.width u.toNat_lt hk).bind
  cases value with
  | uint16 v => exact hvar rfl rfl
  | uint32 v => exact hvar rfl rfl
  | uint64 v => exact hvar rfl rfl
  | int16 v => exact hvar rfl rfl
  | int32 v => exact hvar rfl rfl
  | int64 v => exact hvar rfl rfl
  | string units => exact reads_readString (.string units) rfl h
  | wstring units => exact reads_readString (.wstring units) rfl h
  | bool v => exact reads_readFixed (.bool v) rfl
  | uint8 v => exact reads_readFixed (.uint8 v) rfl
  | int8 v => exact reads_readFixed (.int8 v) rfl
  | float bits => exact reads_readFixed (.float bits) rfl
  | double bits => exact reads_readFixed (.double bits) rfl

end CompactBinary

end Bond.Cpp

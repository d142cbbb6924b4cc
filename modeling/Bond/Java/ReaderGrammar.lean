import Bond.Java.BinaryReaders

set_option autoImplicit false

/-! # The readers of Java read what its writers write

Each method of `CompactBinaryReader` and `FastBinaryReader` on what the method of the writer for it
writes, and the parts of their `skip`. -/

namespace Bond.Java

open Bond.Cpp (BondDataType BasicType)
open Bond.Cpp.CompactBinary (Version packed toUInt8_toUInt16)
open Bond.Lib Bond.Managed
open Decoder Varint
open VarUIntHelper ZigzagHelper StringHelper BinaryStreamReader

/-! ## Values of basic types -/

/-- The values that both protocols write as bytes or as bits of a fixed width. -/
theorem decodes_readBool (v : Bool) :
    Decodes readBool [if v then 1 else 0] (pure v) := by
  have hread := (decodes_readInt8 (if v then 1 else 0)).bind_return fun b => decide (b ≠ 0)
  have hvalue : decide ((if v then (1 : UInt8) else 0) ≠ 0) = v := by
    cases v <;> rfl
  rwa [hvalue] at hread

theorem decodes_map_readBits {β : Type} (size n : Nat) (h : n < 256 ^ size) (f : Nat → β) :
    Decodes (f <$> readBits size) (littleEndian size n) (pure (f n)) :=
  (decodes_readBits size n h).map f

/-- A skip of a fixed number of bytes. -/
theorem decodes_skipBytes_of_length (size : Nat) {bs : List UInt8} (h : bs.length = size) :
    Decodes (skipBytes size) bs (pure ()) :=
  h ▸ decodes_skipBytes bs

namespace CompactBinary

theorem decodes_read (v : BasicValue) (h : v.wellFormed encodeString = true) :
    Decodes (read v.type) (write v) (pure v.onWire) := by
  cases v with
  | bool v => exact (decodes_readBool v).map Bond.Cpp.BasicValue.bool
  | uint8 v => exact (decodes_readInt8 v).map Bond.Cpp.BasicValue.uint8
  | uint16 v => exact (decodes_decodeVarUInt16 v.toInt16).map _
  | uint32 v => exact (decodes_decodeVarUInt32 v.toInt32).map _
  | uint64 v => exact (decodes_decodeVarUInt64 v.toInt64).map _
  | float bits =>
      have hread := decodes_map_readBits 4 bits.toNat bits.toNat_lt
        fun n => Bond.Cpp.BasicValue.float (UInt32.ofNat n)
      rwa [UInt32.ofNat_toNat] at hread
  | double bits =>
      have hread := decodes_map_readBits 8 bits.toNat bits.toNat_lt
        fun n => Bond.Cpp.BasicValue.double (UInt64.ofNat n)
      rwa [UInt64.ofNat_toNat] at hread
  | string chars =>
      simp only [BasicValue.wellFormed, Bool.and_eq_true, decide_eq_true_eq] at h
      exact (decodes_readString h.2).map Bond.Cpp.BasicValue.string
  | int8 v => exact (decodes_readInt8 v.toUInt8).map _
  | int16 v =>
      have hread := (decodes_decodeVarUInt16 (encodeZigzag16 v)).map
        fun v => Bond.Cpp.BasicValue.int16 (decodeZigzag16 v)
      rwa [map_pure, decodeZigzag16_encodeZigzag16] at hread
  | int32 v =>
      have hread := (decodes_decodeVarUInt32 (encodeZigzag32 v)).map
        fun v => Bond.Cpp.BasicValue.int32 (decodeZigzag32 v)
      rwa [map_pure, decodeZigzag32_encodeZigzag32] at hread
  | int64 v =>
      have hread := (decodes_decodeVarUInt64 (encodeZigzag64 v)).map
        fun v => Bond.Cpp.BasicValue.int64 (decodeZigzag64 v)
      rwa [map_pure, decodeZigzag64_encodeZigzag64] at hread
  | wstring chars =>
      simp only [BasicValue.wellFormed, decide_eq_true_eq] at h
      exact (decodes_readWString h).map fun bytes => Bond.Cpp.BasicValue.wstring (units bytes)

theorem decodes_skipBasic (v : BasicValue) (h : v.wellFormed encodeString = true) :
    Decodes (skipBasic v.type) (write v) (pure ()) := by
  cases v with
  | bool v => exact decodes_skipBytes_of_length 1 rfl
  | uint8 v => exact decodes_skipBytes_of_length 1 rfl
  | int8 v => exact decodes_skipBytes_of_length 1 rfl
  | float bits => exact decodes_skipBytes_of_length 4 (littleEndian_length 4 _)
  | double bits => exact decodes_skipBytes_of_length 8 (littleEndian_length 8 _)
  | uint16 v => exact (decodes_decodeVarUInt16 v.toInt16).map fun _ => ()
  | uint32 v => exact (decodes_decodeVarUInt32 v.toInt32).map fun _ => ()
  | uint64 v => exact (decodes_decodeVarUInt64 v.toInt64).map fun _ => ()
  | int16 v => exact (decodes_decodeVarUInt16 (encodeZigzag16 v)).map fun _ => ()
  | int32 v => exact (decodes_decodeVarUInt32 (encodeZigzag32 v)).map fun _ => ()
  | int64 v => exact (decodes_decodeVarUInt64 (encodeZigzag64 v)).map fun _ => ()
  | string chars =>
      simp only [BasicValue.wellFormed, Bool.and_eq_true, decide_eq_true_eq] at h
      exact decodes_skipString h.2
  | wstring chars =>
      simp only [BasicValue.wellFormed, decide_eq_true_eq] at h
      exact decodes_skipWString h

theorem write_length (v : BasicValue) (h : 0 < getFixedTypeWidth (.basic v.type)) :
    (write v).length = getFixedTypeWidth (.basic v.type) := by
  cases v with
  | bool | uint8 | int8 => rfl
  | float | double => exact littleEndian_length _ _
  | _ => cases h

/-! ## Headers of Compact Binary -/

/-- What the writer packs into a byte by way of an `int`. -/
theorem packed_int {type : BondDataType} (h : type.isValue = true) (high : Nat) (hhigh : high < 8) :
    (type.toUInt8.toUInt32 ||| (UInt32.ofNat high <<< 5)).toUInt8
      = type.toUInt8 ||| (UInt8.ofNat high <<< 5) := by
  have hall : ∀ t < 32, ∀ high < 8,
      ((UInt8.ofNat t).toUInt32 ||| (UInt32.ofNat high <<< 5)).toUInt8
        = UInt8.ofNat t ||| (UInt8.ofNat high <<< 5) := by decide +kernel
  have hthis := hall type.toUInt8.toNat (BondDataType.toUInt8_lt h) high hhigh
  rwa [UInt8.ofNat_toNat] at hthis

/-- The three forms of a field header. -/
theorem writeFieldBegin_eq {type : BondDataType} (h : type.isValue = true) (id : UInt16) :
    writeFieldBegin type id = if id ≤ 5 then [type.toUInt8 ||| (UInt8.ofNat id.toNat <<< 5)]
      else if id ≤ 0xFF then [type.toUInt8 ||| ((6 : UInt8) <<< 5), id.toUInt8]
      else (type.toUInt8 ||| ((7 : UInt8) <<< 5)) :: littleEndian 2 id.toNat := by
  unfold writeFieldBegin
  dsimp only
  split_ifs with h5 hff
  · have hid : id.toNat ≤ 5 := UInt16.le_iff_toNat_le.1 h5
    have hvalue : id.toUInt32 = UInt32.ofNat id.toNat := by
      apply UInt32.toNat_inj.1
      rw [UInt16.toNat_toUInt32, UInt32.toNat_ofNat_of_lt' (Nat.lt_of_le_of_lt hid (by decide))]
    rw [hvalue, packed_int h id.toNat (by omega)]
  · have hsix : (0xC0 : UInt32) = UInt32.ofNat 6 <<< 5 := by decide
    rw [hsix, packed_int h 6 (by decide)]
    rfl
  · have hseven : (0xE0 : UInt32) = UInt32.ofNat 7 <<< 5 := by decide
    rw [hseven, packed_int h 7 (by decide)]
    rfl

theorem embeddedId_ne {id : UInt16} (h : id ≤ 5) :
    UInt8.ofNat id.toNat ≠ 6 ∧ UInt8.ofNat id.toNat ≠ 7 ∧
      (UInt8.ofNat id.toNat).toUInt16 = id ∧ (UInt8.ofNat id.toNat).toNat < 8 := by
  have hid : id.toNat ≤ 5 := UInt16.le_iff_toNat_le.1 h
  have hvalue : (UInt8.ofNat id.toNat).toNat = id.toNat := by
    rw [UInt8.toNat_ofNat']
    omega
  refine ⟨fun heq => ?_, fun heq => ?_, ?_, by omega⟩
  · rw [heq] at hvalue
    have hsix : (6 : UInt8).toNat = 6 := rfl
    omega
  · rw [heq] at hvalue
    have hseven : (7 : UInt8).toNat = 7 := rfl
    omega
  · apply UInt16.toNat_inj.1
    rw [UInt8.toNat_toUInt16, hvalue]

theorem decodes_readFieldBegin {type : BondDataType} (id : UInt16) (h : type.isValue = true) :
    Decodes readFieldBegin (writeFieldBegin type id) (pure (type, id)) := by
  have htype := BondDataType.toUInt8_lt h
  have hself := BondDataType.ofUInt8_toUInt8 h
  rw [writeFieldBegin_eq h, readFieldBegin]
  split_ifs with h5 hff
  · obtain ⟨hsix, hseven, hid, hsmall⟩ := embeddedId_ne h5
    obtain ⟨hlow, -, hhigh, -⟩ := packed type.toUInt8 (UInt8.ofNat id.toNat) htype hsmall
    rw [← List.append_nil [_]]
    refine (decodes_readInt8 _).bind_pure ?_
    simp only [hlow, hhigh, hself]
    rw [if_neg hsix, if_neg hseven, hid]
    exact Decodes.pure _
  · have hid : id.toNat ≤ 0xFF := UInt16.le_iff_toNat_le.1 hff
    obtain ⟨hlow, -, hhigh, -⟩ := packed type.toUInt8 6 htype (by decide)
    rw [← List.singleton_append]
    refine (decodes_readInt8 _).bind_pure ?_
    simp only [hlow, hhigh, hself]
    rw [if_pos trivial]
    have hread := (decodes_readInt8 id.toUInt8).bind_return fun raw => (type, raw.toUInt16)
    rwa [toUInt8_toUInt16 (by omega)] at hread
  · obtain ⟨hlow, -, hhigh, -⟩ := packed type.toUInt8 7 htype (by decide)
    rw [← List.singleton_append]
    refine (decodes_readInt8 _).bind_pure ?_
    simp only [hlow, hhigh, hself]
    rw [if_neg (by decide), if_pos trivial]
    have hread := (decodes_readBits 2 id.toNat id.toNat_lt).bind_return
      fun id => (type, UInt16.ofNat id)
    rwa [UInt16.ofNat_toNat] at hread

theorem decodes_skipFieldBegin {type : BondDataType} (id : UInt16) (h : type.isValue = true) :
    Decodes skipFieldBegin (writeFieldBegin type id) (pure type) := by
  have htype := BondDataType.toUInt8_lt h
  have hself := BondDataType.ofUInt8_toUInt8 h
  rw [writeFieldBegin_eq h, skipFieldBegin]
  split_ifs with h5 hff
  · obtain ⟨hsix, hseven, -, hsmall⟩ := embeddedId_ne h5
    obtain ⟨hlow, -, hhigh, -⟩ := packed type.toUInt8 (UInt8.ofNat id.toNat) htype hsmall
    rw [← List.append_nil [_]]
    refine (decodes_readInt8 _).bind_pure ?_
    simp only [hlow, hhigh, hself]
    rw [if_neg hsix, if_neg hseven]
    exact Decodes.pure _
  · obtain ⟨hlow, -, hhigh, -⟩ := packed type.toUInt8 6 htype (by decide)
    rw [← List.singleton_append]
    refine (decodes_readInt8 _).bind_pure ?_
    simp only [hlow, hhigh, hself]
    rw [if_pos trivial]
    exact (decodes_skipBytes_of_length 1 rfl).bind_return fun _ => type
  · obtain ⟨hlow, -, hhigh, -⟩ := packed type.toUInt8 7 htype (by decide)
    rw [← List.singleton_append]
    refine (decodes_readInt8 _).bind_pure ?_
    simp only [hlow, hhigh, hself]
    rw [if_neg (by decide), if_pos trivial]
    exact (decodes_skipBytes_of_length 2 (littleEndian_length 2 _)).bind_return
      fun _ => type

theorem decodes_readListBegin (protocolVersion : Version) {count : Nat} {element : BondDataType}
    (hcount : count < 2 ^ 31) (helement : element.isValue = true) :
    Decodes (readListBegin protocolVersion)
      (writeContainerBegin protocolVersion (Int32.ofNat count) element)
      (pure (element, Int32.ofNat count)) := by
  have htype := BondDataType.toUInt8_lt helement
  have hself := BondDataType.ofUInt8_toUInt8 helement
  have hlt : Int32.ofNat count < 7 ↔ count < 7 := by
    rw [Int32.lt_iff_toInt_lt, Int32.toInt_ofNat_of_lt hcount]
    show (count : Int) < 7 ↔ count < 7
    omega
  unfold writeContainerBegin readListBegin
  by_cases hshort : protocolVersion = .v2 ∧ Int32.ofNat count < 7
  · -- the count is in the byte of the type
    have hsmall : count < 7 := hlt.1 hshort.2
    have hpack : ∀ n < 7, ((Int32.ofNat n + 1) <<< 5).toUInt32 = UInt32.ofNat (n + 1) <<< 5 := by
      decide +kernel
    have hhigh8 : ∀ n < 7, (UInt8.ofNat (n + 1)).toNat < 8 ∧ UInt8.ofNat (n + 1) <<< 5 ≠ 0 ∧
        Int32.ofNat (UInt8.ofNat (n + 1)).toNat - 1 = Int32.ofNat n := by decide +kernel
    obtain ⟨hhigh, hnonzero, hback⟩ := hhigh8 count hsmall
    obtain ⟨hlow, hmask, hshift, -⟩ := packed element.toUInt8 (UInt8.ofNat (count + 1)) htype hhigh
    have hfield : (0x07 : UInt8) <<< 5 = 0xE0 := by decide
    rw [hfield] at hmask
    rw [if_pos hshort, hpack count hsmall, packed_int helement (count + 1) (by omega),
      ← List.append_nil [_]]
    refine (decodes_readInt8 _).bind_pure ?_
    simp only [hlow, hmask, hshift, hself]
    rw [if_pos ⟨hshort.1, hnonzero⟩, hback]
    exact Decodes.pure _
  · -- the count follows
    obtain ⟨hlow, hmask, -, -⟩ := packed element.toUInt8 0 htype (by decide)
    have hzero : element.toUInt8 ||| ((0 : UInt8) <<< 5) = element.toUInt8 := by simp
    have hfield : (0x07 : UInt8) <<< 5 = 0xE0 := by decide
    rw [hzero, hfield] at hmask
    rw [hzero] at hlow
    rw [if_neg hshort, ← List.singleton_append]
    refine (decodes_readInt8 _).bind_pure ?_
    simp only [hlow, hmask, hself]
    rw [if_neg (by simp)]
    exact (decodes_decodeVarUInt32 _).bind_return fun count => (element, count)

theorem reader_grammar (protocolVersion : Version) :
    Grammar (reader protocolVersion) (format protocolVersion) where
  structBegin length := by
    cases protocolVersion with
    | v1 => exact Decodes.pure ()
    | v2 => exact (decodes_decodeVarUInt32 length).bind_return fun _ => ()
  fieldBegin type id h := decodes_readFieldBegin id h
  structEnd := by
    show Decodes readFieldBegin [0] _
    rw [readFieldBegin, ← List.append_nil [_]]
    exact (decodes_readInt8 0).bind_pure (Decodes.pure _)
  baseEnd := by
    show Decodes readFieldBegin [1] _
    rw [readFieldBegin, ← List.append_nil [_]]
    exact (decodes_readInt8 1).bind_pure (Decodes.pure _)
  listBegin count element hcount helement :=
    decodes_readListBegin protocolVersion hcount helement
  mapBegin count key element _ hkey helement := decodes_readMapBegin _ hkey helement
  read := decodes_read
  bytes _ := rfl
  byte b element h := by
    rcases h with rfl | rfl <;> rfl
  readBytes _ := rfl
  structEnd_pos := Nat.one_pos
  baseEnd_pos := Nat.one_pos
  fieldBegin_pos type id := by
    show 0 < (writeFieldBegin type id).length
    rw [writeFieldBegin_length]
    split_ifs <;> decide
  listBegin_pos count element := by
    show 0 < (writeContainerBegin protocolVersion count element).length
    unfold writeContainerBegin
    split_ifs <;> simp
  mapBegin_pos count key element := by
    show 0 < (writeMapBegin count key element).length
    simp [writeMapBegin]

end CompactBinary

/-! ## Fast Binary -/

namespace FastBinary

theorem decodes_read (v : BasicValue) (h : v.wellFormed encodeString = true) :
    Decodes (read v.type) (write v) (pure v.onWire) := by
  cases v with
  | bool v => exact (decodes_readBool v).map Bond.Cpp.BasicValue.bool
  | uint8 v => exact (decodes_readInt8 v).map Bond.Cpp.BasicValue.uint8
  | uint16 v =>
      have hread := decodes_map_readBits 2 v.toNat v.toNat_lt
        fun n => Bond.Cpp.BasicValue.uint16 (UInt16.ofNat n)
      rwa [UInt16.ofNat_toNat] at hread
  | uint32 v =>
      have hread := decodes_map_readBits 4 v.toNat v.toNat_lt
        fun n => Bond.Cpp.BasicValue.uint32 (UInt32.ofNat n)
      rwa [UInt32.ofNat_toNat] at hread
  | uint64 v =>
      have hread := decodes_map_readBits 8 v.toNat v.toNat_lt
        fun n => Bond.Cpp.BasicValue.uint64 (UInt64.ofNat n)
      rwa [UInt64.ofNat_toNat] at hread
  | float bits =>
      have hread := decodes_map_readBits 4 bits.toNat bits.toNat_lt
        fun n => Bond.Cpp.BasicValue.float (UInt32.ofNat n)
      rwa [UInt32.ofNat_toNat] at hread
  | double bits =>
      have hread := decodes_map_readBits 8 bits.toNat bits.toNat_lt
        fun n => Bond.Cpp.BasicValue.double (UInt64.ofNat n)
      rwa [UInt64.ofNat_toNat] at hread
  | string chars =>
      simp only [BasicValue.wellFormed, Bool.and_eq_true, decide_eq_true_eq] at h
      exact (decodes_readString h.2).map Bond.Cpp.BasicValue.string
  | int8 v => exact (decodes_readInt8 v.toUInt8).map _
  | int16 v =>
      have hvalue : Int16.ofNat v.toUInt16.toNat = v :=
        congrArg UInt16.toInt16 (UInt16.ofNat_toNat (x := v.toUInt16))
      have hread := decodes_map_readBits 2 v.toUInt16.toNat v.toUInt16.toNat_lt
        fun n => Bond.Cpp.BasicValue.int16 (Int16.ofNat n)
      rwa [hvalue] at hread
  | int32 v =>
      have hvalue : Int32.ofNat v.toUInt32.toNat = v :=
        congrArg UInt32.toInt32 (UInt32.ofNat_toNat (x := v.toUInt32))
      have hread := decodes_map_readBits 4 v.toUInt32.toNat v.toUInt32.toNat_lt
        fun n => Bond.Cpp.BasicValue.int32 (Int32.ofNat n)
      rwa [hvalue] at hread
  | int64 v =>
      have hvalue : Int64.ofNat v.toUInt64.toNat = v :=
        congrArg UInt64.toInt64 (UInt64.ofNat_toNat (x := v.toUInt64))
      have hread := decodes_map_readBits 8 v.toUInt64.toNat v.toUInt64.toNat_lt
        fun n => Bond.Cpp.BasicValue.int64 (Int64.ofNat n)
      rwa [hvalue] at hread
  | wstring chars =>
      simp only [BasicValue.wellFormed, decide_eq_true_eq] at h
      exact (decodes_readWString h).map fun bytes => Bond.Cpp.BasicValue.wstring (units bytes)

theorem write_length (v : BasicValue) (h : 0 < getFixedTypeWidth (.basic v.type)) :
    (write v).length = getFixedTypeWidth (.basic v.type) := by
  cases v with
  | bool | uint8 | int8 => rfl
  | uint16 | int16 => exact littleEndian_length _ _
  | uint32 | int32 | float => exact littleEndian_length _ _
  | uint64 | int64 | double => exact littleEndian_length _ _
  | _ => cases h

/-- A value of fixed width is skipped by its width. -/
theorem decodes_skipBasic (v : BasicValue) (h : v.wellFormed encodeString = true) :
    Decodes (skipBasic v.type) (write v) (pure ()) := by
  have hfixed (hwidth : 0 < getFixedTypeWidth (.basic v.type)) :
      Decodes (skipBytes (getFixedTypeWidth (.basic v.type))) (write v) (pure ()) :=
    decodes_skipBytes_of_length _ (write_length v hwidth)
  cases v with
  | string chars =>
      simp only [BasicValue.wellFormed, Bool.and_eq_true, decide_eq_true_eq] at h
      exact decodes_skipString h.2
  | wstring chars =>
      simp only [BasicValue.wellFormed, decide_eq_true_eq] at h
      exact decodes_skipWString h
  | _ => exact hfixed (by simp [BasicValue.type, getFixedTypeWidth])

theorem decodes_readFieldBegin {type : BondDataType} (id : UInt16) (h : type.isValue = true) :
    Decodes readFieldBegin (writeFieldBegin type id) (pure (type, id)) := by
  have htype : type ≠ .stop ∧ type ≠ .stopBase := by
    constructor
    · rintro rfl
      cases h
    · rintro rfl
      cases h
  unfold readFieldBegin writeFieldBegin
  rw [← List.singleton_append]
  refine (decodes_readType h).bind_pure ?_
  rw [if_pos htype]
  have hread := (decodes_readBits 2 id.toNat id.toNat_lt).bind_return
    fun id => (type, UInt16.ofNat id)
  rwa [UInt16.ofNat_toNat] at hread

theorem decodes_skipFieldBegin {type : BondDataType} (id : UInt16) (h : type.isValue = true) :
    Decodes skipFieldBegin (writeFieldBegin type id) (pure type) := by
  have htype : ¬ (type = .stopBase ∨ type = .stop) := by
    rintro (rfl | rfl)
    · cases h
    · cases h
  unfold skipFieldBegin writeFieldBegin
  rw [← List.singleton_append]
  refine (decodes_readType h).bind_pure ?_
  rw [if_neg htype]
  exact (decodes_skipBytes_of_length 2 (littleEndian_length 2 _)).bind_return
    fun _ => type

theorem reader_grammar : Grammar reader format where
  structBegin _ := Decodes.pure ()
  fieldBegin type id h := decodes_readFieldBegin id h
  structEnd := by
    show Decodes readFieldBegin [0] _
    rw [readFieldBegin, ← List.append_nil [_]]
    exact ((decodes_readInt8 0).map BondDataType.ofUInt8).bind_pure (Decodes.pure _)
  baseEnd := by
    show Decodes readFieldBegin [1] _
    rw [readFieldBegin, ← List.append_nil [_]]
    exact ((decodes_readInt8 1).map BondDataType.ofUInt8).bind_pure (Decodes.pure _)
  listBegin count element _ helement := by
    show Decodes readListBegin (writeContainerBegin _ element) _
    unfold readListBegin writeContainerBegin
    rw [← List.singleton_append]
    refine (decodes_readType helement).bind_pure ?_
    exact (decodes_decodeVarUInt32 _).bind_return fun count => (element, count)
  mapBegin count key element _ hkey helement := decodes_readMapBegin _ hkey helement
  read := decodes_read
  bytes _ := rfl
  byte b element h := by
    rcases h with rfl | rfl <;> rfl
  readBytes _ := rfl
  structEnd_pos := Nat.one_pos
  baseEnd_pos := Nat.one_pos
  fieldBegin_pos type id := Nat.succ_pos _
  listBegin_pos count element := Nat.succ_pos _
  mapBegin_pos count key element := Nat.succ_pos _

end FastBinary

end Bond.Java

import Bond.Cpp.OutputBuffer
import Bond.Cpp.Types

set_option autoImplicit false

/-! # Basic values on streams

How both binary protocols write values of fixed size (`Write(const T&)` of a stream) and the code
units of strings (`WriteStringData`, cpp/inc/bond/protocol/encoding.h), and how they read them
back. -/

namespace Bond.Cpp

open Decoder Varint InputBuffer

/-! ## Values of fixed size -/

/-- `sizeof(T)`; strings have no fixed size. -/
def BasicType.sizeof : BasicType → Nat
  | .bool | .uint8 | .int8 => 1
  | .uint16 | .int16 => 2
  | .uint32 | .int32 | .float => 4
  | .uint64 | .int64 | .double => 8
  | .string | .wstring => 0

/-- The representation of a value of fixed size as an unsigned integer. -/
def BasicValue.bits : BasicValue → Nat
  | .bool v => v.toNat
  | .uint8 v => v.toNat
  | .uint16 v => v.toNat
  | .uint32 v => v.toNat
  | .uint64 v => v.toNat
  | .float bits => bits.toNat
  | .double bits => bits.toNat
  | .int8 v => v.toUInt8.toNat
  | .int16 v => v.toUInt16.toNat
  | .int32 v => v.toUInt32.toNat
  | .int64 v => v.toUInt64.toNat
  | .string _ | .wstring _ => 0

/-- The value of a type of fixed size with a representation. -/
def BasicType.ofBits : BasicType → Nat → BasicValue
  | .bool, n => .bool (n != 0)
  | .uint8, n => .uint8 (UInt8.ofNat n)
  | .uint16, n => .uint16 (UInt16.ofNat n)
  | .uint32, n => .uint32 (UInt32.ofNat n)
  | .uint64, n => .uint64 (UInt64.ofNat n)
  | .float, n => .float (UInt32.ofNat n)
  | .double, n => .double (UInt64.ofNat n)
  | .int8, n => .int8 (UInt8.ofNat n).toInt8
  | .int16, n => .int16 (UInt16.ofNat n).toInt16
  | .int32, n => .int32 (UInt32.ofNat n).toInt32
  | .int64, n => .int64 (UInt64.ofNat n).toInt64
  | .string, _ => .string []
  | .wstring, _ => .wstring []

def BasicType.isString : BasicType → Bool
  | .string | .wstring => true
  | _ => false

theorem BasicValue.bits_lt (v : BasicValue) : v.bits < 256 ^ v.type.sizeof := by
  cases v with
  | bool v => cases v <;> decide
  | string | wstring => simp [bits, type, BasicType.sizeof]
  | uint8 | int8 => exact UInt8.toNat_lt _
  | uint16 | int16 => exact UInt16.toNat_lt _
  | uint32 | int32 | float => exact UInt32.toNat_lt _
  | uint64 | int64 | double => exact UInt64.toNat_lt _

theorem BasicValue.ofBits_bits {v : BasicValue} (h : v.type.isString = false) :
    v.type.ofBits v.bits = v := by
  cases v with
  | string | wstring => simp [type, BasicType.isString] at h
  | bool v => cases v <;> rfl
  | _ => simp [type, BasicType.ofBits, bits]

/-- `Write(const T&)` -/
def writeFixed (v : BasicValue) : List OutputCall :=
  [.write (littleEndian v.type.sizeof v.bits)]

/-- `Read(T&)`. A `bool` of any other representation than 0 and 1 must not be looked at. -/
def readFixed (type : BasicType) : Reader BasicValue := do
  let n ← readUnsigned type.sizeof
  if type = .bool ∧ n > 1 then
    bondThrow .undefinedBehavior
  else
    return type.ofBits n

theorem outputBytes_writeFixed (v : BasicValue) :
    outputBytes (writeFixed v) = littleEndian v.type.sizeof v.bits := by
  simp [outputBytes, writeFixed, OutputCall.bytes]

theorem writeFixed_length (type : BasicType) (vs : List BasicValue) (h : ∀ v ∈ vs, v.type = type) :
    vs.length * type.sizeof = (vs.flatMap fun v => outputBytes (writeFixed v)).length := by
  induction vs with
  | nil => simp
  | cons v vs ih =>
      have hv := h v List.mem_cons_self
      rw [List.flatMap_cons, List.length_append, outputBytes_writeFixed, littleEndian_length, hv,
        ← ih fun v' hv' => h v' (List.mem_cons_of_mem v hv'), List.length_cons, Nat.succ_mul,
        Nat.add_comm]

theorem decodes_readFixed (v : BasicValue) (h : v.type.isString = false) :
    Decodes (readFixed v.type) (outputBytes (writeFixed v)) (pure v) := by
  have hbool : ¬ (v.type = .bool ∧ v.bits > 1) := by
    rintro ⟨htype, hbits⟩
    cases v with
    | bool v => cases v <;> simp [BasicValue.bits] at hbits
    | _ => simp [BasicValue.type] at htype
  rw [outputBytes_writeFixed, readFixed, ← List.append_nil (littleEndian _ _)]
  refine (decodes_readUnsigned v.type.sizeof v.bits v.bits_lt).bind_pure ?_
  rw [if_neg hbool, BasicValue.ofBits_bits h]
  exact Decodes.pure v

/-! ## Strings -/

/-- The length and the code units of a string; `WriteStringData` writes a `wchar_t` at a time where
    that is wider than a code unit. -/
def writeString : BasicValue → List OutputCall
  | .string units =>
      [.writeVariableUnsigned (.uint32 (UInt32.ofNat units.length)), .write units]
  | .wstring units =>
      .writeVariableUnsigned (.uint32 (UInt32.ofNat units.length))
        :: units.map fun unit => .write (littleEndian 2 unit.toNat)
  | _ => []

/-- `Read` for strings, with `ReadStringData` -/
def readString (type : BasicType) : Reader BasicValue := do
  let length ← readVariableUnsigned .w32
  match type with
  | .wstring => do
      let units ← repeatN length (readUnsigned 2)
      return .wstring (units.map UInt16.ofNat)
  | _ => do
      let units ← readBytes length
      return .string units

/-- `SkipType` for strings: the size of the code units is checked for overflow only where it is
    not one. -/
def skipString (type : BasicType) : Reader Unit := do
  let length ← readVariableUnsigned .w32
  match type with
  | .wstring => checkedMultiply length 2 >>= InputBuffer.skip
  | _ => InputBuffer.skip length

/-- The bytes of a string's code units. -/
def stringData : BasicValue → List UInt8
  | .string units => units
  | .wstring units => units.flatMap fun unit => littleEndian 2 unit.toNat
  | _ => []

/-- The number of a string's code units. -/
def BasicValue.stringLength : BasicValue → Nat
  | .string units => units.length
  | .wstring units => units.length
  | _ => 0

theorem outputBytes_writeString {v : BasicValue} (h : v.type.isString = true)
    (hwf : v.wellFormed = true) :
    outputBytes (writeString v) = varint v.stringLength ++ stringData v := by
  cases v with
  | string units =>
      rw [BasicValue.wellFormed, decide_eq_true_eq] at hwf
      have hlength : (UInt32.ofNat units.length).toNat = units.length :=
        UInt32.toNat_ofNat_of_lt' hwf
      simp only [outputBytes, writeString, List.flatMap_cons, List.flatMap_nil, List.append_nil,
        bytes_writeVariableUnsigned, bytes_write, VarUnsigned.toNat, hlength]
      rfl
  | wstring units =>
      rw [BasicValue.wellFormed, decide_eq_true_eq] at hwf
      have hlength : (UInt32.ofNat units.length).toNat = units.length :=
        UInt32.toNat_ofNat_of_lt' hwf
      simp only [outputBytes, writeString, List.flatMap_cons, List.flatMap_map, bytes_write,
        bytes_writeVariableUnsigned, VarUnsigned.toNat, hlength]
      rfl
  | _ => simp [BasicValue.type, BasicType.isString] at h

theorem stringLength_lt {v : BasicValue} (hwf : v.wellFormed = true) : v.stringLength < 2 ^ 32 := by
  cases v with
  | string | wstring => exact of_decide_eq_true hwf
  | _ => simp [BasicValue.stringLength]

theorem decodes_readString (v : BasicValue) (h : v.type.isString = true)
    (hwf : v.wellFormed = true) :
    Decodes (readString v.type) (outputBytes (writeString v)) (pure v) := by
  have hlength := decodes_readVariableUnsigned .w32 v.stringLength (stringLength_lt hwf)
  rw [outputBytes_writeString h hwf]
  cases v with
  | string units => exact hlength.bind_pure ((decodes_readBytes units).bind_return _)
  | wstring units =>
      have hunits := Decodes.repeatN_pure (m := Except (BondException × InputBuffer)) units
        fun unit _ => decodes_readUnsigned 2 unit.toNat unit.toNat_lt
      have hread := hunits.bind_return fun units => BasicValue.wstring (units.map UInt16.ofNat)
      have hself : (units.map UInt16.toNat).map UInt16.ofNat = units := by
        simp [Function.comp_def]
      rw [hself] at hread
      exact hlength.bind_pure hread
  | _ => simp [BasicValue.type, BasicType.isString] at h

theorem decodes_skipString (v : BasicValue) (h : v.type.isString = true)
    (hwf : v.wellFormed = true) :
    Decodes (skipString v.type) (outputBytes (writeString v)) (pure ()) := by
  have hlength := decodes_readVariableUnsigned .w32 v.stringLength (stringLength_lt hwf)
  rw [outputBytes_writeString h hwf]
  cases v with
  | string units => exact hlength.bind_pure (decodes_skip units)
  | wstring units =>
      have hsize : units.length * 2 = (stringData (.wstring units)).length := by
        simp [stringData, List.length_flatMap]
      exact hlength.bind_pure (decodes_checkedMultiply_skip hsize)
  | _ => simp [BasicValue.type, BasicType.isString] at h

end Bond.Cpp

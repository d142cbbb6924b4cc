import Bond.Cs.CompactBinaryWriter

set_option autoImplicit false

/-! # The lengths of the first pass in C#

`CompactBinaryCounter` counts what `CompactBinaryWriter` writes, method by method. A length is a
`uint`, so it is the number of the bytes up to a multiple of 2^32. -/

namespace Bond.Cs.CompactBinary

open Bond.Cpp (BondDataType)
open Bond.Lib Bond.Managed
open IntegerHelper Varint

/-- A number of bytes as a `uint`. -/
def size : ℕ →+ UInt32 where
  toFun := UInt32.ofNat
  map_zero' := rfl
  map_add' := UInt32.ofNat_add

theorem writeFieldBegin_length (type : BondDataType) (id : UInt16) :
    (writeFieldBegin type id).length = if id ≤ 5 then 1 else if id ≤ 0xFF then 2 else 3 := by
  unfold writeFieldBegin
  dsimp only
  split_ifs <;> simp

theorem encodeVarUInt32_zero_length : (encodeVarUInt32 0).length = 1 := rfl

theorem counterBytes_string (value : List UInt16) :
    counterBytes (.write (.string value)) = UInt32.ofNat (writeString value).length := by
  have hsize (n : Nat) : UInt32.ofNat (getVarUInt32Length (UInt32.ofNat n)) + UInt32.ofNat n
      = UInt32.ofNat ((encodeVarUInt32 (UInt32.ofNat n)).length + n) := by
    rw [getVarUInt32Length_eq, UInt32.ofNat_add]
  unfold counterBytes writeString
  dsimp only
  rw [hsize]
  by_cases hempty : value.length = 0
  · rw [if_pos hempty, List.eq_nil_of_length_eq_zero hempty]
    rfl
  · rw [if_neg hempty, List.length_append]

theorem counterBytes_wstring (value : List UInt16) :
    counterBytes (.write (.wstring value)) = UInt32.ofNat (writeWString value).length := by
  have hunits : (unicodeGetBytes value).length = 2 * value.length := Utf16.utf16le_length rfl value
  have htwice : UInt32.ofNat value.length * 2 = UInt32.ofNat (2 * value.length) := by
    rw [UInt32.ofNat_mul, UInt32.mul_comm]
    rfl
  unfold counterBytes writeWString
  dsimp only
  rw [getVarUInt32Length_eq, htwice, ← UInt32.ofNat_add]
  by_cases hempty : value.length = 0
  · rw [if_pos hempty, hempty]
    rfl
  · rw [if_neg hempty, List.length_append, hunits]

theorem counterBytes_container (count : Int32) (elementType : BondDataType) :
    counterBytes (.writeContainerBegin count elementType)
      = UInt32.ofNat (writeContainerBegin 2 count elementType).length := by
  unfold counterBytes writeContainerBegin
  dsimp only
  by_cases hcount : count < 7
  · rw [if_pos hcount, if_pos (by simpa using hcount)]
    rfl
  · rw [if_neg hcount, if_neg (by simpa using hcount), getVarUInt32Length_eq, List.length_cons,
      UInt32.ofNat_add, UInt32.add_comm]
    rfl

theorem counterBytes_map (count : Int32) (keyType valueType : BondDataType) :
    counterBytes (.writeMapBegin count keyType valueType)
      = UInt32.ofNat (writeMapBegin count keyType valueType).length := by
  unfold counterBytes writeMapBegin
  dsimp only
  rw [getVarUInt32Length_eq, List.length_cons, List.length_cons, UInt32.ofNat_add,
    UInt32.ofNat_add, UInt32.add_comm, UInt32.add_assoc]
  rfl

/-- The counter adds what the writer writes, for each method. -/
theorem counterBytes_eq (call : WriterCall) :
    counterBytes call = UInt32.ofNat (callBytes 2 call).length := by
  cases call with
  | writeFieldBegin type id =>
      unfold callBytes counterBytes
      dsimp only
      rw [writeFieldBegin_length]
      split_ifs <;> rfl
  | writeContainerBegin count elementType => exact counterBytes_container count elementType
  | writeMapBegin count keyType valueType => exact counterBytes_map count keyType valueType
  | write value =>
      cases value with
      | string value => exact counterBytes_string value
      | wstring value => exact counterBytes_wstring value
      | uint16 value => exact congrArg UInt32.ofNat (getVarUInt16Length_eq value)
      | uint32 value => exact congrArg UInt32.ofNat (getVarUInt32Length_eq value)
      | uint64 value => exact congrArg UInt32.ofNat (getVarUInt64Length_eq value)
      | int16 value => exact congrArg UInt32.ofNat (getVarUInt16Length_eq _)
      | int32 value => exact congrArg UInt32.ofNat (getVarUInt32Length_eq _)
      | int64 value => exact congrArg UInt32.ofNat (getVarUInt64Length_eq _)
      | _ => rfl
  | _ => rfl

theorem format_short (call : WriterCall) : format.Short size (fun _ => 0) call where
  begins _ := rfl
  count _ := by
    rw [map_zero, add_zero]
    exact counterBytes_eq call

theorem firstPass_struct {body : List WriterCall} {n : UInt32} {bytes : List UInt8}
    {structs : List (UInt32 × List UInt8)} (h : format.Counts body n bytes structs) :
    firstPass (.writeStructBegin :: (body ++ [.writeStructEnd]))
      = some ((n + 1) :: structs.map Prod.fst) := by
  have hrun := TwoPass.foldlM_of_step (fun _ _ _ => Counter.step_of_first)
    (h.first_struct (o := .writeStructBegin) (c := .writeStructEnd) rfl rfl)
  unfold firstPass
  rw [hrun]
  rfl

/-- The passes over a struct stay in step if and only if the lengths agree with the bytes. -/
theorem inStep_struct_iff {body : List WriterCall} {n : UInt32} {bytes : List UInt8}
    {structs : List (UInt32 × List UInt8)} (h : format.Counts body n bytes structs)
    (agree : UInt32 → List UInt8 → Prop) :
    InStep (.writeStructBegin :: (body ++ [.writeStructEnd])) agree ↔
      ∀ s ∈ (n + 1, bytes ++ [BondDataType.stop.toUInt8]) :: structs, agree s.1 s.2 := by
  have hstruct := h.struct (o := .writeStructBegin) (c := .writeStructEnd) rfl rfl
  unfold InStep
  rw [Writer.step_eq]
  exact hstruct.inStep_iff_forall (firstPass_struct h) agree

/-- The two passes over the calls for a struct stay in step: the writer takes one length for each
    struct that it begins, in their order and up to the last, and each is the number of the bytes
    that it then writes for the struct, as a `uint`. -/
theorem counter_inStep_calls (s : StructValue) :
    InStep (s.calls .within) fun length bytes => length.toNat = bytes.length % 2 ^ 32 := by
  obtain ⟨structs, h⟩ := isWriter.structBody .within s
  have hstruct := h.struct (o := .writeStructBegin) (c := .writeStructEnd) rfl rfl
  refine (inStep_struct_iff h _).2 fun t ht => ?_
  have hlength : t.1 = size t.2.length :=
    hstruct.structs_eq (fun length => congrArg UInt32.ofNat (getVarUInt32Length_eq length))
      (fun call _ => format_short call) t ht
  rw [hlength]
  exact UInt32.toNat_ofNat'

/-! ## Structs of 4 GiB -/

/-- From 4 GiB on the length is not the number of the bytes. -/
theorem not_inStep_of_le (s : StructValue) (h : 2 ^ 32 ≤ (s.encodeBody format).length) :
    ¬ InStep (s.calls .within) fun length bytes => length.toNat = bytes.length := by
  obtain ⟨structs, hcounts⟩ := isWriter.structBody .within s
  intro hstep
  have hagree : (s.bodyCount format + 1).toNat
      = (s.encodeBody format ++ [BondDataType.stop.toUInt8]).length :=
    (inStep_struct_iff hcounts _).1 hstep _ List.mem_cons_self
  have hlt := (s.bodyCount format + 1).toNat_lt
  rw [List.length_append] at hagree
  omega

/-- A struct with a list of `n` doubles. -/
def doubles (n : Nat) : StructValue :=
  .root [(0, .list .list (.basic .double) (List.replicate n (.basic (.double 0))))]

theorem encodeItems_replicate_length (F : TwoPass.Format WriterCall UInt32) (n : Nat) (v : Value) :
    (encodeItems F (List.replicate n v)).length = n * (v.encode F).length := by
  induction n with
  | zero => simp [encodeItems]
  | succ n ih =>
      rw [List.replicate_succ, encodeItems, List.length_append, ih, Nat.succ_mul, Nat.add_comm]

theorem doubles_length_le (n : Nat) : n * 8 ≤ ((doubles n).encodeBody format).length := by
  have hitems : (encodeItems format (List.replicate n (.basic (.double 0)))).length = n * 8 :=
    encodeItems_replicate_length format n _
  simp only [doubles, StructValue.encodeBody, encodeFields, Value.encode, List.length_append, hitems]
  omega

/-- A list of 2^29 doubles is 4 GiB. -/
theorem doubles_not_inStep : ¬ InStep ((doubles (2 ^ 29)).calls .within)
    fun length bytes => length.toNat = bytes.length :=
  not_inStep_of_le _ (Nat.le_trans (by decide) (doubles_length_le (2 ^ 29)))

end Bond.Cs.CompactBinary

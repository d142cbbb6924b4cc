import Bond.Java.BinaryWriters

set_option autoImplicit false

/-! # The first pass of Compact Binary v2 in Java

`FirstPassCounter` of java/core/src/main/java/org/bondlib/CompactBinaryWriter.java. A struct's
length is an object that is in `workingStack` and in the writer's `structLengths` at once, so that
every byte counted shows in both.

The counter takes the length of a string for the number of its `char`s, where the writer writes the
number of its bytes: the two may take different numbers of bytes themselves. -/

namespace Bond.Java

open Bond.Cpp (BondDataType)
open Bond.Cpp.CompactBinary (Version)
open Bond.Lib Bond.Managed
open VarUIntHelper ZigzagHelper StringHelper
open Varint

namespace CompactBinary

/-- What a method adds to the length of the struct on top of `workingStack`. -/
def counterBytes : WriterCall → Int32
  | .writeStructBegin => 0
  | .writeStructEnd => 1
  | .writeBaseBegin => 0
  | .writeBaseEnd => 1
  | .writeFieldBegin _ id => if id ≤ 5 then 1 else if id ≤ 0xFF then 2 else 3
  | .writeContainerBegin count _ =>
      if count < 7 then 1 else 1 + Int32.ofNat (getVarUInt32Length count)
  | .writeMapBegin count _ _ => 2 + Int32.ofNat (getVarUInt32Length count)
  | .writeBytes value => Int32.ofNat value.length
  | .write (.bool _) => 1
  | .write (.uint8 _) => 1
  | .write (.uint16 value) => Int32.ofNat (getVarUInt16Length value.toInt16)
  | .write (.uint32 value) => Int32.ofNat (getVarUInt32Length value.toInt32)
  | .write (.uint64 value) => Int32.ofNat (getVarUInt64Length value.toInt64)
  | .write (.float _) => 4
  | .write (.double _) => 8
  | .write (.string value) =>
      let length := Int32.ofNat value.length
      Int32.ofNat (getVarUInt32Length length)
        + if length > 0 then Int32.ofNat (encodeString value).length else 0
  | .write (.int8 _) => 1
  | .write (.int16 value) => Int32.ofNat (getVarUInt16Length (encodeZigzag16 value))
  | .write (.int32 value) => Int32.ofNat (getVarUInt32Length (encodeZigzag32 value))
  | .write (.int64 value) => Int32.ofNat (getVarUInt64Length (encodeZigzag64 value))
  | .write (.wstring value) =>
      let length := Int32.ofNat value.length
      Int32.ofNat (getVarUInt32Length length)
        + if length > 0 then Int32.ofNat (encodeWString value).length else 0

/-- A `FirstPassCounter`: the places in `structLengths` of the structs on `workingStack`, innermost
    first, and `structLengths`. -/
structure FirstPassCounter where
  workingStack : List Nat
  structLengths : List Int32
deriving DecidableEq, Repr

namespace FirstPassCounter

/-- `addBytes`; `peek()` of an empty stack is `null`. -/
def addBytes (counter : FirstPassCounter) (byteCount : Int32) : Option FirstPassCounter :=
  match counter.workingStack with
  | [] => none
  | top :: _ =>
      some { counter with structLengths := counter.structLengths.modify top (· + byteCount) }

/-- `writeStructEnd` -/
def writeStructEnd (counter : FirstPassCounter) : Option FirstPassCounter := do
  let counter ← counter.addBytes 1
  match counter.workingStack with
  | [] => none
  | completed :: workingStack =>
      let completedLength ← counter.structLengths[completed]?
      let counter := { counter with workingStack := workingStack }
      if workingStack.isEmpty then
        return counter
      else
        let counter ← counter.addBytes (Int32.ofNat (getVarUInt32Length completedLength))
        counter.addBytes completedLength

/-- A call on the counter. -/
def step (counter : FirstPassCounter) (call : WriterCall) : Option FirstPassCounter :=
  match call with
  | .writeStructBegin =>
      some ⟨counter.structLengths.length :: counter.workingStack, counter.structLengths ++ [0]⟩
  | .writeStructEnd => counter.writeStructEnd
  | .writeBaseBegin => some counter
  | call => counter.addBytes (counterBytes call)

end FirstPassCounter

/-- The lengths that the first pass leaves behind. -/
def firstPass (calls : List WriterCall) : Option (List Int32) :=
  (calls.foldlM FirstPassCounter.step ⟨[], []⟩).map FirstPassCounter.structLengths

/-- The two passes of version 2 stay in step. -/
def InStep (calls : List WriterCall) (agree : Int32 → List UInt8 → Prop) : Prop :=
  TwoPass.InStep WriterCall.kind firstPass (Writer.step .v2) encodeVarUInt32 calls agree

/-! ## The passes as a format -/

def format (protocolVersion : Version) : TwoPass.Format WriterCall Int32 where
  kind := WriterCall.kind
  count := counterBytes
  lengthCount length := Int32.ofNat (getVarUInt32Length length)
  bytes := callBytes protocolVersion
  lengthBytes := lengthBytes protocolVersion

theorem isWriter (protocolVersion : Version) : IsWriter (format protocolVersion) where
  kind := rfl
  count_baseBegin := rfl
  bytes_baseBegin := rfl

theorem Writer.step_eq : Writer.step .v2 = (format .v2).second := by
  funext writer call
  cases call with
  | writeStructBegin =>
      obtain ⟨output, lengths⟩ := writer
      cases lengths <;> rfl
  | _ => rfl

namespace FirstPassCounter

theorem modify_zero (lengths : List Int32) (slot : Nat) :
    lengths.modify slot (· + (0 : Int32)) = lengths := by
  simp only [Int32.add_zero]
  exact List.modify_id slot lengths

theorem modify_modify (lengths : List Int32) (slot : Nat) (m n : Int32) :
    (lengths.modify slot (· + m)).modify slot (· + n) = lengths.modify slot (· + (m + n)) := by
  rw [List.modify_modify_eq]
  congr 1
  funext length
  exact Int32.add_assoc length m n

theorem step_of_inside {call : WriterCall} (h : call.kind = .inside) (top : Nat) (stack : List Nat)
    (lengths : List Int32) :
    step ⟨top :: stack, lengths⟩ call
      = some ⟨top :: stack, lengths.modify top (· + counterBytes call)⟩ := by
  cases call with
  | writeStructBegin => cases h
  | writeStructEnd => cases h
  | writeBaseBegin =>
      unfold step
      rw [show counterBytes .writeBaseBegin = 0 from rfl, modify_zero]
  | _ => rfl

theorem addBytes_cons (top : Nat) (stack : List Nat) (lengths : List Int32) (n : Int32) :
    addBytes ⟨top :: stack, lengths⟩ n = some ⟨top :: stack, lengths.modify top (· + n)⟩ := rfl

theorem modify_append_left (lengths structs : List Int32) (f : Int32 → Int32) {slot : Nat}
    (h : slot < lengths.length) :
    (lengths ++ structs).modify slot f = lengths.modify slot f ++ structs := by
  induction lengths generalizing slot with
  | nil => simp at h
  | cons length lengths ih =>
      cases slot with
      | zero => rfl
      | succ slot =>
          rw [List.cons_append, List.modify_succ_cons, List.modify_succ_cons,
            ih (by simpa using h), List.cons_append]

theorem modify_append_length (lengths structs : List Int32) (n : Int32) (f : Int32 → Int32) :
    (lengths ++ n :: structs).modify lengths.length f = lengths ++ f n :: structs := by
  induction lengths with
  | nil => rfl
  | cons length lengths ih =>
      rw [List.length_cons, List.cons_append, List.modify_succ_cons, ih, List.cons_append]

/-- The end of a struct that has no other around it. -/
theorem writeStructEnd_last (lengths structs : List Int32) (n : Int32) :
    writeStructEnd ⟨[lengths.length], lengths ++ n :: structs⟩
      = some ⟨[], lengths ++ (n + 1) :: structs⟩ := by
  unfold writeStructEnd
  rw [addBytes_cons, modify_append_length, Option.bind_eq_bind, Option.bind_some]
  simp

/-- The end of a struct within another one. -/
theorem writeStructEnd_within (lengths structs : List Int32) (n : Int32) {top : Nat}
    (stack : List Nat) (htop : top < lengths.length) :
    writeStructEnd ⟨lengths.length :: top :: stack, lengths ++ n :: structs⟩
      = some ⟨top :: stack, lengths.modify top
          (· + (Int32.ofNat (getVarUInt32Length (n + 1)) + (n + 1))) ++ (n + 1) :: structs⟩ := by
  unfold writeStructEnd
  rw [addBytes_cons, modify_append_length, Option.bind_eq_bind, Option.bind_some]
  simp only [List.getElem?_append_right (Nat.le_refl _), Nat.sub_self, List.getElem?_cons_zero,
    Option.bind_some, Option.bind_eq_bind, List.isEmpty_cons, Bool.false_eq_true, if_false,
    addBytes_cons]
  rw [modify_append_left _ _ _ htop, modify_append_left _ _ _ (by simpa using htop), modify_modify]

theorem run_struct (counter : FirstPassCounter) (calls : List WriterCall) :
    (.writeStructBegin :: (calls ++ [.writeStructEnd])).foldlM step counter
      = (calls.foldlM step ⟨counter.structLengths.length :: counter.workingStack,
          counter.structLengths ++ [0]⟩).bind writeStructEnd := by
  show (calls ++ [WriterCall.writeStructEnd]).foldlM step _ = _
  rw [List.foldlM_append]
  congr 1
  funext counter
  simp [step]

/-- Between the begin and the end of a struct, calls add to its length and leave those of their own
    structs behind. -/
theorem run_of_counts {calls : List WriterCall} {n : Int32} {bytes : List UInt8}
    {structs : List (Int32 × List UInt8)} (h : (format .v2).Counts calls n bytes structs)
    (top : Nat) (stack : List Nat) (lengths : List Int32) (htop : top < lengths.length) :
    calls.foldlM step ⟨top :: stack, lengths⟩
      = some ⟨top :: stack, lengths.modify top (· + n) ++ structs.map Prod.fst⟩ := by
  induction h generalizing top stack lengths with
  | nil =>
      rw [modify_zero, List.map_nil, List.append_nil]
      rfl
  | call h =>
      rw [List.foldlM_cons, step_of_inside h, List.map_nil, List.append_nil]
      rfl
  | append _ _ ih ih' =>
      rw [List.foldlM_append, ih top stack lengths htop, Option.bind_eq_bind, Option.bind_some,
        ih' top stack _ (by simp; omega), modify_append_left _ _ _ (by simpa using htop),
        modify_modify, List.map_append, List.append_assoc]
  | @struct o c cs n bytes structs ho hc _ ih =>
      obtain rfl : o = .writeStructBegin := by cases o <;> first | rfl | cases ho
      obtain rfl : c = .writeStructEnd := by cases c <;> first | rfl | cases hc
      have hbody := ih lengths.length (top :: stack) (lengths ++ [0]) (by simp)
      have hstart : (lengths ++ [(0 : Int32)]).modify lengths.length (· + n) = lengths ++ [n] := by
        rw [modify_append_length, Int32.zero_add]
      rw [hstart, List.append_assoc, List.singleton_append] at hbody
      rw [run_struct, hbody, Option.bind_some, writeStructEnd_within lengths _ n stack htop]
      rfl

end FirstPassCounter

theorem firstPass_struct {body : List WriterCall} {n : Int32} {bytes : List UInt8}
    {structs : List (Int32 × List UInt8)} (h : (format .v2).Counts body n bytes structs) :
    firstPass (.writeStructBegin :: (body ++ [.writeStructEnd]))
      = some ((n + 1) :: structs.map Prod.fst) := by
  have hbody := FirstPassCounter.run_of_counts h 0 [] [0] (by simp)
  have hstart : ([0] : List Int32).modify 0 (· + n) = [n] := by simp
  rw [hstart] at hbody
  unfold firstPass
  rw [FirstPassCounter.run_struct]
  show ((body.foldlM FirstPassCounter.step ⟨[0], [0]⟩).bind _).map _ = _
  rw [hbody, Option.bind_some]
  exact congrArg _ (FirstPassCounter.writeStructEnd_last [] (structs.map Prod.fst) n)

end CompactBinary

end Bond.Java

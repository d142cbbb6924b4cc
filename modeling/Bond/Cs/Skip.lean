import Bond.Cs.InputBuffer
import Bond.Lib.Machine

set_option autoImplicit false

/-! # Skipping over values in C#

`Skip`, `SkipContainer`, `SkipMap` and `SkipStruct` of the C# `CompactBinaryReader` and
`FastBinaryReader`, over any bytes at all.

The functions call each other and loop on counts and lengths that they read, so that nothing says
beforehand that they return. They are modelled as a machine with a stack of calls: one step runs
the call on top up to the next call of `Skip` or `SkipBytes`, or to the next turn of a loop. -/

namespace Bond.Cs

open Bond.Cpp (BondDataType BasicType)
open Bond.Lib
open InputBuffer

/-! ## The skip functions -/

/-- What is left to do: calls, and loops between two turns. -/
inductive Call where
  | skip (type : BondDataType)
  | skipBytes (count : Int32)
  /-- `while (0 <= --count) Skip(elementType)` -/
  | items (count : Int32) (elementType : BondDataType)
  /-- `while (0 <= --count) { Skip(keyType); Skip(valueType); }` -/
  | pairs (count : Int32) (keyType valueType : BondDataType)
  /-- `while (true)` of `SkipStruct` -/
  | fields
deriving DecidableEq, Repr

/-- The functions of a tagged reader that `Skip` uses. What a function has left to do when it comes
    to a call is the list of calls that it returns. -/
structure TaggedReader where
  readFieldBegin : Reader (BondDataType × UInt16)
  skipBasic : BasicType → Reader (List Call)
  skipContainer : Reader (List Call)
  skipMap : Reader (List Call)
  skipStruct : Reader (List Call)

/-- `ReadContainerBegin(out count, out keyType, out valueType)`, the same in both readers -/
def readMapBegin : Reader (Int32 × BondDataType × BondDataType) := do
  let keyType := BondDataType.ofUInt8 (← readUInt8)
  let valueType := BondDataType.ofUInt8 (← readUInt8)
  let count := (← readVarUInt32).toInt32
  return (count, keyType, valueType)

/-- `SkipMap`, the same in both readers -/
def skipMap : Reader (List Call) := do
  let (count, keyType, valueType) ← readMapBegin
  return [.pairs count keyType valueType]

/-! ### Compact Binary -/

namespace CompactBinary

/-- `ReadFieldBegin` -/
def readFieldBegin : Reader (BondDataType × UInt16) := do
  let raw ← readUInt8
  let type := BondDataType.ofUInt8 (raw &&& 0x1F)
  let raw := raw >>> 5
  if raw < 6 then
    return (type, raw.toUInt16)
  else if raw = 6 then
    return (type, (← readUInt8).toUInt16)
  else
    return (type, ← readUInt16)

/-- `ReadContainerBegin(out count, out elementType)` -/
def readContainerBegin (version : UInt16) : Reader (Int32 × BondDataType) := do
  let raw ← readUInt8
  let elementType := BondDataType.ofUInt8 (raw &&& 0x1F)
  if version = 2 ∧ raw &&& ((0x07 : UInt8) <<< 5) ≠ 0 then
    return ((raw >>> 5).toUInt32.toInt32 - 1, elementType)
  else
    return ((← readVarUInt32).toInt32, elementType)

/-- `Skip` of a basic type -/
def skipBasic : BasicType → Reader (List Call)
  | .bool | .uint8 | .int8 => return [.skipBytes 1]
  | .uint16 | .int16 => do let _ ← readVarUInt16; return []
  | .uint32 | .int32 => do let _ ← readVarUInt32; return []
  | .float => return [.skipBytes 4]
  | .double => return [.skipBytes 8]
  | .uint64 | .int64 => do let _ ← readVarUInt64; return []
  | .string => do return [.skipBytes (← readVarUInt32).toInt32]
  | .wstring => do return [.skipBytes ((← readVarUInt32) <<< 1).toInt32]

/-- What `SkipContainer` does behind the header. -/
def skipElements (count : Int32) : BondDataType → Call
  | .basic .uint8 | .basic .int8 => .skipBytes count
  | .basic .float => .skipBytes (count * 4)
  | .basic .double => .skipBytes (count * 8)
  | elementType => .items count elementType

/-- `SkipContainer` -/
def skipContainer (version : UInt16) : Reader (List Call) := do
  let (count, elementType) ← readContainerBegin version
  return [skipElements count elementType]

/-- `SkipStruct` -/
def skipStruct (version : UInt16) : Reader (List Call) :=
  if version = 2 then do
    return [.skipBytes (← readVarUInt32).toInt32]
  else
    return [.fields]

def reader (version : UInt16) : TaggedReader where
  readFieldBegin := readFieldBegin
  skipBasic := skipBasic
  skipContainer := skipContainer version
  skipMap := skipMap
  skipStruct := skipStruct version

end CompactBinary

/-! ### Fast Binary -/

namespace FastBinary

/-- `ReadFieldBegin` -/
def readFieldBegin : Reader (BondDataType × UInt16) := do
  let type := BondDataType.ofUInt8 (← readUInt8)
  if type ≠ .stop ∧ type ≠ .stopBase then
    return (type, ← readUInt16)
  else
    return (type, 0)

/-- `ReadContainerBegin(out count, out elementType)` -/
def readContainerBegin : Reader (Int32 × BondDataType) := do
  let elementType := BondDataType.ofUInt8 (← readUInt8)
  let count := (← readVarUInt32).toInt32
  return (count, elementType)

/-- `Skip` of a basic type -/
def skipBasic : BasicType → Reader (List Call)
  | .bool | .uint8 | .int8 => return [.skipBytes 1]
  | .uint16 | .int16 => return [.skipBytes 2]
  | .uint32 | .int32 => return [.skipBytes 4]
  | .float => return [.skipBytes 4]
  | .double => return [.skipBytes 8]
  | .uint64 | .int64 => return [.skipBytes 8]
  | .string => do return [.skipBytes (← readVarUInt32).toInt32]
  | .wstring => do return [.skipBytes ((← readVarUInt32) <<< 1).toInt32]

/-- What `SkipContainer` does behind the header. -/
def skipElements (count : Int32) : BondDataType → Call
  | .basic .bool | .basic .int8 | .basic .uint8 => .skipBytes count
  | .basic .uint16 | .basic .int16 => .skipBytes (count * 2)
  | .basic .uint32 | .basic .int32 => .skipBytes (count * 4)
  | .basic .uint64 | .basic .int64 => .skipBytes (count * 8)
  | .basic .float => .skipBytes (count * 4)
  | .basic .double => .skipBytes (count * 8)
  | elementType => .items count elementType

/-- `SkipContainer` -/
def skipContainer : Reader (List Call) := do
  let (count, elementType) ← readContainerBegin
  return [skipElements count elementType]

/-- `SkipStruct` -/
def skipStruct : Reader (List Call) :=
  return [.fields]

def reader : TaggedReader where
  readFieldBegin := readFieldBegin
  skipBasic := skipBasic
  skipContainer := skipContainer
  skipMap := skipMap
  skipStruct := skipStruct

end FastBinary

inductive TaggedProtocol where
  | compactBinary (version : UInt16)
  | fastBinary
deriving DecidableEq, Repr

def TaggedProtocol.reader : TaggedProtocol → TaggedReader
  | .compactBinary version => CompactBinary.reader version
  | .fastBinary => FastBinary.reader

/-! ## The machine -/

namespace TaggedReader

variable (r : TaggedReader)

/-- `Skip` -/
def skip : BondDataType → Reader (List Call)
  | .basic type => r.skipBasic type
  | .list | .set => r.skipContainer
  | .map => r.skipMap
  | .struct => r.skipStruct
  | type => throwException (.invalidBondDataType type)

/-- Runs a call up to the calls that it makes. -/
def run : Call → Reader (List Call)
  | .skip type => r.skip type
  | .skipBytes count => do
      skipBytes count
      return []
  | .items count elementType =>
      let count := count - 1
      if 0 ≤ count then return [.skip elementType, .items count elementType] else return []
  | .pairs count keyType valueType =>
      let count := count - 1
      if 0 ≤ count then
        return [.skip keyType, .skip valueType, .pairs count keyType valueType]
      else
        return []
  | .fields => do
      let (type, _) ← r.readFieldBegin
      if type = .stopBase then return [.fields]
      else if type = .stop then return []
      else return [.skip type, .fields]

end TaggedReader

inductive State where
  | running (stack : List Call) (input : InputBuffer)
  | threw (e : Exception) (input : InputBuffer)
deriving DecidableEq

namespace State

def input : State → InputBuffer
  | running _ input => input
  | threw _ input => input

/-- The position of the buffer. -/
def pos (s : State) : Int :=
  s.input.pos

/-- Nothing is left to do, or an exception was thrown. -/
def Halted : State → Prop
  | running stack _ => stack = []
  | threw _ _ => True

def next (r : TaggedReader) : State → State
  | running [] input => running [] input
  | running (call :: stack) input =>
      match (r.run call).run input with
      | .ok (calls, input) => running (calls ++ stack) input
      | .error (e, input) => threw e input
  | threw e input => threw e input

/-- A state about to call `SkipBytes` has a count that is not negative, and that leads to a position
    in the range of `int`. -/
def InRange : State → Prop
  | running (.skipBytes count :: _) input => 0 ≤ count ∧ input.pos + count.toInt < 2 ^ 31
  | _ => True

end State

def skipMachine (r : TaggedReader) : Machine State where
  next := State.next r
  Halted := State.Halted

/-- `Skip(type)` on a buffer; `SkipStruct()` is the case of a struct. -/
def start (type : BondDataType) (input : InputBuffer) : State :=
  .running [.skip type] input

/-! ## One step -/

/-- A bound on the calls that a call leads to before it reads from the buffer. -/
def Call.weight : Call → Nat
  | .skip _ => 2
  | .skipBytes _ => 1
  | .items count _ => 1 + 3 * ((count - 1).toInt + 1).toNat
  | .pairs count _ _ => 1 + 5 * ((count - 1).toInt + 1).toNat
  | .fields => 1

def stackWeight (stack : List Call) : Nat :=
  (stack.map Call.weight).sum

@[simp] theorem stackWeight_nil : stackWeight [] = 0 := rfl

@[simp] theorem stackWeight_cons (call : Call) (stack : List Call) :
    stackWeight (call :: stack) = call.weight + stackWeight stack := rfl

@[simp] theorem stackWeight_append (calls stack : List Call) :
    stackWeight (calls ++ stack) = stackWeight calls + stackWeight stack := by
  simp [stackWeight]

theorem Call.weight_pos (call : Call) : 0 < call.weight := by
  cases call with
  | skip | skipBytes | fields => exact Nat.succ_pos _
  | items | pairs => exact Nat.lt_of_lt_of_le Nat.one_pos (Nat.le_add_right 1 _)

/-- A function that moves forward in the buffer, or that reads nothing and makes calls of less
    weight. -/
def Progress (weight : Nat) (op : Reader (List Call)) : Prop :=
  Forward op ∨ ∃ calls, op = pure calls ∧ stackWeight calls < weight

/-- What the functions of a reader promise. -/
structure TaggedReader.Advances (r : TaggedReader) : Prop where
  readFieldBegin : Forward r.readFieldBegin
  skipBasic : ∀ type, Progress 2 (r.skipBasic type)
  skipContainer : Progress 2 r.skipContainer
  skipMap : Progress 2 r.skipMap
  skipStruct : Progress 2 r.skipStruct

theorem progress_return (count : Int32) : Progress 2 (pure [.skipBytes count]) :=
  Or.inr ⟨_, rfl, Nat.lt_succ_self 1⟩

theorem forward_readMapBegin : Forward readMapBegin :=
  forward_readUInt8.bind fun _ => (forward_readUInt8.bind fun _ =>
    (forward_readVarUInt32.bind fun _ => stays_pure _).stays).stays

theorem progress_skipMap : Progress 2 skipMap :=
  Or.inl (forward_readMapBegin.bind fun _ => stays_pure _)

theorem CompactBinary.advances (version : UInt16) : (reader version).Advances where
  readFieldBegin := by
    refine forward_readUInt8.bind fun raw => ?_
    dsimp only
    split_ifs
    · exact stays_pure _
    · exact (forward_readUInt8.bind fun _ => stays_pure _).stays
    · exact (forward_readUInt16.bind fun _ => stays_pure _).stays
  skipBasic := by
    intro type
    cases type with
    | bool | uint8 | int8 | float | double => exact progress_return _
    | uint16 | int16 => exact Or.inl (forward_readVarUInt16.bind fun _ => stays_pure _)
    | uint32 | int32 | string | wstring =>
        exact Or.inl (forward_readVarUInt32.bind fun _ => stays_pure _)
    | uint64 | int64 => exact Or.inl (forward_readVarUInt64.bind fun _ => stays_pure _)
  skipContainer := by
    have hbegin : Forward (readContainerBegin version) := by
      refine forward_readUInt8.bind fun raw => ?_
      dsimp only
      split_ifs
      · exact stays_pure _
      · exact (forward_readVarUInt32.bind fun _ => stays_pure _).stays
    exact Or.inl (hbegin.bind fun _ => stays_pure _)
  skipMap := progress_skipMap
  skipStruct := by
    unfold reader skipStruct
    dsimp only
    split_ifs
    · exact Or.inl (forward_readVarUInt32.bind fun _ => stays_pure _)
    · exact Or.inr ⟨_, rfl, by decide⟩

theorem FastBinary.advances : reader.Advances where
  readFieldBegin := by
    refine forward_readUInt8.bind fun raw => ?_
    dsimp only
    split_ifs
    · exact (forward_readUInt16.bind fun _ => stays_pure _).stays
    · exact stays_pure _
  skipBasic := by
    intro type
    cases type with
    | string | wstring => exact Or.inl (forward_readVarUInt32.bind fun _ => stays_pure _)
    | _ => exact progress_return _
  skipContainer := by
    have hbegin : Forward readContainerBegin :=
      forward_readUInt8.bind fun _ => (forward_readVarUInt32.bind fun _ => stays_pure _).stays
    exact Or.inl (hbegin.bind fun _ => stays_pure _)
  skipMap := progress_skipMap
  skipStruct := Or.inr ⟨_, rfl, by decide⟩

theorem TaggedProtocol.advances (p : TaggedProtocol) : p.reader.Advances := by
  cases p with
  | compactBinary version => exact CompactBinary.advances version
  | fastBinary => exact FastBinary.advances

/-- Every call but `SkipBytes` makes progress. -/
theorem TaggedReader.Advances.run {r : TaggedReader} (hr : r.Advances) {call : Call}
    (h : ∀ count, call ≠ .skipBytes count) : Progress call.weight (r.run call) := by
  cases call with
  | skipBytes count => exact absurd rfl (h count)
  | skip type =>
      cases type with
      | basic type => exact hr.skipBasic type
      | list | set => exact hr.skipContainer
      | map => exact hr.skipMap
      | struct => exact hr.skipStruct
      | stop | stopBase | unavailable | undefined => exact Or.inl fun b _ => Or.inl rfl
  | fields =>
      refine Or.inl (hr.readFieldBegin.bind fun field => ?_)
      obtain ⟨type, id⟩ := field
      dsimp only
      split_ifs <;> exact stays_pure _
  | items count elementType =>
      right
      by_cases hcount : 0 ≤ count - 1
      · -- one turn less is left
        refine ⟨[.skip elementType, .items (count - 1) elementType], if_pos hcount, ?_⟩
        have hpos := Int32.le_iff_toInt_le.1 hcount
        have hprev := toInt_sub_small (d := 1) (k := 1) (by decide) (by decide) hcount (by decide)
        simp only [Int32.toInt_zero] at hpos
        simp only [stackWeight_cons, stackWeight_nil, Call.weight, hprev]
        omega
      · exact ⟨[], if_neg hcount, Call.weight_pos _⟩
  | pairs count keyType valueType =>
      right
      by_cases hcount : 0 ≤ count - 1
      · refine ⟨[.skip keyType, .skip valueType, .pairs (count - 1) keyType valueType],
          if_pos hcount, ?_⟩
        have hpos := Int32.le_iff_toInt_le.1 hcount
        have hprev := toInt_sub_small (d := 1) (k := 1) (by decide) (by decide) hcount (by decide)
        simp only [Int32.toInt_zero] at hpos
        simp only [stackWeight_cons, stackWeight_nil, Call.weight, hprev]
        omega
      · exact ⟨[], if_neg hcount, Call.weight_pos _⟩

/-! ## Runs -/

namespace State

/-- What is left of the range of `int` behind the position, then what is left to do. -/
def measure : State → Nat × Nat
  | running stack input => ((2 ^ 31 - input.pos).toNat, stackWeight stack)
  | threw _ input => ((2 ^ 31 - input.pos).toNat, 0)

/-- The step moves the position forward, or leaves it and has less to do. -/
def MovesOn (s s' : State) : Prop :=
  s.pos ≤ s'.pos ∧ Prod.Lex (· < ·) (· < ·) s'.measure s.measure

theorem measure_fst (s : State) : s.measure.1 = (2 ^ 31 - s.pos).toNat := by
  cases s <;> rfl

theorem movesOn_of_lt {s s' : State} (h : s.pos < s'.pos) : s.MovesOn s' := by
  refine ⟨Int.le_of_lt h, ?_⟩
  have hlt : s'.pos < 2 ^ 31 := s'.input.position.toInt_lt
  have hless : s'.measure.1 < s.measure.1 := by
    rw [measure_fst, measure_fst]
    omega
  rw [Prod.lex_def]
  exact Or.inl hless

theorem movesOn_of_input_eq {s s' : State} (hinput : s'.input = s.input)
    (hless : s'.measure.2 < s.measure.2) : s.MovesOn s' := by
  have hpos : s'.pos = s.pos := congrArg InputBuffer.pos hinput
  refine ⟨Int.le_of_eq hpos.symm, ?_⟩
  rw [Prod.lex_def]
  exact Or.inr ⟨by rw [measure_fst, measure_fst, hpos], hless⟩

/-- `SkipBytes` of a count in range. -/
theorem skipBytes_pos {count : Int32} {b : InputBuffer} (hcount : 0 ≤ count)
    (h : b.pos + count.toInt < 2 ^ 31) : (b.position + count).toInt = b.pos + count.toInt := by
  have hnonneg := Int32.le_iff_toInt_le.1 hcount
  exact toInt_add_small rfl hnonneg h

section

variable {r : TaggedReader} {call : Call} {calls stack : List Call} {b b' : InputBuffer}

theorem next_of_ok (h : (r.run call).run b = .ok (calls, b')) :
    State.next r (running (call :: stack) b) = running (calls ++ stack) b' := by
  simp only [State.next, h]

theorem next_of_error {e : Exception} (h : (r.run call).run b = .error (e, b')) :
    State.next r (running (call :: stack) b) = threw e b' := by
  simp only [State.next, h]

end

/-- One step from a state in range moves on. -/
theorem next_movesOn {r : TaggedReader} (hr : r.Advances) {s : State} (hpos : 0 ≤ s.pos)
    (hrange : s.InRange) (hrunning : ¬ s.Halted) : s.MovesOn (s.next r) := by
  cases s with
  | threw e b => exact absurd trivial hrunning
  | running stack b =>
      cases stack with
      | nil => exact absurd rfl hrunning
      | cons call stack =>
          by_cases hskip : ∃ count, call = .skipBytes count
          · obtain ⟨count, rfl⟩ := hskip
            obtain ⟨hcount, hlt⟩ := hrange
            have hmoved : (b.position + count).toInt = b.pos + count.toInt :=
              skipBytes_pos hcount hlt
            have hnonneg := Int32.le_iff_toInt_le.1 hcount
            simp only [Int32.toInt_zero] at hnonneg
            have hres : (r.run (.skipBytes count)).run b =
                .ok ([], { b with position := b.position + count }) := rfl
            rw [next_of_ok hres]
            by_cases hzero : count.toInt = 0
            · -- nothing is skipped, but the call is done
              have hzero' : count = 0 := Int32.toInt_inj.1 hzero
              refine movesOn_of_input_eq ?_ ?_
              · simp [State.input, hzero']
              · simp [measure, Call.weight]
            · refine movesOn_of_lt ?_
              show b.pos < (b.position + count).toInt
              omega
          · have hprogress := hr.run (fun count heq => hskip ⟨count, heq⟩)
            rcases hprogress with hforward | ⟨calls, hrun, hless⟩
            · have hends := hforward b hpos
              cases hres : (r.run call).run b with
              | ok p =>
                  obtain ⟨calls, b'⟩ := p
                  rw [hres] at hends
                  rw [next_of_ok hres]
                  exact movesOn_of_lt hends.lt
              | error p =>
                  obtain ⟨e, b'⟩ := p
                  rw [hres] at hends
                  rw [next_of_error hres]
                  rcases hends with rfl | hbefore
                  · refine movesOn_of_input_eq rfl ?_
                    have := call.weight_pos
                    simp only [measure, stackWeight_cons]
                    omega
                  · exact movesOn_of_lt hbefore.lt
            · have hres : (r.run call).run b = .ok (calls, b) := by
                rw [hrun]
                rfl
              rw [next_of_ok hres]
              refine movesOn_of_input_eq rfl ?_
              simp only [measure, stackWeight_cons, stackWeight_append]
              omega

theorem next_of_halted {r : TaggedReader} {s : State} (h : s.Halted) : s.next r = s := by
  cases s with
  | threw e b => rfl
  | running stack b =>
      have hnil : stack = [] := h
      subst hnil
      rfl

/-- A step that does not move the position back was made from a state in range. -/
theorem inRange_of_pos_le {r : TaggedReader} {s : State} (hpos : 0 ≤ s.pos)
    (h : s.pos ≤ (s.next r).pos) : s.InRange := by
  rcases s with ⟨stack, b⟩ | ⟨e, b⟩
  · rcases stack with _ | ⟨call, stack⟩
    · trivial
    · cases call with
      | skipBytes count =>
          have hmoved : b.pos ≤ (b.position + count).toInt := h
          have hnonneg : 0 ≤ b.pos := hpos
          have hwrap := Int32.toInt_add b.position count
          have hcountLe := count.le_toInt
          have hcountLt := count.toInt_lt
          have hposLt := b.position.toInt_lt
          unfold InputBuffer.pos at hmoved hnonneg
          rw [hwrap] at hmoved
          refine ⟨Int32.le_iff_toInt_le.2 ?_, ?_⟩
          · rw [Int32.toInt_zero]
            by_contra hneg
            rw [Int.bmod_eq_of_le (by simp; omega) (by simp; omega)] at hmoved
            omega
          · show b.position.toInt + count.toInt < 2 ^ 31
            by_contra hover
            rw [← Int.sub_bmod_right, Int.bmod_eq_of_le (by simp; omega) (by simp; omega)] at hmoved
            omega
      | _ => trivial
  · trivial

end State

/-- Skipping a value of any type, from any position of any buffer, halts and never moves the
    position back if and only if every `SkipBytes` that the run comes to is given a count that is
    not negative, and that does not overflow the position. -/
theorem skip_halts_forward_iff (p : TaggedProtocol) (type : BondDataType) (b : InputBuffer)
    (hb : 0 ≤ b.pos) :
    ((skipMachine p.reader).Halts (start type b) ∧
      ∀ n, ((skipMachine p.reader).after n (start type b)).pos ≤
        ((skipMachine p.reader).after (n + 1) (start type b)).pos) ↔
    ∀ n, ((skipMachine p.reader).after n (start type b)).InRange := by
  let m := skipMachine p.reader
  constructor
  · rintro ⟨-, hforward⟩ n
    have hpos : ∀ n, 0 ≤ (m.after n (start type b)).pos := by
      intro n
      induction n with
      | zero => exact hb
      | succ n ih => exact Int.le_trans ih (hforward n)
    have hstep := hforward n
    rw [Machine.after_succ'] at hstep
    exact State.inRange_of_pos_le (hpos n) hstep
  · intro hrange
    -- along the run: the position is not negative, and every later state is in range
    have hinv : ∀ s : State, (0 ≤ s.pos ∧ ∀ n, (m.after n s).InRange) → ¬ m.Halted s →
        (0 ≤ (m.next s).pos ∧ ∀ n, (m.after n (m.next s)).InRange) ∧ s.MovesOn (m.next s) := by
      rintro s ⟨hpos, hlater⟩ hrunning
      have hmoves : s.MovesOn (m.next s) :=
        State.next_movesOn p.advances hpos (hlater 0) hrunning
      exact ⟨⟨Int.le_trans hpos hmoves.1, fun n => hlater (n + 1)⟩, hmoves⟩
    have hstart : 0 ≤ (start type b).pos ∧ ∀ n, (m.after n (start type b)).InRange := ⟨hb, hrange⟩
    have hwf : WellFounded (Prod.Lex (· < · : Nat → Nat → Prop) (· < · : Nat → Nat → Prop)) :=
      (Prod.lex ⟨_, Nat.lt_wfRel.wf⟩ ⟨_, Nat.lt_wfRel.wf⟩).wf
    have hall : ∀ n, 0 ≤ (m.after n (start type b)).pos ∧
        ∀ k, (m.after k (m.after n (start type b))).InRange := by
      intro n
      refine m.after_invariant (I := fun s => 0 ≤ s.pos ∧ ∀ k, (m.after k s).InRange) ?_ hstart n
      intro s hs
      by_cases hhalted : m.Halted s
      · rw [show m.next s = s from State.next_of_halted hhalted]
        exact hs
      · exact (hinv s hs hhalted).1
    refine ⟨?_, fun n => ?_⟩
    · refine m.halts_of_measure hwf State.measure
        (I := fun s => 0 ≤ s.pos ∧ ∀ k, (m.after k s).InRange) ?_ hstart
      intro s hs hrunning
      obtain ⟨hnext, hmoves⟩ := hinv s hs hrunning
      exact ⟨hnext, hmoves.2⟩
    · rw [Machine.after_succ']
      by_cases hhalted : m.Halted (m.after n (start type b))
      · exact Int.le_of_eq (congrArg State.pos (State.next_of_halted hhalted).symm)
      · exact (hinv _ (hall n) hhalted).2.1

/-- A field 1 of type string, of length `0xFFFFFFF8`. -/
def backwardString : InputBuffer :=
  .ofData [9, 1, 0, 0xF8, 0xFF, 0xFF, 0xFF, 0x0F] (by decide)

/-- Skipping the string leads back to the header of its field. -/
theorem backwardString_loops :
    ¬ (skipMachine FastBinary.reader).Halts (start .struct backwardString) := by
  have hcycle : (skipMachine FastBinary.reader).after 3 (.running [.fields] backwardString) =
      .running [.fields] backwardString := by decide +kernel
  have hloop := (skipMachine FastBinary.reader).not_halts_of_cycle (by decide) hcycle (by
    intro i hi
    match i with
    | 0 | 1 | 2 => exact List.cons_ne_nil _ _)
  rintro ⟨n, hn⟩
  cases n with
  | zero => exact List.cons_ne_nil _ _ hn
  | succ n => exact hloop ⟨n, hn⟩

theorem not_skip_halts_forward :
    ¬ ((skipMachine TaggedProtocol.fastBinary.reader).Halts (start .struct backwardString) ∧
      ∀ n, ((skipMachine TaggedProtocol.fastBinary.reader).after n
          (start .struct backwardString)).pos ≤
        ((skipMachine TaggedProtocol.fastBinary.reader).after (n + 1)
          (start .struct backwardString)).pos) :=
  fun h => backwardString_loops h.1

theorem skip_halts_forward_emptyStruct :
    (skipMachine (CompactBinary.reader 1)).Halts (start .struct (.ofData [0] (by decide))) ∧
      ∀ n, ((skipMachine (CompactBinary.reader 1)).after n
          (start .struct (.ofData [0] (by decide)))).pos ≤
        ((skipMachine (CompactBinary.reader 1)).after (n + 1)
          (start .struct (.ofData [0] (by decide)))).pos := by
  refine (skip_halts_forward_iff (.compactBinary 1) .struct (.ofData [0] (by decide))
    (by decide)).2 fun n => ?_
  match n with
  | 0 | 1 => trivial
  | n + 2 =>
      -- the loop over the fields is left at the stop marker
      have hstop : ∃ b, (skipMachine (CompactBinary.reader 1)).after 2
          (start .struct (.ofData [0] (by decide))) = .running [] b := ⟨_, rfl⟩
      obtain ⟨b, hb⟩ := hstop
      have hstay := (skipMachine (CompactBinary.reader 1)).after_invariant
        (I := fun s => s = .running [] b) (fun s hs => by subst hs; rfl) rfl n
      rw [Machine.after_add, TaggedProtocol.reader, hb, hstay]
      trivial

end Bond.Cs

import Bond.Cpp.Types

set_option autoImplicit false

/-! # The memory input stream of C#

`Bond.IO.Safe.InputBuffer` (cs/src/core/io/safe/InputBuffer.cs) and the decoders of
`IntegerHelper`. Positions and counts are `int`: they wrap around, and a position may leave the
buffer on either side. A program that throws hands on the buffer as it was at that moment. -/

namespace Bond.Cs

open Bond.Cpp (BondDataType)

/-! ## The buffer -/

inductive Exception where
  | endOfStream
  | indexOutOfRange
  | invalidBondDataType (type : BondDataType)
deriving DecidableEq, Repr

/-- `offset`, which matters only to `Position`, is left out. -/
structure InputBuffer where
  buffer : List UInt8
  end_ : Int32
  position : Int32
  length_lt : buffer.length < 2 ^ 31
  end_nonneg : 0 ≤ end_
  end_le : end_.toInt ≤ buffer.length
deriving DecidableEq

/-- A program that reads from a buffer. -/
abbrev Reader := StateT InputBuffer (Except (Exception × InputBuffer))

namespace InputBuffer

/-- `new InputBuffer(data)` -/
def ofData (data : List UInt8) (h : data.length < 2 ^ 31) : InputBuffer where
  buffer := data
  end_ := Int32.ofNat data.length
  position := 0
  length_lt := h
  end_nonneg := by
    rw [Int32.le_iff_toInt_le, Int32.toInt_ofNat_of_lt h]
    exact Int.natCast_nonneg _
  end_le := Int.le_of_eq (Int32.toInt_ofNat_of_lt h)

def throwException {α : Type} (e : Exception) : Reader α :=
  fun b => .error (e, b)

/-- `data[index]` -/
def at_ (data : List UInt8) (index : Int32) : Except Exception UInt8 :=
  if 0 ≤ index then
    match data[index.toInt.toNat]? with
    | some v => .ok v
    | none => .error .indexOutOfRange
  else
    .error .indexOutOfRange

/-- An operation on `buffer` that moves `position` if it does not throw. -/
def onPosition {α : Type} (op : List UInt8 → Int32 → Except Exception (α × Int32)) : Reader α :=
  fun b =>
    match op b.buffer b.position with
    | .ok (v, position) => .ok (v, { b with position })
    | .error e => .error (e, b)

/-- `SkipBytes` -/
def skipBytes (count : Int32) : Reader Unit :=
  modify fun b => { b with position := b.position + count }

/-- `buffer[position++]` -/
def nextByte : Reader UInt8 :=
  onPosition fun data position => return (← at_ data position, position + 1)

/-- `ReadUInt8` -/
def readUInt8 : Reader UInt8 := do
  let b ← get
  if b.position ≥ b.end_ then throwException .endOfStream else nextByte

/-- `ReadUInt16` -/
def readUInt16 : Reader UInt16 := do
  let b ← get
  if b.position > b.end_ - 2 then
    throwException .endOfStream
  else do
    let low ← nextByte
    let high ← nextByte
    return low.toUInt16 ||| (high.toUInt16 <<< 8)

/-! ## Variable-length integers -/

/-- The bytes 1 to `masked` of a varint, and the one behind them, of which the high bit is kept.
    Unrolled in the source. Returns also the last byte. -/
def decodeTail (data : List UInt8) :
    Nat → Int32 → UInt64 → UInt64 → Except Exception (UInt64 × UInt64 × Int32)
  | 0, i, shift, result => do
      let raw ← at_ data i
      return (result ||| (raw.toUInt64 <<< shift), raw.toUInt64, i + 1)
  | masked + 1, i, shift, result => do
      let raw ← at_ data i
      let result := result ||| ((raw.toUInt64 &&& 0x7F) <<< shift)
      if 0x80 ≤ raw then
        decodeTail data masked (i + 1) (shift + 7) result
      else
        return (result, raw.toUInt64, i + 1)

/-- What the decoders of `IntegerHelper` have in common. -/
def decodeVarUInt (masked : Nat) (data : List UInt8) (index : Int32) :
    Except Exception (UInt64 × UInt64 × Int32) := do
  let raw ← at_ data index
  if 0x80 ≤ raw then
    decodeTail data masked (index + 1) 7 (raw.toUInt64 &&& 0x7F)
  else
    return (raw.toUInt64, raw.toUInt64, index + 1)

/-- `IntegerHelper.DecodeVarUInt16` -/
def decodeVarUInt16 (data : List UInt8) (index : Int32) : Except Exception (UInt16 × Int32) := do
  let (result, _, i) ← decodeVarUInt 1 data index
  return (result.toUInt16, i)

/-- `IntegerHelper.DecodeVarUInt32` -/
def decodeVarUInt32 (data : List UInt8) (index : Int32) : Except Exception (UInt32 × Int32) := do
  let (result, _, i) ← decodeVarUInt 3 data index
  return (result.toUInt32, i)

/-- `IntegerHelper.DecodeVarUInt64`: behind byte 8 a byte 9 is passed over, not read. -/
def decodeVarUInt64 (data : List UInt8) (index : Int32) : Except Exception (UInt64 × Int32) := do
  let (result, last, i) ← decodeVarUInt 7 data index
  return (result, if 0x80 ≤ last then i + 1 else i)

/-- The loop of `DecodeVarUInt64Checked`, of at most ten turns -/
def decodeCheckedLoop : Nat → UInt64 → UInt64 → Reader UInt64
  | 0, _, result => return result
  | k + 1, shift, result => do
      let raw ← readUInt8
      let result := result ||| ((raw.toUInt64 &&& 0x7F) <<< shift)
      if 0x7F < raw then decodeCheckedLoop k (shift + 7) result else return result

/-- `DecodeVarUInt64Checked` -/
def decodeVarUInt64Checked : Reader UInt64 :=
  decodeCheckedLoop 10 0 0

/-- `ReadVarUInt16` -/
def readVarUInt16 : Reader UInt16 := do
  let b ← get
  if b.position > b.end_ - 3 then
    return (← decodeVarUInt64Checked).toUInt16
  else
    onPosition decodeVarUInt16

/-- `ReadVarUInt32` -/
def readVarUInt32 : Reader UInt32 := do
  let b ← get
  if b.position > b.end_ - 5 then
    return (← decodeVarUInt64Checked).toUInt32
  else
    onPosition decodeVarUInt32

/-- `ReadVarUInt64` -/
def readVarUInt64 : Reader UInt64 := do
  let b ← get
  if b.position > b.end_ - 10 then
    decodeVarUInt64Checked
  else
    onPosition decodeVarUInt64

/-! ## Where the reads end -/

/-- The position as a number. -/
def pos (b : InputBuffer) : Int :=
  b.position.toInt

/-- The same buffer, at a later position that is still within it. -/
structure Before (b b' : InputBuffer) : Prop where
  buffer_eq : b'.buffer = b.buffer
  end_eq : b'.end_ = b.end_
  lt : b.pos < b'.pos
  le_end : b'.pos ≤ b.end_.toInt

/-- The same buffer, at the same position or a later one within it. -/
def BeforeEq (b b' : InputBuffer) : Prop :=
  b' = b ∨ b.Before b'

theorem Before.trans {b b' b'' : InputBuffer} (h : b.Before b') (h' : b'.BeforeEq b'') :
    b.Before b'' := by
  rcases h' with rfl | h'
  · exact h
  · refine ⟨h'.buffer_eq.trans h.buffer_eq, h'.end_eq.trans h.end_eq, Int.lt_trans h.lt h'.lt, ?_⟩
    rw [← h.end_eq]
    exact h'.le_end

theorem BeforeEq.pos_le {b b' : InputBuffer} (h : b.BeforeEq b') : b.pos ≤ b'.pos := by
  rcases h with rfl | h
  · exact Int.le_refl _
  · exact Int.le_of_lt h.lt

section

variable {α β : Type}

/-- How a program that started at `b` ended: forward of `b` if it did not throw, else forward of
    `b` or at `b` itself. -/
def EndsForward (b : InputBuffer) : Except (Exception × InputBuffer) (α × InputBuffer) → Prop
  | .ok (_, b') => b.Before b'
  | .error (_, b') => b.BeforeEq b'

/-- The same for a program that may leave the position where it is. -/
def EndsBeforeEq (b : InputBuffer) : Except (Exception × InputBuffer) (α × InputBuffer) → Prop
  | .ok (_, b') => b.BeforeEq b'
  | .error (_, b') => b.BeforeEq b'

/-- A program that moves the position forward, and within the buffer, from any position that is not
    negative. -/
def Forward (op : Reader α) : Prop :=
  ∀ b : InputBuffer, 0 ≤ b.pos → EndsForward b (op.run b)

def Stays (op : Reader α) : Prop :=
  ∀ b : InputBuffer, 0 ≤ b.pos → EndsBeforeEq b (op.run b)

variable {op : Reader α} {f : α → Reader β}

theorem stays_pure (a : α) : Stays (pure a : Reader α) :=
  fun _ _ => Or.inl rfl

theorem stays_throw (e : Exception) : Stays (throwException e : Reader α) :=
  fun _ _ => Or.inl rfl

theorem EndsForward.endsBeforeEq {b : InputBuffer}
    {r : Except (Exception × InputBuffer) (α × InputBuffer)} (h : EndsForward b r) :
    EndsBeforeEq b r := by
  cases r with
  | ok p => exact Or.inr h
  | error p => exact h

theorem Forward.stays (h : Forward op) : Stays op :=
  fun b hb => (h b hb).endsBeforeEq

/-- What follows a program that moved the position starts where that one ended. -/
theorem EndsForward.bind {b : InputBuffer} (h : EndsForward b (op.run b))
    (hf : ∀ a b', op.run b = .ok (a, b') → EndsBeforeEq b' ((f a).run b')) :
    EndsForward b ((op >>= f).run b) := by
  rw [StateT.run_bind]
  cases hrun : op.run b with
  | error p => rw [hrun] at h; exact h
  | ok p =>
      obtain ⟨a, b'⟩ := p
      rw [hrun] at h
      have hrest := hf a b' hrun
      show EndsForward b ((f a).run b')
      cases hrun' : (f a).run b' with
      | ok p => rw [hrun'] at hrest; exact h.trans hrest
      | error p => rw [hrun'] at hrest; exact Or.inr (h.trans hrest)

theorem Forward.bind (h : Forward op) (hf : ∀ a, Stays (f a)) : Forward (op >>= f) := by
  intro b hb
  have hop := h b hb
  refine hop.bind fun a b' hrun => hf a b' ?_
  rw [hrun] at hop
  exact Int.le_trans hb (Int.le_of_lt hop.lt)

/-- A program that looks at the buffer first. -/
theorem forward_get {f : InputBuffer → Reader α}
    (h : ∀ b, 0 ≤ b.pos → EndsForward b ((f b).run b)) : Forward (get >>= f) :=
  fun b hb => h b hb

end

/-- Steps within the range of `int` do not wrap around. -/
theorem toInt_add_small {x d : Int32} {k : Int} (hd : d.toInt = k) (hk : 0 ≤ k)
    (h : x.toInt + k < 2 ^ 31) : (x + d).toInt = x.toInt + k := by
  have hx := x.le_toInt
  rw [Int32.toInt_add, hd]
  exact Int.bmod_eq_of_le (by simp; omega) (by simp; omega)

theorem toInt_sub_small {x d : Int32} {k : Int} (hd : d.toInt = k) (hk : 0 ≤ k)
    (hx : 0 ≤ x) (hlt : k < 2 ^ 31) : (x - d).toInt = x.toInt - k := by
  have hnonneg := Int32.le_iff_toInt_le.1 hx
  have hx' := x.toInt_lt
  simp only [Int32.toInt_zero] at hnonneg
  rw [Int32.toInt_sub, hd]
  exact Int.bmod_eq_of_le (by simp; omega) (by simp; omega)

theorem end_lt (b : InputBuffer) : b.end_.toInt < 2 ^ 31 := by
  have hend := b.end_.toInt_lt
  simpa using hend

/-- A byte that is read moves the position by one. -/
theorem nextByte_ok {b b' : InputBuffer} {v : UInt8} (h : nextByte.run b = .ok (v, b'))
    (hlt : b.pos < b.end_.toInt) :
    b'.buffer = b.buffer ∧ b'.end_ = b.end_ ∧ b'.pos = b.pos + 1 := by
  have hend := b.end_lt
  have hnext : (b.position + 1).toInt = b.pos + 1 :=
    toInt_add_small (by decide) (by decide) (by unfold pos at hlt; omega)
  cases hbyte : at_ b.buffer b.position with
  | error e => simp [StateT.run, nextByte, onPosition, hbyte, bind, Except.bind] at h
  | ok raw =>
      simp only [StateT.run, nextByte, onPosition, hbyte, bind, Except.bind, pure, Except.pure,
        Except.ok.injEq, Prod.mk.injEq] at h
      obtain ⟨-, rfl⟩ := h
      exact ⟨rfl, rfl, hnext⟩

theorem nextByte_endsForward {b : InputBuffer} (hlt : b.pos < b.end_.toInt) :
    EndsForward b (nextByte.run b) := by
  cases hrun : nextByte.run b with
  | ok p =>
      obtain ⟨v, b'⟩ := p
      obtain ⟨hbuffer, hend, hpos⟩ := nextByte_ok hrun hlt
      exact ⟨hbuffer, hend, by omega, by omega⟩
  | error p =>
      cases hbyte : at_ b.buffer b.position with
      | error e =>
          simp only [StateT.run, nextByte, onPosition, hbyte, bind, Except.bind,
            Except.error.injEq] at hrun
          subst hrun
          exact Or.inl rfl
      | ok raw =>
          simp [StateT.run, nextByte, onPosition, hbyte, bind, Except.bind, pure,
            Except.pure] at hrun

theorem forward_readUInt8 : Forward readUInt8 := by
  refine forward_get fun b hb => ?_
  by_cases hge : b.position ≥ b.end_
  · rw [if_pos hge]
    exact Or.inl rfl
  · have hlt : b.pos < b.end_.toInt := by
      have hnot := mt Int32.le_iff_toInt_le.2 hge
      exact Int.not_le.1 hnot
    rw [if_neg hge]
    exact nextByte_endsForward hlt

theorem forward_readUInt16 : Forward readUInt16 := by
  refine forward_get fun b hb => ?_
  have htwo : (b.end_ - 2).toInt = b.end_.toInt - 2 :=
    toInt_sub_small (by decide) (by decide) b.end_nonneg (by decide)
  by_cases hgt : b.position > b.end_ - 2
  · rw [if_pos hgt]
    exact Or.inl rfl
  · have hle : b.pos ≤ b.end_.toInt - 2 := by
      have hnot := mt Int32.lt_iff_toInt_lt.2 hgt
      rw [htwo] at hnot
      exact Int.not_lt.1 hnot
    rw [if_neg hgt]
    refine (nextByte_endsForward (by omega)).bind fun low b' hlow => ?_
    obtain ⟨-, hend, hpos⟩ := nextByte_ok hlow (by omega)
    have hhigh : EndsForward b' (nextByte.run b') := nextByte_endsForward (by rw [hend]; omega)
    refine EndsForward.endsBeforeEq (hhigh.bind fun high b'' _ => ?_)
    exact (Or.inl rfl : b''.BeforeEq b'')

/-- An operation that moves the position by one to `limit` bytes is a forward program where that
    many bytes are left. -/
theorem onPosition_run {α : Type} {op : List UInt8 → Int32 → Except Exception (α × Int32)}
    {limit : Int} {b : InputBuffer} (hle : b.pos + limit ≤ b.end_.toInt)
    (hop : ∀ v i, op b.buffer b.position = .ok (v, i) →
      b.pos < i.toInt ∧ i.toInt ≤ b.pos + limit) :
    EndsForward b ((onPosition op).run b) := by
  cases hres : op b.buffer b.position with
  | error e =>
      simp only [StateT.run, onPosition, hres]
      exact Or.inl rfl
  | ok p =>
      obtain ⟨v, i⟩ := p
      obtain ⟨hlt, hlimit⟩ := hop v i hres
      simp only [StateT.run, onPosition, hres]
      exact ⟨rfl, rfl, hlt, Int.le_trans hlimit hle⟩

theorem decodeTail_index {data : List UInt8} {masked : Nat} {i i' : Int32}
    {shift result v last : UInt64} (h : decodeTail data masked i shift result = .ok (v, last, i'))
    (hi : i.toInt + masked + 1 < 2 ^ 31) :
    i.toInt < i'.toInt ∧ i'.toInt ≤ i.toInt + masked + 1 := by
  induction masked generalizing i shift result with
  | zero =>
      have hnext : (i + 1).toInt = i.toInt + 1 :=
        toInt_add_small (by decide) (by decide) (by omega)
      cases hbyte : at_ data i with
      | error e => simp [decodeTail, hbyte, bind, Except.bind] at h
      | ok raw =>
          simp only [decodeTail, hbyte, bind, Except.bind, pure, Except.pure, Except.ok.injEq,
            Prod.mk.injEq] at h
          obtain ⟨-, -, rfl⟩ := h
          omega
  | succ masked ih =>
      have hnext : (i + 1).toInt = i.toInt + 1 :=
        toInt_add_small (by decide) (by decide) (by omega)
      cases hbyte : at_ data i with
      | error e => simp [decodeTail, hbyte, bind, Except.bind] at h
      | ok raw =>
          simp only [decodeTail, hbyte, bind, Except.bind] at h
          split at h
          · have hrest := ih h (by omega)
            omega
          · simp only [pure, Except.pure, Except.ok.injEq, Prod.mk.injEq] at h
            obtain ⟨-, -, rfl⟩ := h
            omega

theorem decodeVarUInt_index {data : List UInt8} {masked : Nat} {i i' : Int32} {v last : UInt64}
    (h : decodeVarUInt masked data i = .ok (v, last, i')) (hi : i.toInt + masked + 2 < 2 ^ 31) :
    i.toInt < i'.toInt ∧ i'.toInt ≤ i.toInt + masked + 2 := by
  have hnext : (i + 1).toInt = i.toInt + 1 :=
    toInt_add_small (by decide) (by decide) (by omega)
  cases hbyte : at_ data i with
  | error e => simp [decodeVarUInt, hbyte, bind, Except.bind] at h
  | ok raw =>
      simp only [decodeVarUInt, hbyte, bind, Except.bind] at h
      split at h
      · have hrest := decodeTail_index h (by omega)
        omega
      · simp only [pure, Except.pure, Except.ok.injEq, Prod.mk.injEq] at h
        obtain ⟨-, -, rfl⟩ := h
        omega

/-- The position moves forward with every turn of the loop, and there is at least one. -/
theorem stays_decodeCheckedLoop (k : Nat) (shift result : UInt64) :
    Stays (decodeCheckedLoop k shift result) := by
  induction k generalizing shift result with
  | zero => exact stays_pure result
  | succ k ih =>
      refine (forward_readUInt8.bind fun raw => ?_).stays
      split
      · exact ih _ _
      · exact stays_pure _

theorem forward_decodeVarUInt64Checked : Forward decodeVarUInt64Checked := by
  refine forward_readUInt8.bind fun raw => ?_
  split
  · exact stays_decodeCheckedLoop _ _ _
  · exact stays_pure _

/-- The three varint readers: the checked loop near the end, an unchecked decoder elsewhere. -/
theorem forward_readVarUInt {α : Type} {op : List UInt8 → Int32 → Except Exception (α × Int32)}
    {checked : Reader α} {size : Int32} {k : Int} (hchecked : Forward checked)
    (hsize : size.toInt = k) (hk : 0 ≤ k) (hlt : k < 2 ^ 31)
    (hop : ∀ (b : InputBuffer) v i, b.pos + k < 2 ^ 31 → op b.buffer b.position = .ok (v, i) →
      b.pos < i.toInt ∧ i.toInt ≤ b.pos + k) :
    Forward (do
      let b ← get
      if b.position > b.end_ - size then checked else onPosition op) := by
  refine forward_get fun b hb => ?_
  have hsub : (b.end_ - size).toInt = b.end_.toInt - k :=
    toInt_sub_small hsize hk b.end_nonneg hlt
  by_cases hgt : b.position > b.end_ - size
  · rw [if_pos hgt]
    exact hchecked b hb
  · have hle : b.pos ≤ b.end_.toInt - k := by
      have hnot := mt Int32.lt_iff_toInt_lt.2 hgt
      rw [hsub] at hnot
      exact Int.not_lt.1 hnot
    have hend := b.end_lt
    rw [if_neg hgt]
    exact onPosition_run (by omega) fun v i h => hop b v i (by omega) h

theorem forward_readVarUInt16 : Forward readVarUInt16 := by
  refine forward_readVarUInt (k := 3) (forward_decodeVarUInt64Checked.bind fun v => stays_pure _)
    (by decide) (by decide) (by decide) fun b v i hlt h => ?_
  unfold decodeVarUInt16 at h
  cases hres : decodeVarUInt 1 b.buffer b.position with
  | error e => simp [hres, bind, Except.bind] at h
  | ok p =>
      simp only [hres, bind, Except.bind, pure, Except.pure, Except.ok.injEq, Prod.mk.injEq] at h
      obtain ⟨-, rfl⟩ := h
      have hindex := decodeVarUInt_index hres (show b.pos + 1 + 2 < 2 ^ 31 by omega)
      unfold pos
      omega

theorem forward_readVarUInt32 : Forward readVarUInt32 := by
  refine forward_readVarUInt (k := 5) (forward_decodeVarUInt64Checked.bind fun v => stays_pure _)
    (by decide) (by decide) (by decide) fun b v i hlt h => ?_
  unfold decodeVarUInt32 at h
  cases hres : decodeVarUInt 3 b.buffer b.position with
  | error e => simp [hres, bind, Except.bind] at h
  | ok p =>
      simp only [hres, bind, Except.bind, pure, Except.pure, Except.ok.injEq, Prod.mk.injEq] at h
      obtain ⟨-, rfl⟩ := h
      have hindex := decodeVarUInt_index hres (show b.pos + 3 + 2 < 2 ^ 31 by omega)
      unfold pos
      omega

theorem forward_readVarUInt64 : Forward readVarUInt64 := by
  refine forward_readVarUInt (k := 10) forward_decodeVarUInt64Checked (by decide) (by decide)
    (by decide) fun b v i hlt h => ?_
  unfold decodeVarUInt64 at h
  cases hres : decodeVarUInt 7 b.buffer b.position with
  | error e => simp [hres, bind, Except.bind] at h
  | ok p =>
      obtain ⟨result, last, i'⟩ := p
      simp only [hres, bind, Except.bind, pure, Except.pure, Except.ok.injEq, Prod.mk.injEq] at h
      obtain ⟨-, rfl⟩ := h
      have hindex := decodeVarUInt_index hres (show b.pos + 7 + 2 < 2 ^ 31 by omega)
      have hnext : (i' + 1).toInt = i'.toInt + 1 :=
        toInt_add_small (by decide) (by decide) (by unfold pos at hlt; omega)
      unfold pos at hlt ⊢
      split <;> omega

end InputBuffer

end Bond.Cs

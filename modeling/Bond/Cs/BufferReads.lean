import Bond.Lib.Decoder
import Bond.Lib.Varint
import Bond.Cs.InputBuffer

set_option autoImplicit false

/-! # Reading from the memory input stream of C#

The reads of `InputBuffer` (cs/src/core/io/safe/InputBuffer.cs) that untagged protocols use, and what
all its reads do on what they are meant for: as long as the position is inside of the buffer, the
buffer is a cursor over what is behind the position. -/

namespace Bond.Cs

open Decoder Varint

namespace InputBuffer

/-! ## The reads -/

/-- `ReadUInt32`, byte by byte -/
def readUInt32 : Reader UInt32 := do
  let b ← get
  if b.position > b.end_ - 4 then
    throwException .endOfStream
  else do
    let b0 ← nextByte
    let b1 ← nextByte
    let b2 ← nextByte
    let b3 ← nextByte
    return UInt32.ofNat (ofLittleEndian [b0, b1, b2, b3])

/-- The bytes that `BitConverter`, `Encoding.GetString` or an `ArraySegment` takes from an array. -/
def bytesAt (data : List UInt8) (index count : Int32) : Except Exception (List UInt8) :=
  if 0 ≤ index ∧ 0 ≤ count ∧ index.toInt + count.toInt ≤ data.length then
    .ok ((data.drop index.toInt.toNat).take count.toInt.toNat)
  else
    .error .indexOutOfRange

/-- `ReadBytes`, and `ReadString` before the bytes are decoded -/
def readBytes (count : Int32) : Reader (List UInt8) := do
  let b ← get
  if b.position > b.end_ - count then
    throwException .endOfStream
  else
    onPosition fun data position => do
      let bytes ← bytesAt data position count
      return (bytes, position + count)

/-- `ReadUInt64`, and the bits of `ReadFloat` and `ReadDouble`, with their `sizeof` -/
def readBits (size : Int32) : Reader Nat :=
  ofLittleEndian <$> readBytes size

/-! ## The buffer as a cursor -/

/-- The position is inside of the buffer, or right behind it. -/
def Inside (b : InputBuffer) : Prop :=
  0 ≤ b.position.toInt ∧ b.position.toInt ≤ b.end_.toInt

instance (b : InputBuffer) : Decidable b.Inside :=
  inferInstanceAs (Decidable (_ ∧ _))

/-- The bytes from the position to the end. -/
def remaining (b : InputBuffer) : List UInt8 :=
  if b.Inside then (b.buffer.take b.end_.toInt.toNat).drop b.position.toInt.toNat else []

/-- The buffer behind some more bytes. -/
def advance (b : InputBuffer) (k : Nat) : InputBuffer :=
  if b.Inside then
    { b with position := Int32.ofNat (min (b.position.toInt.toNat + k) b.end_.toInt.toNat) }
  else b

theorem end_toInt (b : InputBuffer) : 0 ≤ b.end_.toInt ∧ b.end_.toInt < 2 ^ 31 := by
  have hnonneg := b.end_nonneg
  rw [Int32.le_iff_toInt_le] at hnonneg
  exact ⟨hnonneg, b.end_.toInt_lt⟩

theorem advance_position {b : InputBuffer} (h : b.Inside) (k : Nat) :
    (b.advance k).position.toInt
      = (min (b.position.toInt.toNat + k) b.end_.toInt.toNat : Nat) := by
  have hend := b.end_toInt
  rw [advance, if_pos h]
  exact Int32.toInt_ofNat_of_lt (by omega)

theorem advance_buffer (b : InputBuffer) (k : Nat) : (b.advance k).buffer = b.buffer := by
  unfold advance
  split <;> rfl

theorem advance_end (b : InputBuffer) (k : Nat) : (b.advance k).end_ = b.end_ := by
  unfold advance
  split <;> rfl

theorem advance_inside {b : InputBuffer} (h : b.Inside) (k : Nat) : (b.advance k).Inside := by
  have hend := b.end_toInt
  unfold Inside
  rw [advance_position h k, advance_end]
  omega

theorem eq_of_fields {b b' : InputBuffer} (hbuffer : b.buffer = b'.buffer) (hend : b.end_ = b'.end_)
    (hposition : b.position = b'.position) : b = b' := by
  cases b
  cases b'
  cases hbuffer
  cases hend
  cases hposition
  rfl

instance : Cursor InputBuffer UInt8 where
  remaining := remaining
  advance := advance
  advance_zero b := by
    by_cases h : b.Inside
    · refine eq_of_fields (advance_buffer b 0) (advance_end b 0) ?_
      rw [← Int32.toInt_inj, advance_position h]
      unfold Inside at h
      omega
    · rw [advance, if_neg h]
  advance_advance b k l := by
    by_cases h : b.Inside
    · refine eq_of_fields ?_ ?_ ?_
      · rw [advance_buffer, advance_buffer, advance_buffer]
      · rw [advance_end, advance_end, advance_end]
      · rw [← Int32.toInt_inj, advance_position (advance_inside h k), advance_position h,
          advance_position h, advance_end]
        omega
    · have hk : b.advance k = b := by rw [advance, if_neg h]
      rw [hk, advance, if_neg h, advance, if_neg h]
  remaining_advance b k := by
    by_cases h : b.Inside
    · have hk := advance_inside h k
      have hposition := advance_position h k
      rw [remaining, remaining, if_pos h, if_pos hk, advance_buffer, advance_end, hposition,
        List.drop_drop, Int.toNat_natCast]
      by_cases hle : b.position.toInt.toNat + k ≤ b.end_.toInt.toNat
      · rw [Nat.min_eq_left hle]
      · rw [Nat.min_eq_right (by omega), List.drop_eq_nil_of_le (by rw [List.length_take]; omega),
          List.drop_eq_nil_of_le (by rw [List.length_take]; omega)]
    · have hk : b.advance k = b := by rw [advance, if_neg h]
      rw [hk, remaining, if_neg h, List.drop_nil]

/-! ## What the reads do on their encodings -/

section

variable {b : InputBuffer} {enc rest : List UInt8}

/-- The first bytes from the position on are in the array, in front of the end. -/
theorem drop_of_remaining (h : remaining b = enc ++ rest) (hne : enc ≠ []) :
    b.Inside ∧ b.position.toInt + enc.length ≤ b.end_.toInt ∧
      ∃ more, b.buffer.drop b.position.toInt.toNat = enc ++ rest ++ more := by
  have hend := b.end_toInt
  unfold remaining at h
  split at h
  · next hinside =>
      have hlength := congrArg List.length h
      rw [List.length_drop, List.length_take, List.length_append] at hlength
      have hpos := List.length_pos_of_ne_nil hne
      unfold Inside at hinside
      refine ⟨hinside, by omega, b.buffer.drop b.end_.toInt.toNat, ?_⟩
      have hsplit := List.take_append_drop b.end_.toInt.toNat b.buffer
      have hle : b.position.toInt.toNat ≤ (b.buffer.take b.end_.toInt.toNat).length := by
        rw [List.length_take]
        omega
      rw [← h, ← List.drop_append_of_le_length hle, hsplit]
  · cases enc with
    | nil => exact absurd rfl hne
    | cons => cases h

/-- A position that moves over some bytes in front of the end. -/
theorem position_add {k : Nat} {count : Int32} (hinside : b.Inside) (hcount : count.toInt = k)
    (hle : b.position.toInt + k ≤ b.end_.toInt) :
    { b with position := b.position + count } = b.advance k := by
  have hend := b.end_toInt
  refine eq_of_fields (advance_buffer b k).symm (advance_end b k).symm ?_
  have hlt : b.position.toInt + (k : Int) < 2 ^ 31 := by omega
  have hadd := toInt_add_small hcount (Int.natCast_nonneg k) hlt
  unfold Inside at hinside
  rw [← Int32.toInt_inj, advance_position hinside]
  refine hadd.trans ?_
  omega

/-- The byte at an index. -/
theorem at_eq {data : List UInt8} {index : Int32} {i : Nat} {v : UInt8} {bytes : List UInt8}
    (hindex : index.toInt = i) (h : data.drop i = v :: bytes) : at_ data index = .ok v := by
  have hnonneg : (0 : Int32) ≤ index := by
    rw [Int32.le_iff_toInt_le, hindex]
    exact Int.natCast_nonneg i
  have hget : data[i]? = some v := by
    rw [← Nat.add_zero i, ← List.getElem?_drop, h]
    rfl
  unfold at_
  rw [if_pos hnonneg, hindex, Int.toNat_natCast, hget]

end

/-- An operation that reads `enc` wherever it is in the array. -/
theorem decodes_onPosition {α : Type} {op : List UInt8 → Int32 → Except Exception (α × Int32)}
    {enc : List UInt8} {a : α} (hne : enc ≠ [])
    (hop : ∀ (data : List UInt8) (index : Int32) (rest : List UInt8), 0 ≤ index.toInt →
      index.toInt + enc.length < 2 ^ 31 → data.drop index.toInt.toNat = enc ++ rest →
      op data index = .ok (a, index + Int32.ofNat enc.length)) :
    Decodes (onPosition op) enc (pure a) := by
  intro b rest h
  have hend := b.end_toInt
  obtain ⟨hinside, hle, more, hdrop⟩ := drop_of_remaining h hne
  rw [List.append_assoc] at hdrop
  have hrun := hop b.buffer b.position (rest ++ more) hinside.1 (by omega) hdrop
  have hlen : (Int32.ofNat enc.length).toInt = enc.length :=
    Int32.toInt_ofNat_of_lt (by unfold Inside at hinside; omega)
  simp only [StateT.run, onPosition, hrun]
  rw [position_add hinside hlen hle]
  rfl

theorem decodes_nextByte (v : UInt8) : Decodes nextByte [v] (pure v) := by
  refine decodes_onPosition (by simp) fun data index rest hindex _ hdrop => ?_
  rw [at_eq (Int.toNat_of_nonneg hindex).symm hdrop]
  rfl

theorem decodes_readUInt8 (v : UInt8) : Decodes readUInt8 [v] (pure v) := by
  intro b rest h
  obtain ⟨hinside, hle, -⟩ := drop_of_remaining h (by simp)
  have hlt : ¬ b.position ≥ b.end_ := by
    rw [ge_iff_le, Int32.le_iff_toInt_le]
    simp only [List.length_singleton] at hle
    omega
  have hrun : readUInt8.run b = nextByte.run b := by
    show (if b.position ≥ b.end_ then throwException Exception.endOfStream else nextByte) b = _
    rw [if_neg hlt]
    rfl
  rw [hrun]
  exact decodes_nextByte v b rest h

/-- Skipping passes over as many bytes as it is told to. -/
theorem decodes_skipBytes {bs : List UInt8} (hlen : bs.length < 2 ^ 31) :
    Decodes (skipBytes (Int32.ofNat bs.length)) bs (pure ()) := by
  intro b rest h
  show Except.ok ((), { b with position := b.position + Int32.ofNat bs.length })
    = Except.ok ((), b.advance bs.length)
  cases bs with
  | nil =>
      rw [show b.advance [].length = b from Cursor.advance_zero b]
      have hzero : b.position + Int32.ofNat ([] : List UInt8).length = b.position := by
        show b.position + 0 = b.position
        rw [Int32.add_zero]
      rw [hzero]
  | cons v bs =>
      obtain ⟨hinside, hle, -⟩ := drop_of_remaining h (by simp)
      rw [position_add hinside (Int32.toInt_ofNat_of_lt hlen) hle]

/-! ### Integers of fixed width -/

/-- Reading where there is a check for `size` bytes in front of it. -/
theorem decodes_checked {α : Type} {size : Int32} {k : Nat} (hsize : size.toInt = k)
    {op : Reader α} {enc : List UInt8} {a : α} (hle : k ≤ enc.length) (hne : enc ≠ [])
    (hop : Decodes op enc (pure a)) :
    Decodes (do
      let b ← get
      if b.position > b.end_ - size then throwException .endOfStream else op) enc (pure a) := by
  intro b rest h
  have hend := b.end_toInt
  obtain ⟨hinside, hlength, -⟩ := drop_of_remaining h hne
  have hk : (k : Int) < 2 ^ 31 := by
    have hlt := size.toInt_lt
    rw [hsize] at hlt
    simpa using hlt
  have hlimit := toInt_sub_small hsize (Int.natCast_nonneg k) b.end_nonneg hk
  have hcheck : ¬ b.position > b.end_ - size := by
    rw [gt_iff_lt, Int32.lt_iff_toInt_lt, hlimit]
    omega
  have hrun : (do
      let b ← get
      if b.position > b.end_ - size then throwException .endOfStream else op : Reader α).run b
        = op.run b := by
    show (if b.position > b.end_ - size then throwException .endOfStream else op : Reader α) b = _
    rw [if_neg hcheck]
    rfl
  rw [hrun]
  exact hop b rest h

theorem joined_bytes {n : Nat} (h : n < 2 ^ 16) :
    (UInt8.ofNat n).toUInt16 ||| ((UInt8.ofNat (n / 256)).toUInt16 <<< 8) = UInt16.ofNat n := by
  have hlow : n % 256 < 2 ^ 8 := Nat.mod_lt _ (by decide)
  have hor := Nat.two_pow_add_eq_or_of_lt hlow (n / 256)
  have hhigh : n / 256 % 256 * 256 % 65536 = 2 ^ 8 * (n / 256) := by omega
  rw [← UInt16.toNat_inj]
  simp only [UInt16.toNat_or, UInt16.toNat_shiftLeft, UInt8.toNat_toUInt16, UInt8.toNat_ofNat',
    UInt16.toNat_ofNat', Nat.shiftLeft_eq, UInt16.reduceToNat, Nat.reduceMod, Nat.reducePow]
  rw [hhigh, Nat.or_comm, ← hor]
  omega

theorem decodes_readUInt16 (n : Nat) (h : n < 2 ^ 16) :
    Decodes readUInt16 (littleEndian 2 n) (pure (UInt16.ofNat n)) := by
  refine decodes_checked (k := 2) rfl (by simp) (by simp [littleEndian]) ?_
  have hlast := (decodes_nextByte (UInt8.ofNat (n / 256))).bind_return fun high =>
    (UInt8.ofNat n).toUInt16 ||| (high.toUInt16 <<< 8)
  rw [joined_bytes h] at hlast
  exact (decodes_nextByte _).bind_pure hlast

theorem decodes_readUInt32 (n : Nat) (h : n < 2 ^ 32) :
    Decodes readUInt32 (littleEndian 4 n) (pure (UInt32.ofNat n)) := by
  have hbytes := ofLittleEndian_littleEndian 4 n h
  refine decodes_checked (k := 4) rfl (by simp) (by simp [littleEndian]) ?_
  simp only [littleEndian] at hbytes ⊢
  have hlast := (decodes_nextByte (UInt8.ofNat (n / 256 / 256 / 256))).bind_return fun b3 =>
    UInt32.ofNat (ofLittleEndian
      [UInt8.ofNat n, UInt8.ofNat (n / 256), UInt8.ofNat (n / 256 / 256), b3])
  rw [hbytes] at hlast
  exact (decodes_nextByte _).bind_pure ((decodes_nextByte _).bind_pure
    ((decodes_nextByte _).bind_pure hlast))

theorem decodes_readBytes {bs : List UInt8} (hlen : bs.length < 2 ^ 31) (hne : bs ≠ []) :
    Decodes (readBytes (Int32.ofNat bs.length)) bs (pure bs) := by
  have hcount : (Int32.ofNat bs.length).toInt = bs.length := Int32.toInt_ofNat_of_lt hlen
  refine decodes_checked hcount (Nat.le_refl _) hne ?_
  refine decodes_onPosition hne fun data index rest hindex hlt hdrop => ?_
  have hlength := congrArg List.length hdrop
  rw [List.length_drop, List.length_append] at hlength
  have hpos := List.length_pos_of_ne_nil hne
  have hslice : bytesAt data index (Int32.ofNat bs.length) = .ok bs := by
    unfold bytesAt
    rw [if_pos, hcount, Int.toNat_natCast, hdrop, List.take_left]
    refine ⟨?_, ?_, ?_⟩
    · rwa [Int32.le_iff_toInt_le]
    · rw [Int32.le_iff_toInt_le, hcount]
      exact Int.natCast_nonneg _
    · rw [hcount]
      omega
  rw [hslice]
  rfl

theorem decodes_readBits {size : Int32} {k : Nat} (hsize : size.toInt = k) (hk : 0 < k) (n : Nat)
    (h : n < 256 ^ k) : Decodes (readBits size) (littleEndian k n) (pure n) := by
  have hlen : (littleEndian k n).length = k := littleEndian_length k n
  have hlt : k < 2 ^ 31 := by
    have hlt := size.toInt_lt
    rw [hsize] at hlt
    simp only [Int.reducePow] at hlt
    omega
  have hne : littleEndian k n ≠ [] := by
    intro hnil
    rw [hnil] at hlen
    simp at hlen
    omega
  have hread := (decodes_readBytes (by rwa [hlen]) hne).map ofLittleEndian
  have hcount : Int32.ofNat (littleEndian k n).length = size := by
    rw [← Int32.toInt_inj, hsize, hlen]
    exact Int32.toInt_ofNat_of_lt hlt
  rw [hcount, map_pure, ofLittleEndian_littleEndian k n h] at hread
  exact hread

end InputBuffer

end Bond.Cs

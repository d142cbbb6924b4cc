import Bond.Cs.BufferReads
import Bond.Cs.CompactBinaryWriter

set_option autoImplicit false

/-! # The paths of a variable-length integer in C#

`ReadVarUInt16`, `ReadVarUInt32` and `ReadVarUInt64` of `InputBuffer`
(cs/src/core/io/safe/InputBuffer.cs) take the unrolled decoder of `IntegerHelper` when enough bytes
are left, and `DecodeVarUInt64Checked` otherwise. The loop reads up to a byte without the high bit,
ten bytes at most. An unrolled decoder reads three bytes, or five, or nine, and then ends whatever
the high bit says. -/

namespace Bond.Cs

open Decoder Varint

namespace InputBuffer

/-! ## Representations of a number -/

/-- What a decoder of at most `k` bytes reads: nothing is behind a byte without the high bit, and
    nothing is behind the `k`th byte. -/
def IsVarint : Nat → List UInt8 → Prop
  | 0, bytes => bytes = []
  | _ + 1, [] => False
  | k + 1, byte :: bytes => if 0x80 ≤ byte then IsVarint k bytes else bytes = []

/-- Every byte says that there is another one. -/
def Unended (bytes : List UInt8) : Prop :=
  ∀ byte ∈ bytes, 0x80 ≤ byte

instance (bytes : List UInt8) : Decidable (Unended bytes) :=
  inferInstanceAs (Decidable (∀ byte ∈ bytes, 0x80 ≤ byte))

/-- The number that the bytes denote where the byte behind `masked` others is kept whole. -/
def kept : Nat → List UInt8 → Nat
  | _, [] => 0
  | 0, byte :: _ => byte.toNat
  | masked + 1, byte :: bytes => byte.toNat % 128 + 128 * kept masked bytes

theorem exists_isVarint {k : Nat} {bytes : List UInt8} (h : k ≤ bytes.length) :
    ∃ front rest, bytes = front ++ rest ∧ IsVarint k front := by
  induction k generalizing bytes with
  | zero => exact ⟨[], bytes, rfl, rfl⟩
  | succ k ih =>
      cases bytes with
      | nil => simp at h
      | cons byte bytes =>
          by_cases hmore : 0x80 ≤ byte
          · obtain ⟨front, rest, rfl, hfront⟩ := ih (by simpa using h)
            refine ⟨byte :: front, rest, rfl, ?_⟩
            rwa [IsVarint, if_pos hmore]
          · refine ⟨[byte], bytes, rfl, ?_⟩
            rw [IsVarint, if_neg hmore]

theorem IsVarint.length_le {k : Nat} {bytes : List UInt8} (h : IsVarint k bytes) :
    bytes.length ≤ k := by
  induction k generalizing bytes with
  | zero => rw [show bytes = [] from h, List.length_nil]
  | succ k ih =>
      cases bytes with
      | nil => exact Nat.zero_le _
      | cons byte bytes =>
          rw [IsVarint] at h
          split at h
          · exact Nat.succ_le_succ (ih h)
          · rw [h]
            simp

theorem IsVarint.ne_nil {k : Nat} {bytes : List UInt8} (h : IsVarint (k + 1) bytes) :
    bytes ≠ [] := by
  rintro rfl
  exact h

theorem IsVarint.length_eq {k : Nat} {bytes : List UInt8} (h : IsVarint k bytes)
    (hunended : Unended bytes) : bytes.length = k := by
  induction k generalizing bytes with
  | zero => rw [show bytes = [] from h, List.length_nil]
  | succ k ih =>
      cases bytes with
      | nil => exact absurd rfl h.ne_nil
      | cons byte bytes =>
          obtain ⟨hbyte, hrest⟩ := List.forall_mem_cons.1 hunended
          rw [IsVarint, if_pos hbyte] at h
          rw [List.length_cons, ih h hrest]

/-- A decoder of more bytes reads the same if there is a byte without the high bit. -/
theorem IsVarint.mono {k k' : Nat} {bytes : List UInt8} (h : IsVarint k bytes) (hk : k ≤ k')
    (hended : ¬ Unended bytes) : IsVarint k' bytes := by
  induction k generalizing k' bytes with
  | zero =>
      obtain rfl : bytes = [] := h
      exact absurd (by simp [Unended]) hended
  | succ k ih =>
      obtain ⟨k', rfl⟩ : ∃ m, k' = m + 1 := ⟨k' - 1, by omega⟩
      cases bytes with
      | nil => exact absurd rfl h.ne_nil
      | cons byte bytes =>
          rw [IsVarint] at h ⊢
          split at h
          · next hbyte =>
              rw [if_pos hbyte]
              refine ih h (by omega) fun hrest => hended ?_
              exact List.forall_mem_cons.2 ⟨hbyte, hrest⟩
          · next hbyte => rwa [if_neg hbyte]

theorem IsVarint.exists_low_iff {k : Nat} {bytes rest : List UInt8} (h : IsVarint k bytes) :
    (∃ byte ∈ (bytes ++ rest).take k, byte < 0x80) ↔ ¬ Unended bytes := by
  constructor
  · rintro ⟨byte, hmem, hlow⟩ hunended
    rw [← h.length_eq hunended, List.take_left] at hmem
    exact absurd hlow (UInt8.not_lt.2 (hunended byte hmem))
  · intro hended
    obtain ⟨byte, hmem, hlow⟩ : ∃ byte ∈ bytes, ¬ 0x80 ≤ byte := by
      simpa [Unended] using hended
    refine ⟨byte, ?_, UInt8.not_le.1 hlow⟩
    rw [List.take_append]
    exact List.mem_append_left _ (by rwa [List.take_of_length_le h.length_le])

/-- The high bit of the byte that is kept whole counts as a digit. -/
theorem kept_eq {masked : Nat} {bytes : List UInt8} (h : IsVarint (masked + 1) bytes) :
    kept masked bytes
      = ofVarint bytes + if Unended bytes then 2 ^ (7 * (masked + 1)) else 0 := by
  induction masked generalizing bytes with
  | zero =>
      cases bytes with
      | nil => exact absurd rfl h.ne_nil
      | cons byte bytes =>
          obtain rfl : bytes = [] := by
            rw [IsVarint] at h
            split at h
            · exact h
            · exact h
          have hlt := byte.toNat_lt
          simp only [kept, ofVarint, Unended, List.mem_singleton, forall_eq,
            UInt8.le_iff_toNat_le, UInt8.reduceToNat]
          split <;> omega
  | succ masked ih =>
      cases bytes with
      | nil => exact absurd rfl h.ne_nil
      | cons byte bytes =>
          rw [IsVarint] at h
          split at h
          · next hbyte =>
              have hunended : Unended (byte :: bytes) ↔ Unended bytes := by
                simp [Unended, hbyte]
              rw [kept, ih h, ofVarint, if_congr hunended rfl rfl]
              split
              · ring
              · ring
          · next hbyte =>
              have hended : ¬ Unended (byte :: bytes) := fun hunended =>
                hbyte (hunended byte List.mem_cons_self)
              rw [if_neg hended, h]
              simp [kept, ofVarint]

/-! ## The unrolled decoders -/

theorem toUInt64_eq (byte : UInt8) : byte.toUInt64 = UInt64.ofNat byte.toNat := by
  rw [← UInt64.toNat_inj, UInt8.toNat_toUInt64, UInt64.toNat_ofNat']
  have hlt := byte.toNat_lt
  omega

theorem low_digit (byte : UInt8) : byte.toUInt64 &&& 0x7F = UInt64.ofNat (byte.toNat % 128) := by
  rw [← UInt64.toNat_inj, UInt64.toNat_and, UInt8.toNat_toUInt64, UInt64.toNat_ofNat',
    show (0x7F : UInt64).toNat = 2 ^ 7 - 1 from rfl, Nat.and_two_pow_sub_one_eq_mod]
  omega

theorem high_bit_toUInt64 (byte : UInt8) : 0x80 ≤ byte.toUInt64 ↔ 0x80 ≤ byte := by
  rw [UInt64.le_iff_toNat_le, UInt8.le_iff_toNat_le, UInt8.toNat_toUInt64]
  rfl

/-- Digits in front of those behind them. -/
theorem or_shiftLeft_ofNat {r shift : Nat} (n : Nat) (hr : r < 2 ^ shift) (hshift : shift < 64) :
    UInt64.ofNat r ||| (UInt64.ofNat n <<< UInt64.ofNat shift)
      = UInt64.ofNat (r + n * 2 ^ shift) := by
  rw [← UInt64.ofNat_shiftLeft _ _ hshift, ← UInt64.ofNat_or,
    Cpp.InputBuffer.or_shiftLeft_eq_add hr]

theorem ofNat_succ_shift (shift : Nat) : UInt64.ofNat shift + 7 = UInt64.ofNat (shift + 7) := by
  rw [UInt64.ofNat_add]
  rfl

/-- The place behind the next byte. -/
theorem drop_next {data bytes : List UInt8} {byte : UInt8} {index : Int32} {n : Nat}
    (hindex : 0 ≤ index.toInt) (hlt : index.toInt + (n + 1 : Nat) < 2 ^ 31)
    (hdrop : data.drop index.toInt.toNat = byte :: bytes) :
    (index + 1).toInt = index.toInt + 1 ∧ data.drop (index + 1).toInt.toNat = bytes := by
  have hnext : (index + 1).toInt = index.toInt + 1 :=
    toInt_add_small (by decide) (by decide) (by omega)
  refine ⟨hnext, ?_⟩
  rw [hnext, show (index.toInt + 1).toNat = index.toInt.toNat + 1 by omega, ← List.drop_drop, hdrop]
  rfl

theorem index_cons (index : Int32) (byte : UInt8) (bytes : List UInt8) :
    index + 1 + Int32.ofNat bytes.length = index + Int32.ofNat (byte :: bytes).length := by
  rw [List.length_cons, Nat.add_comm _ 1, Int32.ofNat_add, ← Int32.add_assoc]
  rfl

theorem decodeTail_eq {masked r shift : Nat} {data bytes rest : List UInt8} {index : Int32}
    (h : IsVarint (masked + 1) bytes) (hr : r < 2 ^ shift) (hshift : shift + 7 * masked < 64)
    (hindex : 0 ≤ index.toInt) (hlt : index.toInt + bytes.length < 2 ^ 31)
    (hdrop : data.drop index.toInt.toNat = bytes ++ rest) :
    ∃ last, decodeTail data masked index (UInt64.ofNat shift) (UInt64.ofNat r)
        = .ok (UInt64.ofNat (r + kept masked bytes * 2 ^ shift), last,
            index + Int32.ofNat bytes.length) ∧
      (0x80 ≤ last ↔ Unended bytes) := by
  induction masked generalizing r shift index bytes with
  | zero =>
      cases bytes with
      | nil => exact absurd rfl h.ne_nil
      | cons byte bytes =>
          obtain rfl : bytes = [] := by
            rw [IsVarint] at h
            split at h <;> exact h
          refine ⟨byte.toUInt64, ?_, by simpa [Unended] using high_bit_toUInt64 byte⟩
          rw [decodeTail, at_eq (Int.toNat_of_nonneg hindex).symm hdrop]
          show Except.ok (_ ||| (byte.toUInt64 <<< _), byte.toUInt64, _) = _
          rw [toUInt64_eq, or_shiftLeft_ofNat _ hr (by omega)]
          rfl
  | succ masked ih =>
      cases bytes with
      | nil => exact absurd rfl h.ne_nil
      | cons byte bytes =>
          have hdigit := or_shiftLeft_ofNat (byte.toNat % 128) hr (show shift < 64 by omega)
          rw [decodeTail, at_eq (Int.toNat_of_nonneg hindex).symm hdrop]
          show ∃ last, (if 0x80 ≤ byte then
              decodeTail data masked (index + 1) (UInt64.ofNat shift + 7)
                (UInt64.ofNat r ||| ((byte.toUInt64 &&& 0x7F) <<< UInt64.ofNat shift)) else
              Except.ok (UInt64.ofNat r ||| ((byte.toUInt64 &&& 0x7F) <<< UInt64.ofNat shift),
                byte.toUInt64, index + 1)) = _ ∧ _
          rw [low_digit, hdigit]
          rw [IsVarint] at h
          split at h
          · next hbyte =>
              obtain ⟨hnext, hdrop'⟩ := drop_next hindex hlt hdrop
              rw [List.length_cons] at hlt
              obtain ⟨last, htail, hlast⟩ := ih h (Cpp.InputBuffer.add_digit_lt hr byte.toNat)
                (by omega) (by omega) (by omega) hdrop'
              refine ⟨last, ?_, ?_⟩
              · have hdigits : r + byte.toNat % 128 * 2 ^ shift
                      + kept masked bytes * 2 ^ (shift + 7)
                    = r + kept (masked + 1) (byte :: bytes) * 2 ^ shift := by
                  rw [kept, Nat.pow_add]
                  ring
                rw [if_pos hbyte, ofNat_succ_shift, htail, hdigits, index_cons index byte]
              · rw [hlast]
                simp [Unended, hbyte]
          · next hbyte =>
              refine ⟨byte.toUInt64, ?_, ?_⟩
              · rw [if_neg hbyte, h]
                simp [kept]
              · rw [high_bit_toUInt64]
                simp [Unended, hbyte]

theorem decodeVarUInt_eq {masked : Nat} {data bytes rest : List UInt8} {index : Int32}
    (h : IsVarint (masked + 2) bytes) (hmasked : 7 * masked < 57) (hindex : 0 ≤ index.toInt)
    (hlt : index.toInt + bytes.length < 2 ^ 31)
    (hdrop : data.drop index.toInt.toNat = bytes ++ rest) :
    ∃ last, decodeVarUInt masked data index
        = .ok (UInt64.ofNat (kept (masked + 1) bytes), last, index + Int32.ofNat bytes.length) ∧
      (0x80 ≤ last ↔ Unended bytes) := by
  cases bytes with
  | nil => exact absurd rfl h.ne_nil
  | cons byte bytes =>
      rw [decodeVarUInt, at_eq (Int.toNat_of_nonneg hindex).symm hdrop]
      show ∃ last, (if 0x80 ≤ byte then
          decodeTail data masked (index + 1) 7 (byte.toUInt64 &&& 0x7F) else
          Except.ok (byte.toUInt64, byte.toUInt64, index + 1)) = _ ∧ _
      rw [IsVarint] at h
      split at h
      · next hbyte =>
          obtain ⟨hnext, hdrop'⟩ := drop_next hindex hlt hdrop
          rw [List.length_cons] at hlt
          obtain ⟨last, htail, hlast⟩ := decodeTail_eq h
            (Nat.mod_lt byte.toNat (show 0 < 2 ^ 7 by decide)) (by omega) (by omega) (by omega)
            hdrop'
          refine ⟨last, ?_, ?_⟩
          · have hdigits : byte.toNat % 2 ^ 7 + kept masked bytes * 2 ^ 7
                = kept (masked + 1) (byte :: bytes) := by
              rw [kept]
              omega
            rw [hdigits, index_cons index byte] at htail
            rw [if_pos hbyte, low_digit]
            exact htail
          · rw [hlast]
            simp [Unended, hbyte]
      · next hbyte =>
          have hlow : byte.toNat % 128 = byte.toNat := by
            rw [UInt8.le_iff_toNat_le] at hbyte
            exact Nat.mod_eq_of_lt (Nat.lt_of_not_le hbyte)
          refine ⟨byte.toUInt64, ?_, ?_⟩
          · have hnone : kept masked [] = 0 := by cases masked <;> rfl
            rw [if_neg hbyte, h, toUInt64_eq, kept, hlow, hnone]
            rfl
          · rw [high_bit_toUInt64]
            simp [Unended, hbyte]

/-! ## The loop -/

/-- `DecodeVarUInt64Checked` with its loop under way. -/
theorem decodes_decodeCheckedLoop_isVarint {k r shift : Nat} {bytes : List UInt8}
    (h : IsVarint k bytes) (hr : r < 2 ^ shift) (hshift : shift + 7 * k ≤ 70) :
    Decodes (decodeCheckedLoop k (UInt64.ofNat shift) (UInt64.ofNat r)) bytes
      (pure (UInt64.ofNat (r + ofVarint bytes * 2 ^ shift))) := by
  induction k generalizing r shift bytes with
  | zero =>
      obtain rfl : bytes = [] := h
      rw [ofVarint, Nat.zero_mul, Nat.add_zero]
      exact Decodes.pure _
  | succ k ih =>
      cases bytes with
      | nil => exact absurd rfl h.ne_nil
      | cons byte bytes =>
          have hdigit := or_shiftLeft_ofNat (byte.toNat % 128) hr (show shift < 64 by omega)
          have hmore : 0x7F < byte ↔ 0x80 ≤ byte := by
            rw [UInt8.lt_iff_toNat_lt, UInt8.le_iff_toNat_le]
            exact Iff.rfl
          rw [decodeCheckedLoop, ← List.singleton_append]
          refine (decodes_readUInt8 byte).bind_pure ?_
          simp only [low_digit, hdigit, hmore, ofNat_succ_shift]
          rw [IsVarint] at h
          split at h
          · next hbyte =>
              have hrest := ih h (Cpp.InputBuffer.add_digit_lt hr byte.toNat) (by omega)
              rw [Nat.add_assoc, ← ofVarint_cons_shift] at hrest
              rw [if_pos hbyte]
              exact hrest
          · next hbyte =>
              have hlast : ofVarint ([byte] ++ []) = byte.toNat % 128 := by simp [ofVarint]
              rw [if_neg hbyte, h, hlast]
              exact Decodes.pure _

theorem decodes_decodeVarUInt64Checked_isVarint {bytes : List UInt8} (h : IsVarint 10 bytes) :
    Decodes decodeVarUInt64Checked bytes (pure (UInt64.ofNat (ofVarint bytes))) := by
  have hread := decodes_decodeCheckedLoop_isVarint h (show 0 < 2 ^ 0 by decide) (by decide)
  rw [Nat.zero_add, Nat.pow_zero, Nat.mul_one] at hread
  exact hread

/-- Bytes with the high bit lead the loop on. -/
theorem decodeCheckedLoop_unended {bytes rest : List UInt8} (h : Unended bytes) (k : Nat)
    (shift r : UInt64) {b : InputBuffer} (hb : remaining b = bytes ++ rest) :
    ∃ shift' r', (decodeCheckedLoop (bytes.length + k) shift r).run b
      = (decodeCheckedLoop k shift' r').run (b.advance bytes.length) := by
  induction bytes generalizing shift r b with
  | nil =>
      refine ⟨shift, r, ?_⟩
      rw [List.length_nil, Nat.zero_add, show b.advance 0 = b from Cursor.advance_zero b]
  | cons byte bytes ih =>
      obtain ⟨hbyte, hbytes⟩ := List.forall_mem_cons.1 h
      have hmore : 0x7F < byte := by
        rw [UInt8.le_iff_toNat_le] at hbyte
        rw [UInt8.lt_iff_toNat_lt]
        exact hbyte
      have hnext := decodes_readUInt8 byte b (bytes ++ rest) hb
      have hremaining : remaining (b.advance 1) = bytes ++ rest :=
        remaining_advance_append (show Decoder.remaining b = [byte] ++ (bytes ++ rest) from hb)
      obtain ⟨shift', r', hrun⟩ := ih hbytes (shift + 7)
        (r ||| ((byte.toUInt64 &&& 0x7F) <<< shift)) hremaining
      refine ⟨shift', r', ?_⟩
      have hadvance : (b.advance 1).advance bytes.length = b.advance (bytes.length + 1) := by
        rw [Nat.add_comm]
        exact Cursor.advance_advance b 1 bytes.length
      rw [hadvance] at hrun
      rw [List.length_cons, Nat.add_right_comm, decodeCheckedLoop, StateT.run_bind, hnext]
      simp only [pure_bind, if_pos hmore]
      exact hrun

/-- The loop reads more than bytes that all have the high bit, as long as there are fewer than
    ten. -/
theorem decodeVarUInt64Checked_unended {bytes rest : List UInt8} (h : Unended bytes)
    (hlength : bytes.length < 10) {b b' : InputBuffer} {v : UInt64} (hinside : b.Inside)
    (hb : remaining b = bytes ++ rest) (hrun : decodeVarUInt64Checked.run b = .ok (v, b')) :
    b' ≠ b.advance bytes.length := by
  obtain ⟨k, hk⟩ : ∃ k, 10 = bytes.length + (k + 1) := ⟨9 - bytes.length, by omega⟩
  rw [decodeVarUInt64Checked, hk] at hrun
  obtain ⟨shift', r', hloop⟩ := decodeCheckedLoop_unended h (k + 1) 0 0 hb
  rw [hloop] at hrun
  have hforward : Forward (decodeCheckedLoop (k + 1) shift' r') := by
    refine forward_readUInt8.bind fun raw => ?_
    split
    · exact stays_decodeCheckedLoop _ _ _
    · exact stays_pure _
  have hends := hforward (b.advance bytes.length) (advance_inside hinside _).1
  rw [hrun] at hends
  rintro rfl
  exact absurd hends.lt (Int.lt_irrefl _)

/-! ## Where the paths meet -/

/-- `DecodeVarUInt64Checked`, cast to `ushort` -/
def checkedVarUInt16 : Reader UInt16 := do
  return (← decodeVarUInt64Checked).toUInt16

/-- `DecodeVarUInt64Checked`, cast to `uint` -/
def checkedVarUInt32 : Reader UInt32 := do
  return (← decodeVarUInt64Checked).toUInt32

theorem remaining_length {b : InputBuffer} (h : b.Inside) :
    ((remaining b).length : Int) = b.end_.toInt - b.position.toInt := by
  have hend := b.end_toInt
  have hle := b.end_le
  rw [remaining, if_pos h, List.length_drop, List.length_take]
  unfold Inside at h
  omega

theorem inside_of_remaining {b : InputBuffer} (h : remaining b ≠ []) : b.Inside := by
  by_contra houtside
  exact h (if_neg houtside)

/-- In front of the array both paths throw. -/
theorem at_of_neg {data : List UInt8} {index : Int32} (h : index.toInt < 0) :
    at_ data index = .error .indexOutOfRange := by
  have hneg : ¬ 0 ≤ index := by
    rw [Int32.le_iff_toInt_le]
    exact Int.not_le.2 h
  rw [at_, if_neg hneg]

theorem decodeVarUInt64Checked_of_neg {b : InputBuffer} (h : b.position.toInt < 0) :
    decodeVarUInt64Checked.run b = .error (.indexOutOfRange, b) := by
  have hend := b.end_toInt
  have hlt : ¬ b.position ≥ b.end_ := by
    rw [ge_iff_le, Int32.le_iff_toInt_le]
    omega
  have hbyte : readUInt8.run b = .error (.indexOutOfRange, b) := by
    show (if b.position ≥ b.end_ then throwException Exception.endOfStream else nextByte) b = _
    rw [if_neg hlt]
    show onPosition _ b = _
    rw [onPosition, at_of_neg h]
    rfl
  rw [decodeVarUInt64Checked, decodeCheckedLoop, StateT.run_bind, hbyte]
  rfl

theorem run_get_ite {α : Type} (c : InputBuffer → Prop) [DecidablePred c] (op op' : Reader α)
    (b : InputBuffer) :
    (do
      let b ← get
      if c b then op else op' : Reader α).run b = (if c b then op else op' : Reader α).run b :=
  rfl

/-- A reader that takes the unrolled decoder if `size` bytes are left. -/
theorem fast_eq_checked_iff {α : Type} {checked : Reader α} (size : Int32) {k : Nat}
    (hsize : size.toInt = k) (hk : 0 < k)
    {op : List UInt8 → Int32 → Except Exception (α × Int32)} {together : Prop} {b : InputBuffer}
    (houtside : b.position.toInt < 0 → (onPosition op).run b = checked.run b)
    (hinside : k ≤ (remaining b).length → ((onPosition op).run b = checked.run b ↔ together)) :
    ((do
      let b ← get
      if b.position > b.end_ - size then checked else onPosition op : Reader α).run b
        = checked.run b) ↔ (k ≤ (remaining b).length → together) := by
  have hend := b.end_toInt
  have hsub : (b.end_ - size).toInt = b.end_.toInt - k := by
    have hlt := size.toInt_lt
    rw [hsize] at hlt
    exact toInt_sub_small hsize (Int.natCast_nonneg k) b.end_nonneg hlt
  have hgt : b.position > b.end_ - size ↔ b.end_.toInt - k < b.position.toInt := by
    rw [gt_iff_lt, Int32.lt_iff_toInt_lt, hsub]
  rw [run_get_ite fun b : InputBuffer => b.position > b.end_ - size]
  by_cases hleft : k ≤ (remaining b).length
  · have hne : remaining b ≠ [] := List.ne_nil_of_length_pos (Nat.lt_of_lt_of_le hk hleft)
    have hlength := remaining_length (inside_of_remaining hne)
    rw [if_neg (by rw [hgt]; omega), hinside hleft]
    exact ⟨fun h _ => h, fun h => h hleft⟩
  · refine ⟨fun _ h => absurd h hleft, fun _ => ?_⟩
    split
    · rfl
    · next hle =>
        rw [hgt] at hle
        by_cases hneg : b.position.toInt < 0
        · exact houtside hneg
        · have hlength := remaining_length (b := b) ⟨by omega, by omega⟩
          omega

/-- A decoder of two bytes and `masked` more in which what the last high bit adds is cut off. -/
theorem fast_eq_checked_iff_low {α : Type} {narrow : UInt64 → α} {masked : Nat}
    (hmasked : masked < 8)
    (hnarrow : ∀ n, narrow (UInt64.ofNat (n + 2 ^ (7 * (masked + 2)))) = narrow (UInt64.ofNat n))
    {b : InputBuffer} (hleft : masked + 2 ≤ (remaining b).length) :
    ((onPosition fun data index => do
        let (result, _, i) ← decodeVarUInt masked data index
        return (narrow result, i)).run b
      = (decodeVarUInt64Checked >>= fun v => pure (narrow v) : Reader α).run b) ↔
      ∃ byte ∈ (remaining b).take (masked + 2), byte < 0x80 := by
  obtain ⟨bytes, rest, hb, hbytes⟩ := exists_isVarint hleft
  have hinside : b.Inside := by
    refine inside_of_remaining ?_
    rw [hb]
    simp [hbytes.ne_nil]
  have hkept : narrow (UInt64.ofNat (kept (masked + 1) bytes))
      = narrow (UInt64.ofNat (ofVarint bytes)) := by
    rw [kept_eq hbytes]
    split
    · exact hnarrow _
    · rfl
  have hfast : Decodes (onPosition fun data index => do
        let (result, _, i) ← decodeVarUInt masked data index
        return (narrow result, i)) bytes (pure (narrow (UInt64.ofNat (ofVarint bytes)))) := by
    refine decodes_onPosition hbytes.ne_nil fun data index rest hindex hlt hdrop => ?_
    obtain ⟨last, hdecode, -⟩ := decodeVarUInt_eq hbytes (by omega) hindex hlt hdrop
    rw [hdecode, ← hkept]
    rfl
  rw [hfast b rest hb, hb, hbytes.exists_low_iff]
  by_cases hunended : Unended bytes
  · refine ⟨fun h => ?_, fun h => absurd hunended h⟩
    rw [StateT.run_bind] at h
    cases hrun : decodeVarUInt64Checked.run b with
    | error e =>
        rw [hrun] at h
        cases h
    | ok p =>
        obtain ⟨v, b'⟩ := p
        have hne := decodeVarUInt64Checked_unended hunended
          (by rw [hbytes.length_eq hunended]; omega) hinside hb hrun
        rw [hrun] at h
        exact absurd (congrArg Prod.snd (Except.ok.inj h)).symm hne
  · have hchecked := (decodes_decodeVarUInt64Checked_isVarint
      (hbytes.mono (by omega) hunended)).bind_return narrow
    exact ⟨fun _ => hunended, fun _ => (hchecked b rest hb).symm⟩

/-- Behind bytes that all have the high bit the next byte is read too. -/
theorem IsVarint.append {k j : Nat} {bytes bytes' : List UInt8} (h : IsVarint k bytes)
    (hunended : Unended bytes) (h' : IsVarint j bytes') : IsVarint (k + j) (bytes ++ bytes') := by
  induction k generalizing bytes with
  | zero =>
      obtain rfl : bytes = [] := h
      rwa [Nat.zero_add, List.nil_append]
  | succ k ih =>
      cases bytes with
      | nil => exact absurd rfl h.ne_nil
      | cons byte bytes =>
          obtain ⟨hbyte, hrest⟩ := List.forall_mem_cons.1 hunended
          rw [IsVarint, if_pos hbyte] at h
          rw [Nat.add_right_comm, List.cons_append, IsVarint, if_pos hbyte]
          exact ih h hrest

theorem isVarint_singleton (byte : UInt8) : IsVarint 1 [byte] := by
  rw [IsVarint]
  split
  · rfl
  · rfl

theorem ok_inj_iff {α : Type} {v v' : α} {b : InputBuffer} :
    (pure (v, b) : Except (Exception × InputBuffer) (α × InputBuffer)) = pure (v', b) ↔ v = v' := by
  constructor
  · intro h
    exact congrArg Prod.fst (Except.ok.inj h)
  · rintro rfl
    rfl

/-- The continuation bit of the ninth byte and the lowest bit of the tenth. -/
theorem ofNat_top_bit_iff (value digit : Nat) :
    UInt64.ofNat (value + 2 ^ 63) = UInt64.ofNat (value + digit * 2 ^ 63) ↔ digit % 2 = 1 := by
  rw [← UInt64.toNat_inj, UInt64.toNat_ofNat', UInt64.toNat_ofNat']
  omega

/-- Of a tenth byte `DecodeVarUInt64` takes the continuation bit in front of it for the value. -/
theorem fast_eq_checked_iff_64 {b : InputBuffer} (hleft : 10 ≤ (remaining b).length) :
    (onPosition decodeVarUInt64).run b = decodeVarUInt64Checked.run b ↔
      (∃ byte ∈ (remaining b).take 9, byte < 0x80) ∨
        ∃ byte ∈ (remaining b)[9]?, byte.toNat % 2 = 1 := by
  obtain ⟨bytes, rest, hb, hbytes⟩ := exists_isVarint (show 9 ≤ (remaining b).length by omega)
  have hexists : (∃ byte ∈ (remaining b).take 9, byte < 0x80) ↔ ¬ Unended bytes := by
    rw [hb, hbytes.exists_low_iff]
  rw [hexists]
  by_cases hunended : Unended bytes
  · have hnine := hbytes.length_eq hunended
    obtain ⟨byte, rest, rfl⟩ : ∃ byte rest', rest = byte :: rest' := by
      cases rest with
      | nil =>
          rw [hb, List.append_nil] at hleft
          omega
      | cons byte rest => exact ⟨byte, rest, rfl⟩
    have hb' : remaining b = (bytes ++ [byte]) ++ rest := by
      rw [hb, List.append_assoc, List.singleton_append]
    have hfast : Decodes (onPosition decodeVarUInt64) (bytes ++ [byte])
        (pure (UInt64.ofNat (ofVarint bytes + 2 ^ 63))) := by
      refine decodes_onPosition (by simp) fun data index rest hindex hlt hdrop => ?_
      rw [List.append_assoc] at hdrop
      rw [List.length_append, List.length_singleton] at hlt
      obtain ⟨last, hdecode, hlast⟩ := decodeVarUInt_eq hbytes (by decide) hindex (by omega) hdrop
      rw [kept_eq hbytes, if_pos hunended] at hdecode
      rw [decodeVarUInt64, hdecode]
      show Except.ok (_, if 0x80 ≤ last then _ else _) = _
      rw [if_pos (hlast.2 hunended), List.length_append, Int32.ofNat_add, ← Int32.add_assoc]
      rfl
    have hchecked := decodes_decodeVarUInt64Checked_isVarint
      (hbytes.append hunended (isVarint_singleton byte))
    have hwhole : ofVarint (bytes ++ [byte]) = ofVarint bytes + byte.toNat % 128 * 2 ^ 63 := by
      rw [ofVarint_append, hnine]
      simp [ofVarint]
    have hget : (remaining b)[9]? = some byte := by
      rw [hb, List.getElem?_append_right (by omega), hnine]
      rfl
    have htop := ofNat_top_bit_iff (ofVarint bytes) (byte.toNat % 128)
    have hodd : byte.toNat % 128 % 2 = byte.toNat % 2 := by omega
    rw [hwhole] at hchecked
    rw [hfast b rest hb', hchecked b rest hb', hget]
    simp only [pure_bind, hunended, not_true_eq_false, false_or, Option.mem_def,
      Option.some.injEq, exists_eq_left']
    rw [ok_inj_iff, htop, hodd]
  · have hfast : Decodes (onPosition decodeVarUInt64) bytes
        (pure (UInt64.ofNat (ofVarint bytes))) := by
      refine decodes_onPosition hbytes.ne_nil fun data index rest hindex hlt hdrop => ?_
      obtain ⟨last, hdecode, hlast⟩ := decodeVarUInt_eq hbytes (by decide) hindex hlt hdrop
      rw [kept_eq hbytes, if_neg hunended, Nat.add_zero] at hdecode
      rw [decodeVarUInt64, hdecode]
      show Except.ok (UInt64.ofNat (ofVarint bytes), if 0x80 ≤ last then
        index + Int32.ofNat bytes.length + 1 else index + Int32.ofNat bytes.length) = _
      rw [if_neg (mt hlast.1 hunended)]
    have hchecked := decodes_decodeVarUInt64Checked_isVarint (hbytes.mono (by decide) hunended)
    rw [hfast b rest hb, hchecked b rest hb]
    exact ⟨fun _ => Or.inl hunended, fun _ => Eq.refl _⟩

theorem readVarUInt16_iff (b : InputBuffer) :
    readVarUInt16.run b = checkedVarUInt16.run b ↔
      (3 ≤ (remaining b).length → ∃ byte ∈ (remaining b).take 3, byte < 0x80) := by
  refine fast_eq_checked_iff 3 (by decide) (by decide) (fun hneg => ?_) fun hleft => ?_
  · rw [StateT.run_bind, decodeVarUInt64Checked_of_neg hneg]
    show onPosition _ b = _
    rw [onPosition, decodeVarUInt16, decodeVarUInt, at_of_neg hneg]
    rfl
  · refine fast_eq_checked_iff_low (by decide) (fun n => ?_) hleft
    rw [← UInt16.toNat_inj]
    simp

theorem readVarUInt32_iff (b : InputBuffer) :
    readVarUInt32.run b = checkedVarUInt32.run b ↔
      (5 ≤ (remaining b).length → ∃ byte ∈ (remaining b).take 5, byte < 0x80) := by
  refine fast_eq_checked_iff 5 (by decide) (by decide) (fun hneg => ?_) fun hleft => ?_
  · rw [StateT.run_bind, decodeVarUInt64Checked_of_neg hneg]
    show onPosition _ b = _
    rw [onPosition, decodeVarUInt32, decodeVarUInt, at_of_neg hneg]
    rfl
  · refine fast_eq_checked_iff_low (by decide) (fun n => ?_) hleft
    rw [← UInt32.toNat_inj]
    simp

theorem readVarUInt64_iff (b : InputBuffer) :
    readVarUInt64.run b = decodeVarUInt64Checked.run b ↔
      (10 ≤ (remaining b).length → (∃ byte ∈ (remaining b).take 9, byte < 0x80) ∨
        ∃ byte ∈ (remaining b)[9]?, byte.toNat % 2 = 1) := by
  refine fast_eq_checked_iff 10 (by decide) (by decide) (fun hneg => ?_)
    fast_eq_checked_iff_64
  rw [decodeVarUInt64Checked_of_neg hneg]
  show onPosition _ b = _
  rw [onPosition, decodeVarUInt64, decodeVarUInt, at_of_neg hneg]
  rfl

/-! ## What is written is read back -/

theorem high_bit (n : Nat) : 0x80 ≤ UInt8.ofNat (n % 128 + 128) := by
  rw [UInt8.le_iff_toNat_le, UInt8.toNat_ofNat']
  simp only [UInt8.reduceToNat]
  omega

theorem not_high_bit {n : Nat} (h : n < 128) : ¬ 0x80 ≤ UInt8.ofNat n := by
  rw [UInt8.le_iff_toNat_le, UInt8.toNat_ofNat']
  simp only [UInt8.reduceToNat]
  omega

theorem isVarint_varint {k n : Nat} (h : n < 128 ^ (k + 1)) : IsVarint (k + 1) (varint n) := by
  induction k generalizing n with
  | zero =>
      rw [varint_of_lt (by simpa using h)]
      exact isVarint_singleton _
  | succ k ih =>
      by_cases hsmall : n < 128
      · rw [varint_of_lt hsmall, IsVarint, if_neg (not_high_bit hsmall)]
      · have hdiv : n / 128 < 128 ^ (k + 1) := by
          rw [Nat.div_lt_iff_lt_mul (by decide), ← Nat.pow_succ]
          exact h
        rw [varint_of_ge hsmall, IsVarint, if_pos (high_bit n)]
        exact ih hdiv

theorem ofVarint_varint (n : Nat) : ofVarint (varint n) = n := by
  induction n using Nat.strongRecOn with
  | ind n ih =>
      by_cases hsmall : n < 128
      · rw [varint_of_lt hsmall, ofVarint, ofVarint, UInt8.toNat_ofNat']
        omega
      · rw [varint_of_ge hsmall, ofVarint, ih (n / 128) (by omega), UInt8.toNat_ofNat']
        omega

theorem varint_ended (n : Nat) : ¬ Unended (varint n) := by
  induction n using Nat.strongRecOn with
  | ind n ih =>
      intro h
      by_cases hsmall : n < 128
      · rw [varint_of_lt hsmall] at h
        exact not_high_bit hsmall (h _ List.mem_cons_self)
      · rw [varint_of_ge hsmall] at h
        exact ih (n / 128) (by omega) fun byte hbyte => h byte (List.mem_cons_of_mem _ hbyte)

/-- The tenth byte of a number is its highest bit. -/
theorem varint_tenth {n : Nat} (hn : n < 2 ^ 64) (hlarge : 2 ^ 63 ≤ n) :
    ∃ byte ∈ (varint n)[9]?, byte.toNat % 2 = 1 := by
  have hle := (isVarint_varint (k := 9) (show n < 128 ^ 10 by omega)).length_le
  have hlt := lt_varint_length 9 n (by omega)
  obtain ⟨byte, hbyte⟩ : ∃ byte, (varint n).drop 9 = [byte] :=
    List.length_eq_one_iff.1 (by rw [List.length_drop]; omega)
  have hfront := ofVarint_lt ((varint n).take 9)
  have hsplit := ofVarint_append ((varint n).take 9) ((varint n).drop 9)
  rw [List.take_append_drop, ofVarint_varint, List.length_take_of_le (by omega), hbyte] at hsplit
  rw [List.length_take_of_le (by omega)] at hfront
  simp only [ofVarint, Nat.mul_zero, Nat.add_zero] at hsplit
  refine ⟨byte, ?_, by omega⟩
  rw [Option.mem_def, ← Nat.add_zero 9, ← List.getElem?_drop, hbyte]
  rfl

/-- On the encoding of a value both ways to read it return the value and pass over as many bytes as
    `length` says. -/
def ReadsBack {α : Type} (read checked : Reader α) (encode : α → List UInt8) (length : α → Nat) :
    Prop :=
  ∀ (value : α) (b : InputBuffer) (rest : List UInt8), remaining b = encode value ++ rest →
    read.run b
        = .ok (value, { b with position := b.position + Int32.ofNat (length value) }) ∧
      checked.run b
        = .ok (value, { b with position := b.position + Int32.ofNat (length value) })

/-- Where the paths meet on an encoding that the loop reads, both read it. -/
theorem readsBack_of_paths {α : Type} {read checked : Reader α} {encode : α → List UInt8}
    {length : α → Nat} (hlength : ∀ value, length value = (encode value).length)
    (hchecked : ∀ value, Decodes checked (encode value) (pure value))
    (hne : ∀ value, encode value ≠ [])
    (hpaths : ∀ value b rest, remaining b = encode value ++ rest → read.run b = checked.run b) :
    ReadsBack read checked encode length := by
  intro value b rest hb
  have hrun : checked.run b
      = .ok (value, { b with position := b.position + Int32.ofNat (length value) }) := by
    obtain ⟨hinside, hle, -⟩ := drop_of_remaining hb (hne value)
    have hend := b.end_toInt
    have hcount : (Int32.ofNat (encode value).length).toInt = (encode value).length :=
      Int32.toInt_ofNat_of_lt (by unfold Inside at hinside; omega)
    rw [hchecked value b rest hb, hlength, position_add hinside hcount hle]
    rfl
  exact ⟨(hpaths value b rest hb).trans hrun, hrun⟩

theorem decodes_decodeVarUInt64Checked_varint {n : Nat} (h : n < 2 ^ 64) :
    Decodes decodeVarUInt64Checked (varint n) (pure (UInt64.ofNat n)) := by
  have hread := decodes_decodeVarUInt64Checked_isVarint
    (isVarint_varint (k := 9) (show n < 128 ^ 10 by omega))
  rwa [ofVarint_varint] at hread

theorem exists_low_of_varint {k n : Nat} (h : n < 128 ^ (k + 1)) {bytes rest : List UInt8}
    (hbytes : bytes = varint n ++ rest) : ∃ byte ∈ bytes.take (k + 1), byte < 0x80 := by
  rw [hbytes]
  exact (isVarint_varint h).exists_low_iff.2 (varint_ended n)

theorem readsBack_varUInt16 : ReadsBack readVarUInt16 checkedVarUInt16
    IntegerHelper.encodeVarUInt16 IntegerHelper.getVarUInt16Length := by
  have hencode (value : UInt16) : IntegerHelper.encodeVarUInt16 value = varint value.toNat :=
    Managed.encodeVarUInt_eq 2 _ (Nat.lt_of_lt_of_le value.toNat_lt (by decide))
  refine readsBack_of_paths IntegerHelper.getVarUInt16Length_eq (fun value => ?_) (fun value => ?_)
    fun value b rest hb => ?_
  · have hlt := value.toNat_lt
    have hread := (decodes_decodeVarUInt64Checked_varint
      (show value.toNat < 2 ^ 64 by omega)).bind_return UInt64.toUInt16
    have hvalue : (UInt64.ofNat value.toNat).toUInt16 = value := by
      rw [← UInt16.toNat_inj]
      simp
    rw [hvalue] at hread
    rw [hencode]
    exact hread
  · rw [hencode]
    exact List.ne_nil_of_length_pos (varint_length_pos _)
  · rw [hencode] at hb
    have hlt := value.toNat_lt
    exact (readVarUInt16_iff b).2 fun _ => exists_low_of_varint (k := 2) (by omega) hb

/-- Whether or not the checks are needed, the same is read. -/
theorem decodes_readVarUInt32 {n : Nat} (h : n < 2 ^ 32) :
    Decodes readVarUInt32 (varint n) (pure (UInt32.ofNat n)) := by
  have hread := (decodes_decodeVarUInt64Checked_varint
    (show n < 2 ^ 64 by omega)).bind_return UInt64.toUInt32
  have hword : (UInt64.ofNat n).toUInt32 = UInt32.ofNat n := by
    rw [← UInt32.toNat_inj, UInt64.toNat_toUInt32, UInt64.toNat_ofNat', UInt32.toNat_ofNat']
    omega
  rw [hword] at hread
  intro b rest hb
  rw [(readVarUInt32_iff b).2 fun _ => exists_low_of_varint (k := 4) (by omega) hb]
  exact hread b rest hb

theorem readsBack_varUInt32 : ReadsBack readVarUInt32 checkedVarUInt32
    IntegerHelper.encodeVarUInt32 IntegerHelper.getVarUInt32Length := by
  have hencode (value : UInt32) : IntegerHelper.encodeVarUInt32 value = varint value.toNat :=
    Managed.encodeVarUInt_eq 4 _ (Nat.lt_of_lt_of_le value.toNat_lt (by decide))
  have hpaths (value : UInt32) (b : InputBuffer) (rest : List UInt8)
      (hb : remaining b = varint value.toNat ++ rest) :
      readVarUInt32.run b = checkedVarUInt32.run b := by
    have hlt := value.toNat_lt
    exact (readVarUInt32_iff b).2 fun _ => exists_low_of_varint (k := 4) (by omega) hb
  refine readsBack_of_paths IntegerHelper.getVarUInt32Length_eq (fun value => ?_) (fun value => ?_)
    fun value b rest hb => hpaths value b rest (by rwa [← hencode])
  · intro b rest hb
    rw [hencode] at hb ⊢
    have hread := decodes_readVarUInt32 value.toNat_lt b rest hb
    rwa [hpaths value b rest hb, UInt32.ofNat_toNat] at hread
  · rw [hencode]
    exact List.ne_nil_of_length_pos (varint_length_pos _)

theorem readsBack_varUInt64 : ReadsBack readVarUInt64 decodeVarUInt64Checked
    IntegerHelper.encodeVarUInt64 IntegerHelper.getVarUInt64Length := by
  have hencode (value : UInt64) : IntegerHelper.encodeVarUInt64 value = varint value.toNat :=
    Managed.encodeVarUInt_eq 9 _ (Nat.lt_of_lt_of_le value.toNat_lt (by decide))
  refine readsBack_of_paths IntegerHelper.getVarUInt64Length_eq (fun value => ?_) (fun value => ?_)
    fun value b rest hb => ?_
  · have hread := decodes_decodeVarUInt64Checked_varint value.toNat_lt
    rw [UInt64.ofNat_toNat] at hread
    rwa [hencode]
  · rw [hencode]
    exact List.ne_nil_of_length_pos (varint_length_pos _)
  · rw [hencode] at hb
    refine (readVarUInt64_iff b).2 fun _ => ?_
    rcases Nat.lt_or_ge value.toNat (2 ^ 63) with hsmall | hlarge
    · exact Or.inl (exists_low_of_varint (k := 8) (by omega) hb)
    · obtain ⟨byte, hbyte, hodd⟩ := varint_tenth value.toNat_lt hlarge
      refine Or.inr ⟨byte, ?_, hodd⟩
      rw [Option.mem_def] at hbyte ⊢
      rw [hb, List.getElem?_append_left (List.getElem?_eq_some_iff.1 hbyte).1, hbyte]

/-- A read returns the same value at the same place on both paths if and only if one of the bytes
    that the unrolled decoder looks at is without the high bit, or it is the lowest bit of a tenth
    byte that the continuation bit in front of it is taken for. What is written is read back on both
    paths. -/
theorem readVarUInt_paths (b : InputBuffer) :
    ((readVarUInt16.run b = checkedVarUInt16.run b ↔
        (3 ≤ (remaining b).length → ∃ byte ∈ (remaining b).take 3, byte < 0x80)) ∧
      (readVarUInt32.run b = checkedVarUInt32.run b ↔
        (5 ≤ (remaining b).length → ∃ byte ∈ (remaining b).take 5, byte < 0x80)) ∧
      (readVarUInt64.run b = decodeVarUInt64Checked.run b ↔
        (10 ≤ (remaining b).length → (∃ byte ∈ (remaining b).take 9, byte < 0x80) ∨
          ∃ byte ∈ (remaining b)[9]?, byte.toNat % 2 = 1))) ∧
    ReadsBack readVarUInt16 checkedVarUInt16
      IntegerHelper.encodeVarUInt16 IntegerHelper.getVarUInt16Length ∧
    ReadsBack readVarUInt32 checkedVarUInt32
      IntegerHelper.encodeVarUInt32 IntegerHelper.getVarUInt32Length ∧
    ReadsBack readVarUInt64 decodeVarUInt64Checked
      IntegerHelper.encodeVarUInt64 IntegerHelper.getVarUInt64Length :=
  ⟨⟨readVarUInt16_iff b, readVarUInt32_iff b, readVarUInt64_iff b⟩,
    readsBack_varUInt16, readsBack_varUInt32, readsBack_varUInt64⟩

/-- Ten bytes without a digit but 0. -/
def overlongZero : InputBuffer :=
  ofData [0x80, 0x80, 0x80, 0x80, 0x80, 0x80, 0x80, 0x80, 0x80, 0x00] (by decide)

/-- The unrolled decoder reads 2^63 and the loop 0. -/
theorem readVarUInt_paths_overlong :
    ¬ ((∀ b, readVarUInt16.run b = checkedVarUInt16.run b) ∧
      (∀ b, readVarUInt32.run b = checkedVarUInt32.run b) ∧
      ∀ b, readVarUInt64.run b = decodeVarUInt64Checked.run b) := by
  rintro ⟨-, -, h⟩
  have hfast : (readVarUInt64.run overlongZero).map Prod.fst = .ok 0x8000000000000000 := by
    decide +kernel
  have hchecked : (decodeVarUInt64Checked.run overlongZero).map Prod.fst = .ok 0 := by
    decide +kernel
  rw [h overlongZero, hchecked] at hfast
  exact absurd (Except.ok.inj hfast) (by decide)

end InputBuffer

end Bond.Cs

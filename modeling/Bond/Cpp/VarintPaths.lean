import Bond.Cpp.CompactBinary
import Bond.Cpp.StreamContents

set_option autoImplicit false

/-! # The paths of a variable-length integer

`InputBuffer::ReadVariableUnsigned` takes its bytes in an unrolled sequence of steps when enough of
them are left, and in a loop otherwise. The loop ends at a byte without the high bit. The unrolled
steps end there too, but at their last one they end whatever the high bit says. -/

namespace Bond.Cpp

open Decoder Varint

namespace InputBuffer

/-! ## The loop -/

/-- Bytes with the high bit, the last one excepted. -/
def Continued (cont : List UInt8) (last : UInt8) : Prop :=
  (∀ byte ∈ cont, byte ≥ 0x80) ∧ ¬ last ≥ 0x80

theorem readUInt8_ok {b b' : InputBuffer} {byte : UInt8} (h : readUInt8 b = .ok (byte, b')) :
    ∃ rest, b.remaining = byte :: rest ∧ b' = b.advance 1 := by
  unfold readUInt8 at h
  split at h
  · cases h
  · next hne =>
      have hlt : b.pointer < b.blob.length := lt_of_le_of_ne b.pointer_le hne
      obtain ⟨rfl, rfl⟩ : b.blob[b.pointer] = byte ∧ b.advance 1 = b' := by
        simpa using h
      exact ⟨b.blob.drop (b.pointer + 1), List.drop_eq_getElem_cons hlt, rfl⟩

/-- The loop adds up the digits to the first byte without the high bit, and stops behind it. -/
theorem genericReadLoop_ok (w : VarWidth) {left value shift v : Nat} {b b' : InputBuffer}
    (h : genericReadLoop w left value shift b = .ok (v, b')) :
    ∃ cont last rest, b.remaining = cont ++ last :: rest ∧ Continued cont last ∧
      v = (value + ofVarint (cont ++ [last]) * 2 ^ shift) % 2 ^ w.bits ∧
      b' = b.advance (cont.length + 1) := by
  induction left generalizing value shift b with
  | zero => cases h
  | succ left ih =>
      rw [genericReadLoop] at h
      simp only [bind, StateT.bind, Except.bind] at h
      split at h
      · cases h
      · next r hbyte =>
          obtain ⟨byte, b₁⟩ := r
          obtain ⟨rest, hrest, rfl⟩ := readUInt8_ok hbyte
          simp only [and_low, Nat.shiftLeft_eq] at h
          split at h
          · next hmore =>
              obtain ⟨cont, last, rest', hrest', hcont, rfl, rfl⟩ := ih h
              have hdrop : (b.advance 1).remaining = rest := by
                rw [show (b.advance 1).remaining = b.remaining.drop 1 from
                  Cursor.remaining_advance b 1, hrest, List.drop_one, List.tail_cons]
              refine ⟨byte :: cont, last, rest', ?_, ⟨?_, hcont.2⟩, ?_, ?_⟩
              · rw [hrest, ← hdrop, hrest', List.cons_append]
              · exact List.forall_mem_cons.2 ⟨hmore, hcont.1⟩
              · rw [List.cons_append, ofVarint_cons_shift, Nat.mod_add_mod, Nat.add_assoc]
              · refine (Cursor.advance_advance b 1 _).trans ?_
                rw [List.length_cons, Nat.add_comm 1]
                rfl
          · next hlast =>
              obtain ⟨rfl, rfl⟩ : (value + byte.toNat % 128 * 2 ^ shift) % 2 ^ w.bits = v ∧
                  b.advance 1 = b' := by
                exact Prod.mk.inj (Except.ok.inj h)
              refine ⟨[], byte, rest, hrest, ⟨by simp, hlast⟩, ?_, rfl⟩
              simp [ofVarint]

/-- On bytes that end, the loop returns the number that their digits denote. -/
theorem decodes_genericReadLoop_continued (w : VarWidth) {left : Nat} (value shift : Nat)
    {cont : List UInt8} {last : UInt8} (hcont : Continued cont last) (hleft : cont.length < left) :
    Decodes (genericReadLoop w left value shift) (cont ++ [last])
      (pure ((value + ofVarint (cont ++ [last]) * 2 ^ shift) % 2 ^ w.bits)) := by
  obtain ⟨hmore, hlast⟩ := hcont
  induction cont generalizing left value shift with
  | nil =>
      obtain ⟨left, rfl⟩ := Nat.exists_eq_succ_of_ne_zero (Nat.ne_zero_of_lt hleft)
      rw [List.nil_append, genericReadLoop, ← List.append_nil [last]]
      refine (decodes_readUInt8 last).bind_pure ?_
      simp only [hlast, if_false, and_low, Nat.shiftLeft_eq, List.append_nil, ofVarint,
        Nat.mul_zero, Nat.add_zero]
      exact Decodes.pure _
  | cons byte cont ih =>
      obtain ⟨left, rfl⟩ := Nat.exists_eq_succ_of_ne_zero (Nat.ne_zero_of_lt hleft)
      obtain ⟨hbyte, hmore⟩ := List.forall_mem_cons.1 hmore
      have hrest := ih ((value + byte.toNat % 128 * 2 ^ shift) % 2 ^ w.bits) (shift + 7)
        (Nat.lt_of_succ_lt_succ hleft) hmore
      rw [Nat.mod_add_mod, Nat.add_assoc, ← ofVarint_cons_shift, ← List.cons_append] at hrest
      rw [List.cons_append, genericReadLoop, ← List.singleton_append]
      refine (decodes_readUInt8 byte).bind_pure ?_
      simp only [hbyte, if_true, and_low, Nat.shiftLeft_eq]
      exact hrest

theorem decodes_genericReadVariableUnsigned_continued (w : VarWidth) {cont : List UInt8}
    {last : UInt8} (hcont : Continued cont last) :
    Decodes (genericReadVariableUnsigned w) (cont ++ [last])
      (pure (ofVarint (cont ++ [last]) % 2 ^ w.bits)) := by
  refine decodes_remainingLength fun left hleft => ?_
  have hlt : cont.length < left := by
    rwa [List.length_append] at hleft
  have hread := decodes_genericReadLoop_continued w 0 0 hcont hlt
  rwa [Nat.zero_add, Nat.pow_zero, Nat.mul_one] at hread

/-! ## The unrolled steps -/

theorem lastShift_lt_bits (w : VarWidth) : w.lastShift < w.bits := by
  cases w <;> decide

/-- Where the first byte without the high bit is at the last step at the latest, the unrolled steps
    do what the loop does. -/
theorem unchecked_of_le (w : VarWidth) {shift k value : Nat} {cont : List UInt8}
    {last : UInt8} (rest : List UInt8) (hcont : Continued cont last)
    (hk : shift + 7 * k = w.lastShift) (hvalue : value < 2 ^ shift) (hle : cont.length ≤ k) :
    variableUnsignedUnchecked w shift value (cont ++ last :: rest)
      = some ((value + ofVarint (cont ++ [last]) * 2 ^ shift) % 2 ^ w.bits, cont.length + 1) := by
  obtain ⟨hmore, hlast⟩ := hcont
  induction cont generalizing shift k value with
  | nil =>
      have hdigit : last.toNat % 128 = last.toNat := by
        rw [ge_iff_le, UInt8.le_iff_toNat_le] at hlast
        exact Nat.mod_eq_of_lt (Nat.lt_of_not_le hlast)
      have hone : ofVarint ([] ++ [last]) = last.toNat := by
        simp [ofVarint, hdigit]
      rw [List.nil_append, variableUnsignedUnchecked, hone]
      simp only [hlast, and_false, if_false, and_low, hdigit, or_shiftLeft_eq_add hvalue]
      split
      · rfl
      · -- in front of the last step the value has not filled its type
        next hstep =>
          have hroom : shift + 7 ≤ w.bits := by
            have hbits := lastShift_lt_bits w
            omega
          have hfit : value + last.toNat * 2 ^ shift < 2 ^ w.bits := by
            calc value + last.toNat * 2 ^ shift
                = value + last.toNat % 128 * 2 ^ shift := by rw [hdigit]
              _ < 2 ^ (shift + 7) := add_digit_lt hvalue _
              _ ≤ 2 ^ w.bits := Nat.pow_le_pow_right (by decide) hroom
          rw [Nat.mod_eq_of_lt hfit]
          rfl
  | cons byte cont ih =>
      obtain ⟨hbyte, hmore⟩ := List.forall_mem_cons.1 hmore
      rw [List.length_cons] at hle
      have hstep : shift ≠ w.lastShift := by omega
      have hnext := add_digit_lt hvalue byte.toNat
      rw [List.cons_append, variableUnsignedUnchecked, if_neg hstep]
      simp only [hbyte, if_true, and_low, or_shiftLeft_eq_add hvalue]
      rw [ih (k := k - 1) (by omega) hnext (by omega) hmore, List.cons_append,
        ofVarint_cons_shift, Nat.add_assoc]
      rfl

/-- Where every byte to the last step has the high bit, the last one is taken as a whole, and of
    what is behind it a `uint64_t` steps over one byte, and the others over none. -/
theorem unchecked_of_lt (w : VarWidth) {shift k value : Nat} {front : List UInt8}
    {byte : UInt8} (rest : List UInt8) (hmore : ∀ b ∈ front, b ≥ 0x80) (hbyte : byte ≥ 0x80)
    (hk : shift + 7 * k = w.lastShift) (hvalue : value < 2 ^ shift) (hlength : front.length = k) :
    variableUnsignedUnchecked w shift value (front ++ byte :: rest)
      = some ((value + ofVarint front * 2 ^ shift + byte.toNat * 2 ^ w.lastShift) % 2 ^ w.bits,
          k + if w = .w64 then 2 else 1) := by
  induction front generalizing shift k value with
  | nil =>
      obtain rfl : k = 0 := by simpa using hlength.symm
      obtain rfl : shift = w.lastShift := by simpa using hk
      rw [List.nil_append, variableUnsignedUnchecked, if_pos rfl, or_shiftLeft_eq_add hvalue]
      simp [ofVarint, hbyte]
  | cons byte' front ih =>
      obtain ⟨hbyte', hmore⟩ := List.forall_mem_cons.1 hmore
      rw [List.length_cons] at hlength
      have hstep : shift ≠ w.lastShift := by omega
      have hnext := add_digit_lt hvalue byte'.toNat
      rw [List.cons_append, variableUnsignedUnchecked, if_neg hstep]
      simp only [hbyte', if_true, and_low, or_shiftLeft_eq_add hvalue]
      rw [ih (k := k - 1) hmore (by omega) hnext (by omega), ofVarint_cons_shift]
      simp only [Option.map_some, Option.some.injEq, Prod.mk.injEq, ← Nat.add_assoc, true_and]
      omega

/-! ## Where the paths meet -/

/-- Both paths stop at the same byte and have read the same: one of the bytes that the unrolled
    steps look at is without the high bit, or it is the tenth of a `uint64_t`, whose lowest bit then
    is what the high bit in front of it was taken for. -/
def StopsTogether (w : VarWidth) (bytes : List UInt8) : Prop :=
  (∃ byte ∈ bytes.take (w.lastShift / 7 + 1), ¬ byte ≥ 0x80) ∨
    (w = .w64 ∧ ∃ byte ∈ bytes[9]?, ¬ byte ≥ 0x80 ∧ byte.toNat % 2 = 1)

theorem advance_inj {b : InputBuffer} {i j : Nat} (hi : i ≤ b.remaining.length)
    (hj : j ≤ b.remaining.length) (h : b.advance i = b.advance j) : i = j := by
  have hpointer := congrArg InputBuffer.pointer h
  have hlength := remaining_length b
  have hle := b.pointer_le
  change b.remaining.length = b.blob.length - b.pointer at hlength
  change min (b.pointer + i) b.blob.length = min (b.pointer + j) b.blob.length at hpointer
  omega

theorem steps_lastShift (w : VarWidth) : 0 + 7 * (w.lastShift / 7) = w.lastShift := by
  cases w <;> rfl

/-- More bytes than the unrolled steps look at are enough for the unrolled path. -/
theorem readVariableUnsigned_of_lt {w : VarWidth} {b : InputBuffer}
    (hlength : w.lastShift / 7 + 1 < b.remaining.length) {value size : Nat}
    (h : variableUnsignedUnchecked w 0 0 b.remaining = some (value, size)) :
    readVariableUnsigned w b = .ok (value, b.advance size) := by
  have hremaining := remaining_length b
  change b.remaining.length = b.blob.length - b.pointer at hremaining
  have hsize : w.sizeof * 8 / 7 ≤ w.lastShift / 7 + 1 := by
    cases w <;> decide
  unfold readVariableUnsigned
  rw [if_pos (by omega), h]

/-- The two ways to read bits 56 to 63 of a `uint64_t`. -/
theorem last_digits_eq_iff (value digit last : Nat) :
    (value + (digit + 128) * 2 ^ 56) % 2 ^ 64 = (value + (digit + 128 * last) * 2 ^ 56) % 2 ^ 64
      ↔ last % 2 = 1 := by
  have hsplit : value + (digit + 128) * 2 ^ 56 = value + digit * 2 ^ 56 + 2 ^ 63 := by ring
  have hsplit' : value + (digit + 128 * last) * 2 ^ 56
      = value + digit * 2 ^ 56 + last * 2 ^ 63 := by ring
  rw [hsplit, hsplit']
  omega

/-- Behind the last unrolled step the paths go apart, but for the tenth byte of a `uint64_t`. -/
theorem readVariableUnsigned_eq_iff_of_lt {w : VarWidth} {b : InputBuffer} {cont rest : List UInt8}
    {last : UInt8} (hb : b.remaining = cont ++ last :: rest) (hcont : Continued cont last)
    (hlt : w.lastShift / 7 < cont.length) :
    readVariableUnsigned w b
        = .ok (ofVarint (cont ++ [last]) % 2 ^ w.bits, b.advance (cont.length + 1))
      ↔ w = .w64 ∧ cont.length = 9 ∧ last.toNat % 2 = 1 := by
  obtain ⟨hmore, hlast⟩ := hcont
  generalize hk : w.lastShift / 7 = k at hlt
  -- the bytes that the unrolled steps look at
  obtain ⟨front, byte, tail, rfl, hfront⟩ : ∃ front byte tail, cont = front ++ byte :: tail ∧
      front.length = k :=
    ⟨cont.take k, cont[k], cont.drop (k + 1), by
      rw [← List.drop_eq_getElem_cons hlt, List.take_append_drop],
      List.length_take_of_le (Nat.le_of_lt hlt)⟩
  have hbyte : byte ≥ 0x80 := hmore byte (by simp)
  have hread := unchecked_of_lt w (tail ++ last :: rest)
    (fun x hx => hmore x (List.mem_append_left _ hx)) hbyte (hk ▸ steps_lastShift w)
    (Nat.one_pos : 0 < 2 ^ 0) hfront
  have hlength : b.remaining.length = k + tail.length + rest.length + 2 := by
    rw [hb]
    simp only [List.length_append, List.length_cons, hfront]
    omega
  have hbytes : b.remaining = front ++ byte :: (tail ++ last :: rest) := by
    rw [hb, List.append_assoc, List.cons_append]
  rw [← hbytes] at hread
  rw [readVariableUnsigned_of_lt (by omega) hread]
  simp only [Except.ok.injEq, Prod.mk.injEq, List.length_append, List.length_cons, hfront]
  by_cases hw : w = .w64 ∧ tail = []
  · obtain ⟨rfl, rfl⟩ := hw
    obtain rfl : 8 = k := hk
    have hdigits : byte.toNat = byte.toNat % 128 + 128 := by
      have hlt := byte.toNat_lt
      rw [ge_iff_le, UInt8.le_iff_toNat_le] at hbyte
      change 128 ≤ byte.toNat at hbyte
      omega
    have hlast' : last.toNat % 128 % 2 = last.toNat % 2 := by omega
    have hvalue := last_digits_eq_iff (ofVarint front) (byte.toNat % 128) (last.toNat % 128)
    rw [hlast', ← hdigits] at hvalue
    have hwhole : ofVarint (front ++ byte :: [] ++ [last])
        = ofVarint front + (byte.toNat % 128 + 128 * (last.toNat % 128)) * 2 ^ 56 := by
      rw [List.append_assoc, ofVarint_append, hfront]
      simp [ofVarint]
    rw [hwhole, Nat.zero_add, Nat.pow_zero, Nat.mul_one]
    exact ⟨fun h => ⟨rfl, rfl, hvalue.1 h.1⟩, fun h => ⟨hvalue.2 h.2.2, rfl⟩⟩
  · constructor
    · rintro ⟨-, hadvance⟩
      -- the unrolled path has stepped over fewer bytes
      have hsize : (if w = .w64 then 2 else 1) ≤ 2 := by split <;> omega
      have hsteps := advance_inj (by omega) (by omega) hadvance
      split at hsteps
      · next hw64 => exact absurd ⟨hw64, List.length_eq_zero_iff.1 (by omega)⟩ hw
      · omega
    · rintro ⟨rfl, hlength, -⟩
      obtain rfl : 8 = k := hk
      exact absurd ⟨rfl, List.length_eq_zero_iff.1 (by omega)⟩ hw

/-- The paths of `ReadVariableUnsigned` meet if and only if the loop stops at one of the bytes that
    the unrolled steps look at, or at the tenth byte of a `uint64_t` and that is odd. -/
theorem readVariableUnsigned_eq_generic_iff (w : VarWidth) (b b' : InputBuffer) (v : Nat)
    (h : genericReadVariableUnsigned w b = .ok (v, b')) :
    readVariableUnsigned w b = .ok (v, b') ↔ StopsTogether w b.remaining := by
  obtain ⟨cont, last, rest, hb, hcont, rfl, rfl⟩ := genericReadLoop_ok w h
  rw [Nat.zero_add, Nat.pow_zero, Nat.mul_one] at h ⊢
  have hsteps := steps_lastShift w
  rw [hb]
  by_cases hle : cont.length ≤ w.lastShift / 7
  · have hread := unchecked_of_le w rest hcont hsteps (Nat.one_pos : 0 < 2 ^ 0) hle
    rw [← hb, Nat.zero_add, Nat.pow_zero, Nat.mul_one] at hread
    refine ⟨fun _ => .inl ⟨last, ?_, hcont.2⟩, fun _ => ?_⟩
    · rw [List.take_append, List.take_of_length_le (by omega),
        show w.lastShift / 7 + 1 - cont.length = w.lastShift / 7 - cont.length + 1 by omega]
      simp
    · unfold readVariableUnsigned
      rw [hread]
      split
      · rfl
      · exact h
  · rw [readVariableUnsigned_eq_iff_of_lt hb hcont (by omega)]
    constructor
    · rintro ⟨rfl, hlength, hodd⟩
      exact .inr ⟨rfl, last, by simp [hlength], hcont.2, hodd⟩
    · rintro (⟨byte, hmem, hlow⟩ | ⟨rfl, byte, hmem, hlow, hodd⟩)
      · rw [List.take_append_of_le_length (by omega)] at hmem
        exact absurd (hcont.1 byte (List.mem_of_mem_take hmem)) hlow
      · rw [Option.mem_def] at hmem
        rcases Nat.lt_or_ge 9 cont.length with hlong | hshort
        · rw [List.getElem?_append_left hlong] at hmem
          exact absurd (hcont.1 byte (List.mem_of_getElem? hmem)) hlow
        · obtain hlength : cont.length = 9 := by
            change ¬ cont.length ≤ 8 at hle
            omega
          rw [List.getElem?_append_right hshort, hlength, Nat.sub_self, List.getElem?_cons_zero,
            Option.some.injEq] at hmem
          exact ⟨rfl, hlength, hmem ▸ hodd⟩

/-- Three continued bytes of a `uint16_t`: the unrolled path stops in front of the zero. -/
def overlongUInt16 : InputBuffer :=
  ofBlob [0x80, 0x80, 0x80, 0x00] (by decide)

theorem readVariableUnsigned_eq_generic_iff_short :
    readVariableUnsigned .w16 (ofBlob [0xAC, 0x02, 7, 7] (by decide))
        = .ok (300, (ofBlob [0xAC, 0x02, 7, 7] (by decide)).advance 2) ↔
      StopsTogether .w16 (ofBlob [0xAC, 0x02, 7, 7] (by decide)).remaining :=
  readVariableUnsigned_eq_generic_iff .w16 _ _ 300 (by rfl)

theorem readVariableUnsigned_overlong :
    ¬ ∀ (w : VarWidth) (b b' : InputBuffer) (v : Nat),
      genericReadVariableUnsigned w b = .ok (v, b') → readVariableUnsigned w b = .ok (v, b') := by
  intro h
  have hread := h .w16 overlongUInt16 (overlongUInt16.advance 4) 0 (by rfl)
  have hfast : readVariableUnsigned .w16 overlongUInt16 = .ok (0, overlongUInt16.advance 3) := by
    rfl
  rw [hfast] at hread
  have hsize := advance_inj (b := overlongUInt16) (by decide) (by decide)
    (congrArg Prod.snd (Except.ok.inj hread))
  omega

end InputBuffer

/-! ## Back and forth -/

namespace CompactBinary

/-- `Read` of the integers that are written with a variable length: the unsigned value, or its
    `DecodeZigZag`. -/
def ofVarUnsigned : BasicType → Nat → Option BasicValue
  | .uint16, n => some (.uint16 (UInt16.ofNat n))
  | .uint32, n => some (.uint32 (UInt32.ofNat n))
  | .uint64, n => some (.uint64 (UInt64.ofNat n))
  | .int16, n => some (.int16 (.ofBitVec (decodeZigZag (BitVec.ofNat 16 n))))
  | .int32, n => some (.int32 (.ofBitVec (decodeZigZag (BitVec.ofNat 32 n))))
  | .int64, n => some (.int64 (.ofBitVec (decodeZigZag (BitVec.ofNat 64 n))))
  | _, _ => none

theorem ofVarUnsigned_varUnsigned {v : BasicValue} {u : VarUnsigned} (h : varUnsigned v = some u) :
    ofVarUnsigned v.type u.toNat = some v := by
  cases v with
  | uint16 v =>
      obtain rfl := Option.some.inj h
      exact congrArg (some ∘ BasicValue.uint16) UInt16.ofNat_toNat
  | uint32 v =>
      obtain rfl := Option.some.inj h
      exact congrArg (some ∘ BasicValue.uint32) UInt32.ofNat_toNat
  | uint64 v =>
      obtain rfl := Option.some.inj h
      exact congrArg (some ∘ BasicValue.uint64) UInt64.ofNat_toNat
  | int16 v =>
      obtain rfl := Option.some.inj h
      exact congrArg (some ∘ BasicValue.int16 ∘ Int16.ofBitVec) (ofNat_zigZag v.toBitVec)
  | int32 v =>
      obtain rfl := Option.some.inj h
      exact congrArg (some ∘ BasicValue.int32 ∘ Int32.ofBitVec) (ofNat_zigZag v.toBitVec)
  | int64 v =>
      obtain rfl := Option.some.inj h
      exact congrArg (some ∘ BasicValue.int64 ∘ Int64.ofBitVec) (ofNat_zigZag v.toBitVec)
  | _ => cases h

/-- The bytes of an integer: both ways of writing emit them, also when one starts where the other
    ends for lack of room; each way of reading gets the integer back from them, whatever follows, and
    stops behind them; and the counter moves by their number. -/
theorem varUnsigned_paths (v : BasicValue) (u : VarUnsigned) (h : varUnsigned v = some u) :
    ∃ bytes : List UInt8,
      genericWriteVariableUnsigned u.toNat = bytes ∧
      OutputBuffer.variableUnsignedUnchecked u.width (u.width.lastByte - 1) u.toNat = bytes ∧
      (∀ noinit (s : OutputMemoryStream), s.Inv →
        s.Appends bytes (s.writeVariableUnsigned noinit u.width u.toNat)) ∧
      (∀ rest, InputBuffer.variableUnsignedUnchecked u.width 0 0 (bytes ++ rest)
        = some (u.toNat, bytes.length)) ∧
      Decodes (InputBuffer.genericReadVariableUnsigned u.width) bytes (pure u.toNat) ∧
      Decodes (InputBuffer.readVariableUnsigned u.width) bytes (pure u.toNat) ∧
      ofVarUnsigned v.type u.toNat = some v ∧
      Decodes (read v.type) bytes (pure v) ∧
      ∀ count : UInt32, outputCount count [.writeVariableUnsigned u]
        = count + UInt32.ofNat bytes.length := by
  have hlt := u.toNat_lt
  have hwf : v.wellFormed = true := by
    cases v <;> first | rfl | cases h
  have hread := decodes_read v hwf
  rw [outputBytes_write h] at hread
  refine ⟨varint u.toNat, genericWriteVariableUnsigned_eq _,
    OutputBuffer.variableUnsignedUnchecked_varint _ hlt,
    fun noinit s hs => OutputMemoryStream.appends_writeVariableUnsigned noinit _ hlt hs,
    fun rest => ?_, InputBuffer.decodes_genericReadVariableUnsigned _ _ hlt,
    InputBuffer.decodes_readVariableUnsigned _ _ hlt, ofVarUnsigned_varUnsigned h, hread,
    fun count => ?_⟩
  · have hunrolled := InputBuffer.variableUnsignedUnchecked_varint u.width u.toNat 0 0 rest
      (Nat.dvd_zero 7) (Nat.zero_le _) (Nat.one_pos : 0 < 2 ^ 0) (by simpa using hlt)
    rwa [Nat.zero_add, Nat.pow_zero, Nat.mul_one] at hunrolled
  · rw [outputCount_eq, outputBytes_cons, outputBytes_nil, List.append_nil,
      bytes_writeVariableUnsigned]

theorem varUnsigned_paths_negative :
    ∃ bytes : List UInt8, genericWriteVariableUnsigned 299 = bytes ∧
      ofVarUnsigned .int16 299 = some (.int16 (-150)) ∧
      Decodes (read .int16) bytes (pure (.int16 (-150))) := by
  obtain ⟨bytes, hgeneric, -, -, -, -, -, hof, hread, -⟩ :=
    varUnsigned_paths (.int16 (-150)) (.uint16 299) (by decide +kernel)
  exact ⟨bytes, hgeneric, hof, hread⟩

end CompactBinary

end Bond.Cpp

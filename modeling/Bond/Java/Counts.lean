import Bond.Lib.Counted
import Bond.Java.BondTypes
import Bond.Java.SkipExact

set_option autoImplicit false

/-! # Counts in Java

The counts and lengths of a payload have 32 bits without a sign. Java holds them in `int`s, and from
2^31 on these are negative. What follows from that for the loops and for the bytes that are read or
skipped is the same for all protocols. -/

namespace Bond.Java

open Bond.Cpp (BondDataType)
open Bond.Lib
open Decoder
open BinaryStreamReader VarUIntHelper

/-! ## An `int` that is meant without its sign -/

/-- A count, as the payload has it -/
def unsigned (count : Int32) : Nat :=
  count.toUInt32.toNat

theorem unsigned_lt (count : Int32) : unsigned count < 2 ^ 32 :=
  count.toUInt32.toNat_lt

theorem toInt_eq_unsigned (count : Int32) :
    count.toInt = if unsigned count < 2 ^ 31 then (unsigned count : Int)
      else (unsigned count : Int) - 2 ^ 32 := by
  have hcond : count.toInt = if 2 * unsigned count < 2 ^ 32 then (unsigned count : Int)
      else (unsigned count : Int) - 2 ^ 32 := BitVec.toInt_eq_toNat_cond count.toBitVec
  rw [hcond]
  split <;> split <;> omega

theorem eq_iff_unsigned (a b : Int32) : a = b ↔ unsigned a = unsigned b := by
  constructor
  · rintro rfl
    rfl
  · intro h
    apply Int32.toInt_inj.1
    rw [toInt_eq_unsigned, toInt_eq_unsigned, h]

theorem lt_zero_iff (count : Int32) : count < 0 ↔ 2 ^ 31 ≤ unsigned count := by
  have hlt := unsigned_lt count
  rw [Int32.lt_iff_toInt_lt, toInt_eq_unsigned]
  show _ < (0 : Int) ↔ _
  split <;> omega

theorem unsigned_double (count : Int32) : unsigned (count * 2) = 2 * unsigned count % 2 ^ 32 := by
  show (count.toUInt32 * 2).toNat = _
  rw [UInt32.toNat_mul]
  show unsigned count * 2 % 2 ^ 32 = _
  rw [Nat.mul_comm]

theorem turns_eq (count : Int32) :
    turns count = if unsigned count < 2 ^ 31 then unsigned count else 0 := by
  have hlt := unsigned_lt count
  rw [turns, toInt_eq_unsigned]
  split <;> omega

/-- `--count >= 0` also turns as often as 2^31 announces: the least `int` becomes the greatest. -/
theorem countdown_eq (count : Int32) :
    countdown count = if unsigned count ≤ 2 ^ 31 then unsigned count else 0 := by
  have hlt := unsigned_lt count
  have hmin : unsigned Int32.minValue = 2 ^ 31 := by rfl
  unfold countdown
  split
  · next hcount =>
      rw [eq_iff_unsigned, hmin] at hcount
      rw [if_pos (by omega), hcount]
  · next hcount =>
      rw [eq_iff_unsigned, hmin] at hcount
      rw [toInt_eq_unsigned]
      split <;> split <;> omega

/-! ## What reads and skips succeed on -/

theorem skipBytes_ok_iff {byteCount : Int} {s s' : List UInt8} {u : Unit} :
    skipBytes byteCount s = .ok (u, s') ↔
      byteCount.toNat ≤ s.length ∧ s' = s.drop byteCount.toNat := by
  unfold skipBytes
  dsimp only
  split
  · constructor
    · intro h
      cases h
    · rintro ⟨hle, -⟩
      omega
  · next hge =>
      have hle : byteCount.toNat ≤ s.length := by omega
      rw [Nat.min_eq_left hle]
      constructor
      · intro h
        cases h
        exact ⟨hle, rfl⟩
      · rintro ⟨-, rfl⟩
        rfl

theorem readExactly_ok_iff {k : Nat} {s s' bs : List UInt8} :
    readExactly k s = .ok (bs, s') ↔ k ≤ s.length ∧ bs = s.take k ∧ s' = s.drop k := by
  unfold readExactly
  split
  · constructor
    · intro h
      cases h
    · rintro ⟨hle, -⟩
      omega
  · constructor
    · intro h
      cases h
      exact ⟨by omega, rfl, rfl⟩
    · rintro ⟨-, rfl, rfl⟩
      rfl

theorem readBytes_eq (count : Int32) :
    readBytes count = if unsigned count < 2 ^ 31 then readExactly (unsigned count)
      else throwException .negativeArraySize := by
  unfold readBytes
  split
  · next hsign =>
      have hge := (lt_zero_iff count).1 hsign
      rw [if_neg (by omega)]
  · next hsign =>
      have hlt : unsigned count < 2 ^ 31 := Nat.lt_of_not_le fun hge =>
        hsign ((lt_zero_iff count).2 hge)
      rw [if_pos hlt, toInt_eq_unsigned, if_pos hlt, Int.toNat_natCast]

/-- Bytes that are read by a count are as many as it says. -/
theorem exactly_of_readBytes {count : Int32} {s s' bs : List UInt8}
    (h : readBytes count s = .ok (bs, s')) : readExactly (unsigned count) s = .ok (bs, s') := by
  rw [readBytes_eq] at h
  split at h
  · exact h
  · cases h

/-! ## What is used up -/

theorem takesAtLeast_skipBytes (byteCount : Int) :
    TakesAtLeast (skipBytes byteCount) byteCount.toNat := by
  intro s u s' hrun
  obtain ⟨hle, rfl⟩ := skipBytes_ok_iff.1 hrun
  show (s.drop byteCount.toNat).length + _ ≤ s.length
  rw [List.length_drop]
  omega

theorem takesAtLeast_readExactly (k : Nat) : TakesAtLeast (readExactly k) k := by
  intro s bs s' hrun
  obtain ⟨hle, -, rfl⟩ := readExactly_ok_iff.1 hrun
  show (s.drop k).length + k ≤ s.length
  rw [List.length_drop]
  omega

theorem takesAtLeast_readInt8 : TakesAtLeast readInt8 1 := by
  intro s b s' hrun
  cases s with
  | nil => cases hrun
  | cons b bytes =>
      cases hrun
      exact Nat.le_refl _

theorem takesAtLeast_throwException {β : Type} (e : Exception) (k : Nat) :
    TakesAtLeast (throwException e : Reader β) k := by
  intro s b s' hrun
  cases hrun

theorem takesAtLeast_decodeVarUInt (masked shift : Nat) :
    TakesAtLeast (decodeVarUInt masked shift) 1 := by
  induction masked generalizing shift with
  | zero => exact takesAtLeast_readInt8.bind_right fun raw => .pure _
  | succ masked ih =>
      refine takesAtLeast_readInt8.bind_right fun raw => ?_
      split
      · exact ((ih (shift + 7)).mono (Nat.zero_le 1)).bind_right fun _ => .pure _
      · exact .pure _

theorem takesAtLeast_decodeVarUInt16 : TakesAtLeast decodeVarUInt16 1 :=
  (takesAtLeast_decodeVarUInt 2 0).bind_right fun _ => .pure _

theorem takesAtLeast_decodeVarUInt32 : TakesAtLeast decodeVarUInt32 1 :=
  (takesAtLeast_decodeVarUInt 4 0).bind_right fun _ => .pure _

theorem takesAtLeast_decodeVarUInt64 : TakesAtLeast decodeVarUInt64 1 := by
  refine (takesAtLeast_decodeVarUInt 8 0).bind_right fun result => ?_
  dsimp only
  split
  · exact (takesAtLeast_readInt8.mono (Nat.zero_le 1)).bind_right fun _ => .pure _
  · exact .pure _

/-! ## Items of a fixed width -/

/-- A program, as often as it is announced -/
def times (n : Nat) (op : Reader Unit) : Reader Unit := do
  let _ ← repeatN n op
  return ()

theorem takesAtLeast_times {op : Reader Unit} {k : Nat} (h : TakesAtLeast op k) (n : Nat) :
    TakesAtLeast (times n op) (n * k) :=
  (h.repeatN n).bind_right fun _ => .pure ()

theorem times_succ (n : Nat) (op : Reader Unit) : times (n + 1) op = (do op; times n op) := by
  unfold times
  rw [repeatN]
  simp only [bind_assoc, pure_bind]

theorem times_skipBytes_ok_iff {n width : Nat} {s s' : List UInt8} {u : Unit} :
    times n (skipBytes width) s = .ok (u, s') ↔ n * width ≤ s.length ∧ s' = s.drop (n * width) := by
  induction n generalizing s with
  | zero =>
      rw [Nat.zero_mul, List.drop_zero]
      constructor
      · intro h
        cases h
        exact ⟨Nat.zero_le _, rfl⟩
      · rintro ⟨-, rfl⟩
        rfl
  | succ n ih =>
      rw [times_succ, Nat.succ_mul]
      constructor
      · intro h
        obtain ⟨u₁, s₁, hskip, hrest⟩ := run_bind_ok h
        obtain ⟨hle, rfl⟩ := skipBytes_ok_iff.1 hskip
        obtain ⟨hle', rfl⟩ := ih.1 hrest
        rw [Int.toNat_natCast, List.length_drop] at *
        rw [List.drop_drop, Nat.add_comm width]
        exact ⟨by omega, rfl⟩
      · rintro ⟨hle, rfl⟩
        have hskip : (skipBytes width).run s = .ok ((), s.drop width) :=
          skipBytes_ok_iff.2 ⟨by rw [Int.toNat_natCast]; omega, by rw [Int.toNat_natCast]⟩
        show (skipBytes width >>= fun _ => times n (skipBytes width)).run s = _
        rw [StateT.run_bind, hskip]
        refine ih.2 ⟨?_, ?_⟩
        · rw [List.length_drop]
          omega
        · rw [List.drop_drop, Nat.add_comm width]

/-! ## As much as is announced -/

theorem drop_inj {s : List UInt8} {k m : Nat} (hk : k ≤ s.length) (hm : m ≤ s.length)
    (h : s.drop k = s.drop m) : k = m := by
  have hlength := congrArg List.length h
  rw [List.length_drop, List.length_drop] at hlength
  omega

/-- Skipping does what skipping another number of bytes does if the numbers are the same, or if
    there are too few bytes. -/
theorem skipBytes_exactly_iff (k : Int) (m : Nat) (s : List UInt8) :
    (∀ u s', skipBytes k s = .ok (u, s') → skipBytes m s = .ok (u, s')) ↔
      s.length < k.toNat ∨ k.toNat = m := by
  constructor
  · intro h
    rcases Nat.lt_or_ge s.length k.toNat with hlt | hge
    · exact .inl hlt
    · have hskip := h () _ (skipBytes_ok_iff.2 ⟨hge, rfl⟩)
      obtain ⟨hle, hdrop⟩ := skipBytes_ok_iff.1 hskip
      rw [Int.toNat_natCast] at hle hdrop
      exact .inr (drop_inj hge hle hdrop)
  · rintro (hlt | rfl) u s' hskip
    · have hle := (skipBytes_ok_iff.1 hskip).1
      omega
    · rwa [skipBytes_ok_iff, Int.toNat_natCast, ← skipBytes_ok_iff]

/-- The same of reading, whatever is made of the bytes. -/
theorem readExactly_exactly_iff {β : Type} (f : List UInt8 → β) (k m : Nat) (s : List UInt8) :
    (∀ b s', (readExactly k >>= fun bs => pure (f bs)).run s = .ok (b, s') →
      (readExactly m >>= fun bs => pure (f bs)).run s = .ok (b, s')) ↔ s.length < k ∨ k = m := by
  constructor
  · intro h
    rcases Nat.lt_or_ge s.length k with hlt | hge
    · exact .inl hlt
    · have hread : (readExactly k).run s = .ok (s.take k, s.drop k) :=
        readExactly_ok_iff.2 ⟨hge, rfl, rfl⟩
      have hrun := h (f (s.take k)) (s.drop k) (by rw [StateT.run_bind, hread]; rfl)
      obtain ⟨bs, s₁, hexactly, hrun⟩ := run_bind_ok hrun
      obtain ⟨hle, -, rfl⟩ := readExactly_ok_iff.1 hexactly
      exact .inr (drop_inj hge hle (Prod.mk.inj (Except.ok.inj hrun)).2.symm)
  · rintro (hlt | rfl) b s' hrun
    · obtain ⟨bs, s₁, hread, -⟩ := run_bind_ok hrun
      have hle := (readExactly_ok_iff.1 hread).1
      omega
    · exact hrun

/-- A number of bytes that comes with its sign -/
theorem skipBytes_count_iff (count : Int32) {width : Nat} (hwidth : 0 < width) (s : List UInt8) :
    (∀ u s', skipBytes (count.toInt * width) s = .ok (u, s') →
      skipBytes (unsigned count * width : Nat) s = .ok (u, s')) ↔ unsigned count < 2 ^ 31 := by
  have hproduct : (count.toInt * width).toNat
      = if unsigned count < 2 ^ 31 then unsigned count * width else 0 := by
    rw [toInt_eq_unsigned]
    split
    · rw [← Int.natCast_mul, Int.toNat_natCast]
    · have hlt := unsigned_lt count
      apply Int.toNat_of_nonpos
      exact Int.mul_nonpos_of_nonpos_of_nonneg (by omega) (Int.natCast_nonneg width)
  rw [skipBytes_exactly_iff, hproduct]
  split
  · next hlt => exact ⟨fun _ => hlt, fun _ => .inr rfl⟩
  · next hge =>
      have hpos : 0 < unsigned count * width := Nat.mul_pos (by omega) hwidth
      omega

theorem skipBytes_length_iff (count : Int32) (s : List UInt8) :
    (∀ u s', skipBytes count.toInt s = .ok (u, s') →
      skipBytes (unsigned count) s = .ok (u, s')) ↔ unsigned count < 2 ^ 31 := by
  have hskip := skipBytes_count_iff count Nat.one_pos s
  rwa [Nat.cast_one, Int.mul_one, Nat.mul_one] at hskip

/-- A string whose units have two bytes: the number of bytes is an `int`. -/
theorem readBytes_double_iff {β : Type} (f : List UInt8 → β) (count : Int32) (s : List UInt8) :
    (∀ b s', (readBytes (count * 2) >>= fun bs => pure (f bs)).run s = .ok (b, s') →
      (readExactly (2 * unsigned count) >>= fun bs => pure (f bs)).run s = .ok (b, s')) ↔
      ¬ (2 ^ 31 ≤ unsigned count ∧ unsigned count < 2 ^ 31 + 2 ^ 30 ∧
        2 * (unsigned count - 2 ^ 31) ≤ s.length) := by
  have hlt := unsigned_lt count
  have hdouble := unsigned_double count
  rw [readBytes_eq]
  split
  · rw [readExactly_exactly_iff]
    omega
  · constructor
    · intro _
      omega
    · intro _ b s' hrun
      cases hrun

/-- A loop over the elements turns as often as a count less than 2^31 announces. -/
theorem turns_of_lt {count : Int32} (h : unsigned count < 2 ^ 31) :
    turns count = unsigned count := by
  rw [turns_eq, if_pos h]

theorem turns_of_ge {count : Int32} (h : ¬ unsigned count < 2 ^ 31) : turns count = 0 := by
  rw [turns_eq, if_neg h]

/-- Elements that are collected: a collection without any is not one of 2^31 or more. -/
theorem repeatN_exactly_iff {β γ : Type} (op : Reader β) {f : List β → γ}
    (hf : Function.Injective f) (count : Int32) (s : List UInt8) :
    (∀ b s', (repeatN (turns count) op >>= fun bs => pure (f bs)).run s = .ok (b, s') →
      (repeatN (unsigned count) op >>= fun bs => pure (f bs)).run s = .ok (b, s')) ↔
      unsigned count < 2 ^ 31 := by
  constructor
  · intro h
    by_contra hge
    rw [turns_of_ge hge] at h
    obtain ⟨bs, s₁, hbs, hrun⟩ := run_bind_ok (h (f []) s rfl)
    obtain ⟨hempty, -⟩ := Prod.mk.inj (Except.ok.inj hrun)
    have hlength := length_of_repeatN hbs
    rw [hf hempty, List.length_nil] at hlength
    omega
  · intro hlt b s' hrun
    rwa [turns_of_lt hlt] at hrun

/-- A vector is allocated before its elements are read. -/
theorem exactly_of_newArrayList {β γ : Type} {op : Reader β} (f : List β → γ) {count : Int32}
    {s s' : List UInt8} {c : γ}
    (h : (newArrayList count >>= fun _ => repeatN (turns count) op >>= fun bs => pure (f bs)).run s
      = .ok (c, s')) :
    (repeatN (unsigned count) op >>= fun bs => pure (f bs)).run s = .ok (c, s') := by
  obtain ⟨u, s₁, hnew, hrun⟩ := run_bind_ok h
  unfold newArrayList at hnew
  split at hnew
  · cases hnew
  · next hsign =>
      cases hnew
      have hlt : unsigned count < 2 ^ 31 := by
        rwa [lt_zero_iff, Nat.not_le] at hsign
      rwa [turns_of_lt hlt] at hrun

/-- What is refused is not taken. -/
theorem refused_iff {β : Type} {c : Prop} [Decidable c] {e : Exception} {op exactly : Reader β}
    {s : List UInt8} :
    (∀ b s', (if c then throwException e else op).run s = .ok (b, s') →
      exactly.run s = .ok (b, s')) ↔
      (¬ c → ∀ b s', op.run s = .ok (b, s') → exactly.run s = .ok (b, s')) := by
  by_cases hc : c
  · simp only [if_pos hc]
    exact ⟨fun _ hne => absurd hc hne, fun _ b s' hrun => by cases hrun⟩
  · simp only [if_neg hc]
    exact ⟨fun h _ => h, fun h => h hc⟩

theorem readBytes_zero : readBytes 0 = pure [] :=
  rfl

/-- No byte is read for a count of 0, and nothing is made of none. -/
theorem unless_zero {β : Type} {f : List UInt8 → List β} (hf : f [] = []) {g : Int32 → Int32}
    (hg : g 0 = 0) (count : Int32) :
    (if count = 0 then pure [] else readBytes (g count) >>= fun bs => pure (f bs))
      = readBytes (g count) >>= fun bs => pure (f bs) := by
  split
  · next hzero =>
      rw [hzero, hg, readBytes_zero, pure_bind, hf]
  · rfl

theorem one_iff (count : Int32) : count = 1 ↔ unsigned count = 1 :=
  eq_iff_unsigned count 1

theorem one_lt_iff (count : Int32) : count > 1 ↔ 1 < unsigned count ∧ unsigned count < 2 ^ 31 := by
  have hlt := unsigned_lt count
  rw [gt_iff_lt, Int32.lt_iff_toInt_lt, toInt_eq_unsigned count]
  show (1 : Int) < _ ↔ _
  split <;> omega

/-- A value that may be null is announced by a count of 0 or 1. -/
theorem nullable_exactly_iff {β : Type} (deserializeElement : Reader β) (null : β) (count : Int32)
    (s : List UInt8) :
    (∀ b s', (if count = 1 then deserializeElement
        else if count > 1 then throwException .invalidBondData
        else pure null : Reader β).run s = .ok (b, s') →
      (match unsigned count with
        | 0 => pure null
        | 1 => deserializeElement
        | _ => throwException .invalidBondData : Reader β).run s = .ok (b, s')) ↔
      unsigned count < 2 ^ 31 := by
  have hone := one_iff count
  have hmore := one_lt_iff count
  generalize unsigned count = n at hone hmore
  rcases n with _ | _ | n
  · rw [if_neg (mt hone.1 (by omega)), if_neg (mt hmore.1 (by omega))]
    exact ⟨fun _ => by decide, fun _ _ _ hrun => hrun⟩
  · rw [if_pos (hone.2 rfl)]
    exact ⟨fun _ => by decide, fun _ _ _ hrun => hrun⟩
  · rw [if_neg (mt hone.1 (by omega))]
    constructor
    · intro h
      by_contra hge
      rw [if_neg (mt hmore.1 fun hlt => hge hlt.2)] at h
      cases h null s rfl
    · intro hlt b s' hrun
      rw [if_pos (hmore.2 ⟨by omega, hlt⟩)] at hrun
      cases hrun

/-- Elements that are passed over: each of them has a byte at least. -/
theorem countdown_exactly_iff {op : Reader Unit} (hop : TakesAtLeast op 1) (count : Int32)
    (s : List UInt8) :
    (∀ u s', (times (countdown count) op).run s = .ok (u, s') →
      (times (unsigned count) op).run s = .ok (u, s')) ↔ unsigned count ≤ 2 ^ 31 := by
  rw [countdown_eq]
  split
  · next hle => exact ⟨fun _ => hle, fun _ _ _ hrun => hrun⟩
  · next hgt =>
      constructor
      · intro h
        have hzero := (takesAtLeast_times hop _).eq_zero (h () s rfl)
        omega
      · intro hle
        exact absurd hle hgt

theorem times_of_hollow {op : Reader Unit} {s : List UInt8} (h : op.run s = .ok ((), s)) (n : Nat) :
    (times n op).run s = .ok ((), s) := by
  induction n with
  | zero => rfl
  | succ n ih =>
      rw [times_succ, StateT.run_bind, h]
      exact ih

/-- Elements that are passed over, with or without bytes -/
theorem turns_exactly_iff {op : Reader Unit} {hollow : Prop} {s : List UInt8}
    (hempty : hollow → op.run s = .ok ((), s)) (hsolid : ¬ hollow → TakesAtLeast op 1)
    (count : Int32) :
    (∀ u s', (times (turns count) op).run s = .ok (u, s') →
      (times (unsigned count) op).run s = .ok (u, s')) ↔ unsigned count < 2 ^ 31 ∨ hollow := by
  by_cases hlt : unsigned count < 2 ^ 31
  · rw [turns_of_lt hlt]
    exact ⟨fun _ => .inl hlt, fun _ _ _ hrun => hrun⟩
  · rw [turns_of_ge hlt]
    constructor
    · intro h
      right
      by_contra hop
      have hzero := (takesAtLeast_times (hsolid hop) _).eq_zero (h () s rfl)
      omega
    · rintro (hcount | hop) u s' hrun
      · exact absurd hcount hlt
      · cases hrun
        exact times_of_hollow (hempty hop) _

/-- Entries that are passed over at once, as many bytes as each of them is taken to have -/
theorem skipBytes_entries_iff {entry : Reader Unit} (hentry : TakesAtLeast entry 1)
    (count : Int32) (width : Nat) (s : List UInt8) :
    (∀ u s', skipBytes (count.toInt * width) s = .ok (u, s') →
      (times (unsigned count) entry).run s = .ok (u, s')) ↔
      unsigned count < 2 ^ 31 ∧ (s.length < unsigned count * width ∨
        (times (unsigned count) entry).run s = .ok ((), s.drop (unsigned count * width))) := by
  by_cases hlt : unsigned count < 2 ^ 31
  · have hskip : ∀ u s', skipBytes (count.toInt * width) s = .ok (u, s') ↔
        unsigned count * width ≤ s.length ∧ s' = s.drop (unsigned count * width) := by
      intro u s'
      rw [skipBytes_ok_iff, toInt_eq_unsigned, if_pos hlt, ← Int.natCast_mul, Int.toNat_natCast]
    constructor
    · intro h
      refine ⟨hlt, ?_⟩
      rcases Nat.lt_or_ge s.length (unsigned count * width) with hshort | hlong
      · exact .inl hshort
      · exact .inr (h () _ ((hskip () _).2 ⟨hlong, rfl⟩))
    · rintro ⟨-, hshort | hentries⟩ u s' hrun
      · have hlong := ((hskip u s').1 hrun).1
        omega
      · rw [hentries, ((hskip u s').1 hrun).2]
  · have hproduct : (count.toInt * width).toNat = 0 := by
      have hcount := unsigned_lt count
      apply Int.toNat_of_nonpos
      rw [toInt_eq_unsigned, if_neg hlt]
      exact Int.mul_nonpos_of_nonpos_of_nonneg (by omega) (Int.natCast_nonneg _)
    constructor
    · intro h
      -- nothing is skipped, and the entries have a byte each
      have hskip : skipBytes (count.toInt * width) s = .ok ((), s) := by
        rw [skipBytes_ok_iff, hproduct]
        exact ⟨Nat.zero_le _, rfl⟩
      have hzero := (takesAtLeast_times hentry _).eq_zero (h () s hskip)
      omega
    · rintro ⟨hcount, -⟩
      exact absurd hcount hlt

end Bond.Java

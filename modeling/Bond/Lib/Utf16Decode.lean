import Bond.Lib.Utf16

set_option autoImplicit false

/-! # Decoding strings

The way back from UTF-8 and UTF-16LE bytes to code units. What an encoder writes for a string is
read back as the string in which each lone surrogate has been replaced, so a string comes back as
it was if and only if it has none. -/

namespace Utf16

/-! ## Scalar values -/

/-- The code units of a scalar value. -/
def ofScalar (n : Nat) : List UInt16 :=
  if n < 0x10000 then [UInt16.ofNat n]
  else
    [UInt16.ofNat (0xD800 + (n - 0x10000) / 0x400),
      UInt16.ofNat (0xDC00 + (n - 0x10000) % 0x400)]

def isScalar (n : Nat) : Bool :=
  n < 0xD800 || (0xE000 ≤ n && n < 0x110000)

/-- The scalar values of a string, with `r` for each lone surrogate. -/
def scalars (r : Nat) : List UInt16 → List Nat
  | [] => []
  | [c] => if isHighSurrogate c || isLowSurrogate c then [r] else [c.toNat]
  | c :: d :: cs =>
      if isHighSurrogate c && isLowSurrogate d then
        ofPair c d :: scalars r cs
      else if isHighSurrogate c || isLowSurrogate c then
        r :: scalars r (d :: cs)
      else
        c.toNat :: scalars r (d :: cs)

/-- A string without lone surrogates. -/
def isUnicode : List UInt16 → Bool
  | [] => true
  | [c] => !(isHighSurrogate c || isLowSurrogate c)
  | c :: d :: cs =>
      if isHighSurrogate c && isLowSurrogate d then isUnicode cs
      else !(isHighSurrogate c || isLowSurrogate c) && isUnicode (d :: cs)

/-- The string with `r` for each lone surrogate. -/
def replaced (r : Nat) (cs : List UInt16) : List UInt16 :=
  (scalars r cs).flatMap ofScalar

section

variable {c d : UInt16}

theorem isHighSurrogate_iff : isHighSurrogate c = true ↔ 0xD800 ≤ c.toNat ∧ c.toNat ≤ 0xDBFF := by
  simp [isHighSurrogate, UInt16.le_iff_toNat_le]

theorem isLowSurrogate_iff : isLowSurrogate c = true ↔ 0xDC00 ≤ c.toNat ∧ c.toNat ≤ 0xDFFF := by
  simp [isLowSurrogate, UInt16.le_iff_toNat_le]

theorem isScalar_of_not_surrogate (h : ¬ (isHighSurrogate c || isLowSurrogate c) = true) :
    isScalar c.toNat = true := by
  have hlt := c.toNat_lt
  simp only [Bool.or_eq_true, isHighSurrogate_iff, isLowSurrogate_iff] at h
  simp only [isScalar, Bool.or_eq_true, Bool.and_eq_true, decide_eq_true_eq]
  omega

theorem ofScalar_toNat (c : UInt16) : ofScalar c.toNat = [c] := by
  rw [ofScalar, if_pos c.toNat_lt, UInt16.ofNat_toNat]

theorem ofScalar_of_pair {n : Nat} (hn : ¬ n < 0x10000)
    (hhigh : 0xD800 + (n - 0x10000) / 0x400 = c.toNat)
    (hlow : 0xDC00 + (n - 0x10000) % 0x400 = d.toNat) : ofScalar n = [c, d] := by
  unfold ofScalar
  rw [if_neg hn, hhigh, hlow, UInt16.ofNat_toNat, UInt16.ofNat_toNat]

theorem isScalar_ofPair (h : (isHighSurrogate c && isLowSurrogate d) = true) :
    isScalar (ofPair c d) = true := by
  rw [Bool.and_eq_true, isHighSurrogate_iff, isLowSurrogate_iff] at h
  have hpair : ofPair c d = 0x10000 + (c.toNat - 0xD800) * 0x400 + (d.toNat - 0xDC00) := rfl
  simp only [isScalar, Bool.or_eq_true, Bool.and_eq_true, decide_eq_true_eq]
  omega

theorem ofScalar_ofPair (h : (isHighSurrogate c && isLowSurrogate d) = true) :
    ofScalar (ofPair c d) = [c, d] := by
  rw [Bool.and_eq_true, isHighSurrogate_iff, isLowSurrogate_iff] at h
  have hpair : ofPair c d = 0x10000 + (c.toNat - 0xD800) * 0x400 + (d.toNat - 0xDC00) := rfl
  generalize ofPair c d = n at hpair ⊢
  exact ofScalar_of_pair (by omega) (by omega) (by omega)

end

theorem isScalar_of_mem_scalars {r : Nat} (hr : isScalar r = true) {cs : List UInt16} :
    ∀ n ∈ scalars r cs, isScalar n = true := by
  induction cs using scalars.induct with
  | case1 => simp [scalars]
  | case2 c hc => simpa [scalars, hc] using hr
  | case3 c hc => simpa [scalars, hc] using isScalar_of_not_surrogate hc
  | case4 c d cs hpair ih =>
      rw [scalars, if_pos hpair]
      exact List.forall_mem_cons.2 ⟨isScalar_ofPair hpair, ih⟩
  | case5 c d cs hpair hc ih =>
      rw [scalars, if_neg hpair, if_pos hc]
      exact List.forall_mem_cons.2 ⟨hr, ih⟩
  | case6 c d cs hpair hc ih =>
      rw [scalars, if_neg hpair, if_neg hc]
      exact List.forall_mem_cons.2 ⟨isScalar_of_not_surrogate hc, ih⟩

/-- A string is kept by the replacement if and only if there is nothing to replace. -/
theorem replaced_eq_iff {r : Nat} (hr : isScalar r = true) (hlt : r < 0x10000)
    (cs : List UInt16) : replaced r cs = cs ↔ isUnicode cs = true := by
  have hne {c : UInt16} (hc : (isHighSurrogate c || isLowSurrogate c) = true) :
      UInt16.ofNat r ≠ c := by
    rintro rfl
    simp only [Bool.or_eq_true, isHighSurrogate_iff, isLowSurrogate_iff,
      UInt16.toNat_ofNat_of_lt' hlt] at hc
    simp only [isScalar, Bool.or_eq_true, Bool.and_eq_true, decide_eq_true_eq] at hr
    omega
  have hunit : ofScalar r = [UInt16.ofNat r] := if_pos hlt
  unfold replaced
  induction cs using scalars.induct with
  | case1 => simp [scalars, isUnicode]
  | case2 c hc => simp [scalars, isUnicode, hc, hunit, hne hc]
  | case3 c hc => simp [scalars, isUnicode, hc, ofScalar_toNat]
  | case4 c d cs hpair ih =>
      rw [scalars, isUnicode, if_pos hpair, if_pos hpair, List.flatMap_cons,
        ofScalar_ofPair hpair]
      simpa using ih
  | case5 c d cs hpair hc ih =>
      rw [scalars, isUnicode, if_neg hpair, if_neg hpair, if_pos hc, List.flatMap_cons, hunit]
      simp [hc, hne hc]
  | case6 c d cs hpair hc ih =>
      rw [scalars, isUnicode, if_neg hpair, if_neg hpair, if_neg hc, List.flatMap_cons,
        ofScalar_toNat]
      simpa [hc] using ih

/-- A string of scalar values has no lone surrogates. -/
theorem isUnicode_flatMap_ofScalar {ns : List Nat} (h : ∀ n ∈ ns, isScalar n = true) :
    isUnicode (ns.flatMap ofScalar) = true := by
  have hself (k : Nat) (hk : k < 0x10000) : (UInt16.ofNat k).toNat = k :=
    UInt16.toNat_ofNat_of_lt' hk
  induction ns with
  | nil => rfl
  | cons n ns ih =>
      have hn := h n List.mem_cons_self
      have hrest := ih fun m hm => h m (List.mem_cons_of_mem n hm)
      simp only [isScalar, Bool.or_eq_true, Bool.and_eq_true, decide_eq_true_eq] at hn
      rw [List.flatMap_cons]
      unfold ofScalar
      split_ifs with hlt
      · have hc :
            (isHighSurrogate (UInt16.ofNat n) || isLowSurrogate (UInt16.ofNat n)) = false := by
          rw [Bool.eq_false_iff, ne_eq, Bool.or_eq_true, isHighSurrogate_iff, isLowSurrogate_iff,
            hself n hlt]
          omega
        obtain ⟨hhigh, hlow⟩ := Bool.or_eq_false_iff.1 hc
        show isUnicode (UInt16.ofNat n :: ns.flatMap ofScalar) = true
        cases hcs : ns.flatMap ofScalar with
        | nil => simp only [isUnicode, hc, Bool.not_false]
        | cons d cs =>
            rw [hcs] at hrest
            simp [isUnicode, hhigh, hlow, hrest]
      · have hhigh : isHighSurrogate (UInt16.ofNat (0xD800 + (n - 0x10000) / 0x400)) = true := by
          rw [isHighSurrogate_iff, hself _ (by omega)]
          omega
        have hlow : isLowSurrogate (UInt16.ofNat (0xDC00 + (n - 0x10000) % 0x400)) = true := by
          rw [isLowSurrogate_iff, hself _ (by omega)]
          omega
        rw [List.cons_append, List.cons_append, List.nil_append, isUnicode, if_pos]
        · exact hrest
        · rw [hhigh, hlow]
          rfl

/-! ## UTF-8 -/

theorem utf8_eq (r : Nat) (cs : List UInt16) :
    utf8 (utf8Scalar r) cs = (scalars r cs).flatMap utf8Scalar := by
  induction cs using scalars.induct with
  | case1 => rfl
  | case2 c hc => simp [utf8, scalars, hc]
  | case3 c hc => simp [utf8, scalars, hc]
  | case4 c d cs hpair ih => rw [utf8, scalars, if_pos hpair, if_pos hpair, ih, List.flatMap_cons]
  | case5 c d cs hpair hc ih =>
      rw [utf8, scalars, if_neg hpair, if_neg hpair, if_pos hc, if_pos hc, ih, List.flatMap_cons]
  | case6 c d cs hpair hc ih =>
      rw [utf8, scalars, if_neg hpair, if_neg hpair, if_neg hc, if_neg hc, ih, List.flatMap_cons]

/-- The number in the bits of a sequence that begins with some bytes, and the length of the
    sequence. -/
def bitsOfSequence (bytes : List UInt8) : Nat × Nat :=
  let byte (i : Nat) := (bytes.getD i 0).toNat
  if byte 0 < 0x80 then (byte 0, 1)
  else if byte 0 < 0xE0 then ((byte 0 - 0xC0) * 0x40 + (byte 1 - 0x80), 2)
  else if byte 0 < 0xF0 then
    ((byte 0 - 0xE0) * 0x1000 + (byte 1 - 0x80) * 0x40 + (byte 2 - 0x80), 3)
  else
    ((byte 0 - 0xF0) * 0x40000 + (byte 1 - 0x80) * 0x1000 + (byte 2 - 0x80) * 0x40
      + (byte 3 - 0x80), 4)

/-- The scalar value that some bytes begin with, if they begin with its sequence: one that is cut
    off, longer than it has to be or of a surrogate is none. -/
def readScalar (bytes : List UInt8) : Option (Nat × List UInt8) :=
  let (n, size) := bitsOfSequence bytes
  if isScalar n && bytes.take size = utf8Scalar n then some (n, bytes.drop size) else none

/-- The scalar values of some UTF-8 bytes, each of at least one byte. -/
def readScalars : Nat → List UInt8 → Option (List Nat)
  | _, [] => some []
  | 0, _ :: _ => none
  | k + 1, b :: bytes => do
      let (n, rest) ← readScalar (b :: bytes)
      let ns ← readScalars k rest
      return n :: ns

/-- The string of some UTF-8 bytes. -/
def ofUtf8 (bytes : List UInt8) : Option (List UInt16) :=
  (readScalars bytes.length bytes).map (List.flatMap ofScalar)

theorem bitsOfSequence_utf8Scalar {n : Nat} (h : n < 0x110000) (rest : List UInt8) :
    bitsOfSequence (utf8Scalar n ++ rest) = (n, (utf8Scalar n).length) := by
  have hbyte (k : Nat) (hk : k < 256) : (UInt8.ofNat k).toNat = k := UInt8.toNat_ofNat_of_lt' hk
  unfold utf8Scalar
  split_ifs with h1 h2 h3
  · have hn := hbyte n (by omega)
    simp [bitsOfSequence, hn, h1]
  · have h0 := hbyte (0xC0 + n / 0x40) (by omega)
    have h1' := hbyte (0x80 + n % 0x40) (by omega)
    simp only [bitsOfSequence, List.cons_append, List.nil_append, List.getD_cons_zero,
      List.getD_cons_succ, h0, h1', List.length_cons, List.length_nil]
    rw [if_neg (by omega), if_pos (by omega), Prod.mk.injEq]
    omega
  · have h0 := hbyte (0xE0 + n / 0x1000) (by omega)
    have h1' := hbyte (0x80 + n / 0x40 % 0x40) (by omega)
    have h2' := hbyte (0x80 + n % 0x40) (by omega)
    simp only [bitsOfSequence, List.cons_append, List.nil_append, List.getD_cons_zero,
      List.getD_cons_succ, h0, h1', h2', List.length_cons, List.length_nil]
    rw [if_neg (by omega), if_neg (by omega), if_pos (by omega), Prod.mk.injEq]
    omega
  · have h0 := hbyte (0xF0 + n / 0x40000) (by omega)
    have h1' := hbyte (0x80 + n / 0x1000 % 0x40) (by omega)
    have h2' := hbyte (0x80 + n / 0x40 % 0x40) (by omega)
    have h3' := hbyte (0x80 + n % 0x40) (by omega)
    simp only [bitsOfSequence, List.cons_append, List.nil_append, List.getD_cons_zero,
      List.getD_cons_succ, h0, h1', h2', h3', List.length_cons, List.length_nil]
    rw [if_neg (by omega), if_neg (by omega), if_neg (by omega), Prod.mk.injEq]
    omega

theorem readScalar_utf8Scalar {n : Nat} (h : isScalar n = true) (rest : List UInt8) :
    readScalar (utf8Scalar n ++ rest) = some (n, rest) := by
  have hlt : n < 0x110000 := by
    simp only [isScalar, Bool.or_eq_true, Bool.and_eq_true, decide_eq_true_eq] at h
    omega
  simp [readScalar, bitsOfSequence_utf8Scalar hlt, h]

theorem readScalars_flatMap {ns : List Nat} (h : ∀ n ∈ ns, isScalar n = true) {k : Nat}
    (hk : ns.length ≤ k) : readScalars k (ns.flatMap utf8Scalar) = some ns := by
  induction ns generalizing k with
  | nil => cases k <;> rfl
  | cons n ns ih =>
      obtain ⟨k, rfl⟩ : ∃ k', k = k' + 1 := ⟨k - 1, by simp at hk; omega⟩
      have hrest := ih (fun m hm => h m (List.mem_cons_of_mem n hm)) (by simpa using hk)
      have hread := readScalar_utf8Scalar (h n List.mem_cons_self) (ns.flatMap utf8Scalar)
      have hpos := utf8Scalar_length_pos n
      rw [List.flatMap_cons]
      cases hbytes : utf8Scalar n ++ ns.flatMap utf8Scalar with
      | nil =>
          have hlength := congrArg List.length hbytes
          simp only [List.length_append, List.length_nil] at hlength
          omega
      | cons b bytes =>
          rw [hbytes] at hread
          simp only [readScalars, hread, hrest, Option.bind_eq_bind, Option.bind_some,
            Option.pure_def]

/-- What is written for a string is read back with the replacement for each lone surrogate. -/
theorem ofUtf8_utf8 {r : Nat} (hr : isScalar r = true) (cs : List UInt16) :
    ofUtf8 (utf8 (utf8Scalar r) cs) = some (replaced r cs) := by
  rw [utf8_eq, ofUtf8, readScalars_flatMap (isScalar_of_mem_scalars hr)]
  · rfl
  · rw [List.length_flatMap]
    generalize scalars r cs = ns
    induction ns with
    | nil => exact Nat.le_refl 0
    | cons n ns ih =>
        have hpos := utf8Scalar_length_pos n
        simp only [List.length_cons, List.map_cons, List.sum_cons]
        omega

theorem isScalar_of_readScalar {bytes rest : List UInt8} {n : Nat}
    (h : readScalar bytes = some (n, rest)) : isScalar n = true := by
  unfold readScalar at h
  dsimp only at h
  split at h
  · next hsequence =>
      cases h
      exact (Bool.and_eq_true_iff.1 hsequence).1
  · cases h

theorem isScalar_of_readScalars {k : Nat} {bytes : List UInt8} {ns : List Nat}
    (h : readScalars k bytes = some ns) : ∀ n ∈ ns, isScalar n = true := by
  induction k generalizing bytes ns with
  | zero =>
      cases bytes with
      | nil =>
          cases h
          simp
      | cons b bytes => cases h
  | succ k ih =>
      cases bytes with
      | nil =>
          cases h
          simp
      | cons b bytes =>
          rw [readScalars] at h
          obtain ⟨⟨n, rest⟩, hread, h⟩ := Option.bind_eq_some_iff.1 h
          obtain ⟨ms, hrest, h⟩ := Option.bind_eq_some_iff.1 h
          cases h
          exact List.forall_mem_cons.2 ⟨isScalar_of_readScalar hread, ih hrest⟩

/-- What is decoded has no lone surrogates. -/
theorem isUnicode_of_ofUtf8 {bytes : List UInt8} {cs : List UInt16}
    (h : ofUtf8 bytes = some cs) : isUnicode cs = true := by
  obtain ⟨ns, hns, rfl⟩ := Option.map_eq_some_iff.1 h
  exact isUnicode_flatMap_ofScalar (isScalar_of_readScalars hns)

/-! ## UTF-16LE -/

theorem utf16le_eq {r : Nat} (hlt : r < 0x10000) (cs : List UInt16) :
    utf16le (Varint.littleEndian 2 r) cs
      = (replaced r cs).flatMap fun c => Varint.littleEndian 2 c.toNat := by
  have hunit : ofScalar r = [UInt16.ofNat r] := if_pos hlt
  have hself : (UInt16.ofNat r).toNat = r := UInt16.toNat_ofNat_of_lt' hlt
  unfold replaced
  induction cs using scalars.induct with
  | case1 => rfl
  | case2 c hc => simp [utf16le, scalars, hc, hunit, hself]
  | case3 c hc => simp [utf16le, scalars, hc, ofScalar_toNat]
  | case4 c d cs hpair ih =>
      rw [utf16le, scalars, if_pos hpair, if_pos hpair, ih, List.flatMap_cons,
        ofScalar_ofPair hpair]
      simp
  | case5 c d cs hpair hc ih =>
      rw [utf16le, scalars, if_neg hpair, if_neg hpair, if_pos hc, if_pos hc, ih,
        List.flatMap_cons, hunit]
      simp [hself]
  | case6 c d cs hpair hc ih =>
      rw [utf16le, scalars, if_neg hpair, if_neg hpair, if_neg hc, if_neg hc, ih,
        List.flatMap_cons, ofScalar_toNat]
      simp

theorem isUnicode_replaced {r : Nat} (hr : isScalar r = true) (cs : List UInt16) :
    isUnicode (replaced r cs) = true :=
  isUnicode_flatMap_ofScalar (isScalar_of_mem_scalars hr)

end Utf16

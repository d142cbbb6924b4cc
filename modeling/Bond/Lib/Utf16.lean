import Bond.Lib.Varint

set_option autoImplicit false

/-! # Strings of UTF-16 code units

A string of a managed runtime is any sequence of UTF-16 code units: a surrogate may stand in it
without the one that it makes a pair with. An encoder puts `replacement` in its place. -/

namespace Utf16

def isHighSurrogate (c : UInt16) : Bool :=
  0xD800 ≤ c && c ≤ 0xDBFF

def isLowSurrogate (c : UInt16) : Bool :=
  0xDC00 ≤ c && c ≤ 0xDFFF

/-- The scalar value of a surrogate pair. -/
def ofPair (high low : UInt16) : Nat :=
  0x10000 + (high.toNat - 0xD800) * 0x400 + (low.toNat - 0xDC00)

/-- The UTF-8 bytes of a scalar value. -/
def utf8Scalar (n : Nat) : List UInt8 :=
  if n < 0x80 then [UInt8.ofNat n]
  else if n < 0x800 then [UInt8.ofNat (0xC0 + n / 0x40), UInt8.ofNat (0x80 + n % 0x40)]
  else if n < 0x10000 then
    [UInt8.ofNat (0xE0 + n / 0x1000), UInt8.ofNat (0x80 + n / 0x40 % 0x40),
      UInt8.ofNat (0x80 + n % 0x40)]
  else
    [UInt8.ofNat (0xF0 + n / 0x40000), UInt8.ofNat (0x80 + n / 0x1000 % 0x40),
      UInt8.ofNat (0x80 + n / 0x40 % 0x40), UInt8.ofNat (0x80 + n % 0x40)]

/-- The UTF-8 bytes of a string. -/
def utf8 (replacement : List UInt8) : List UInt16 → List UInt8
  | [] => []
  | [c] =>
      if isHighSurrogate c || isLowSurrogate c then replacement else utf8Scalar c.toNat
  | c :: d :: cs =>
      if isHighSurrogate c && isLowSurrogate d then
        utf8Scalar (ofPair c d) ++ utf8 replacement cs
      else if isHighSurrogate c || isLowSurrogate c then
        replacement ++ utf8 replacement (d :: cs)
      else
        utf8Scalar c.toNat ++ utf8 replacement (d :: cs)

/-- The UTF-16LE bytes of a string. -/
def utf16le (replacement : List UInt8) : List UInt16 → List UInt8
  | [] => []
  | [c] =>
      if isHighSurrogate c || isLowSurrogate c then replacement
      else Varint.littleEndian 2 c.toNat
  | c :: d :: cs =>
      if isHighSurrogate c && isLowSurrogate d then
        Varint.littleEndian 2 c.toNat ++ Varint.littleEndian 2 d.toNat ++ utf16le replacement cs
      else if isHighSurrogate c || isLowSurrogate c then
        replacement ++ utf16le replacement (d :: cs)
      else
        Varint.littleEndian 2 c.toNat ++ utf16le replacement (d :: cs)

theorem utf8Scalar_length_pos (n : Nat) : 0 < (utf8Scalar n).length := by
  unfold utf8Scalar
  split_ifs <;> simp

theorem utf8Scalar_pair_length (high low : UInt16) : 2 ≤ (utf8Scalar (ofPair high low)).length := by
  have hlow : ¬ ofPair high low < 0x80 := by
    unfold ofPair
    omega
  unfold utf8Scalar
  rw [if_neg hlow]
  split_ifs <;> simp

/-- A code unit takes one byte or more. -/
theorem length_le_utf8_length {replacement : List UInt8} (h : 0 < replacement.length)
    (cs : List UInt16) : cs.length ≤ (utf8 replacement cs).length := by
  induction cs using utf8.induct with
  | case1 => exact Nat.le_refl 0
  | case2 c hc =>
      rw [utf8, if_pos hc]
      exact h
  | case3 c hc =>
      rw [utf8, if_neg hc]
      exact utf8Scalar_length_pos _
  | case4 c d cs hpair ih =>
      have hlen := utf8Scalar_pair_length c d
      rw [utf8, if_pos hpair, List.length_append, List.length_cons, List.length_cons]
      omega
  | case5 c d cs hpair hc ih =>
      rw [utf8, if_neg hpair, if_pos hc, List.length_append, List.length_cons]
      omega
  | case6 c d cs hpair hc ih =>
      have hlen := utf8Scalar_length_pos c.toNat
      rw [utf8, if_neg hpair, if_neg hc, List.length_append, List.length_cons]
      omega

/-- A code unit takes two bytes. -/
theorem utf16le_length {replacement : List UInt8} (h : replacement.length = 2) (cs : List UInt16) :
    (utf16le replacement cs).length = 2 * cs.length := by
  induction cs using utf16le.induct with
  | case1 => rfl
  | case2 c hc =>
      rw [utf16le, if_pos hc, h]
      rfl
  | case3 c hc =>
      rw [utf16le, if_neg hc, Varint.littleEndian_length]
      rfl
  | case4 c d cs hpair ih =>
      simp only [utf16le, if_pos hpair, List.length_append, Varint.littleEndian_length,
        List.length_cons, ih]
      omega
  | case5 c d cs hpair hc ih =>
      simp only [utf16le, if_neg hpair, if_pos hc, List.length_append, List.length_cons, ih, h]
      omega
  | case6 c d cs hpair hc ih =>
      simp only [utf16le, if_neg hpair, if_neg hc, List.length_append, List.length_cons, ih,
        Varint.littleEndian_length]
      omega

example : utf8 [0xEF, 0xBF, 0xBD] [0x41, 0xD83D, 0xDE00, 0xD800]
    = [0x41, 0xF0, 0x9F, 0x98, 0x80, 0xEF, 0xBF, 0xBD] := by decide

end Utf16

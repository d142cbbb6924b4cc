import Bond.Java.StreamReader
import Bond.Cpp.VarintPaths

set_option autoImplicit false

/-! # The variable-length integers of Java and C++

`VarUIntHelper` (java/core/src/main/java/org/bondlib) against `GenericWriteVariableUnsigned` and
`GenericReadVariableUnsigned` (cpp/inc/bond/protocol/encoding.h). Both write the same bytes. A
reader is also given bytes that no writer emits: digits of zero may follow the last one that is
needed, up to the number of bytes that the width may take. -/

namespace Bond.Java.VarUIntHelper

open Bond.Cpp (VarWidth)
open Bond.Cpp.InputBuffer (Continued)
open Bond.Lib Bond.Managed BinaryStreamReader
open Decoder Varint

/-! ## The widths -/

/-- The Java type that holds the unsigned integers of a width. -/
abbrev Signed : VarWidth → Type
  | .w16 => Int16
  | .w32 => Int32
  | .w64 => Int64

/-- An integer, taken for what it is when unsigned. -/
def asUnsigned : (w : VarWidth) → Signed w → Nat
  | .w16, v => v.toUInt16.toNat
  | .w32, v => v.toUInt32.toNat
  | .w64, v => v.toUInt64.toNat

/-- The Java integer of these bits. -/
def ofUnsigned : (w : VarWidth) → Nat → Signed w
  | .w16, n => Int16.ofNat n
  | .w32, n => Int32.ofNat n
  | .w64, n => Int64.ofNat n

/-- `encodeVarUInt16`, `encodeVarUInt32` and `encodeVarUInt64` -/
def encode : (w : VarWidth) → Signed w → List UInt8
  | .w16 => encodeVarUInt16
  | .w32 => encodeVarUInt32
  | .w64 => encodeVarUInt64

/-- `decodeVarUInt16`, `decodeVarUInt32` and `decodeVarUInt64` -/
def decode : (w : VarWidth) → Reader (Signed w)
  | .w16 => decodeVarUInt16
  | .w32 => decodeVarUInt32
  | .w64 => decodeVarUInt64

/-- `getVarUInt16Length`, `getVarUInt32Length` and `getVarUInt64Length` -/
def getLength : (w : VarWidth) → Signed w → Nat
  | .w16 => getVarUInt16Length
  | .w32 => getVarUInt32Length
  | .w64 => getVarUInt64Length

/-- The bytes that an integer may take. -/
def maxBytes : VarWidth → Nat
  | .w16 => 3
  | .w32 => 5
  | .w64 => 10

theorem asUnsigned_ofUnsigned (w : VarWidth) (n : Nat) :
    asUnsigned w (ofUnsigned w n) = n % 2 ^ w.bits := by
  cases w with
  | w16 => exact UInt16.toNat_ofNat'
  | w32 => exact UInt32.toNat_ofNat'
  | w64 => exact UInt64.toNat_ofNat'

theorem decodes_decode (w : VarWidth) (v : Signed w) :
    Decodes (decode w) (encode w v) (pure v) := by
  cases w with
  | w16 => exact decodes_decodeVarUInt16 v
  | w32 => exact decodes_decodeVarUInt32 v
  | w64 => exact decodes_decodeVarUInt64 v

theorem encode_eq (w : VarWidth) (v : Signed w) :
    encode w v = Cpp.genericWriteVariableUnsigned (asUnsigned w v) := by
  rw [Cpp.genericWriteVariableUnsigned_eq]
  cases w with
  | w16 => exact encodeVarUInt16_eq v
  | w32 => exact encodeVarUInt32_eq v
  | w64 => exact encodeVarUInt64_eq v

theorem getLength_eq (w : VarWidth) (v : Signed w) : getLength w v = (encode w v).length := by
  cases w with
  | w16 => exact getVarUInt16Length_eq v
  | w32 => exact getVarUInt32Length_eq v
  | w64 => exact getVarUInt64Length_eq v

/-! ## Any bytes -/

/-- A digit in front of digits, in the place of the number they denote. -/
theorem digit_or_shiftLeft (b : UInt8) (n shift : Nat) :
    ((b.toNat % 128) <<< shift) ||| (n <<< (shift + 7))
      = (b.toNat % 128 + 128 * n) <<< shift := by
  have hlow : (b.toNat % 128 + 128 * n) % 128 = b.toNat % 128 := by omega
  have hhigh : (b.toNat % 128 + 128 * n) / 128 = n := by omega
  have hdigits := or_shiftLeft_digits (b.toNat % 128 + 128 * n) shift
  rwa [hlow, hhigh] at hdigits

/-- The decoder adds up the digits, and takes its last byte as a whole. -/
theorem decodes_decodeVarUInt_continued {cont : List UInt8} {last : UInt8} {masked : Nat}
    (shift : Nat) (hcont : ∀ byte ∈ cont, byte ≥ 0x80)
    (h : cont.length = masked ∨ cont.length < masked ∧ ¬ last ≥ 0x80) :
    Decodes (decodeVarUInt masked shift) (cont ++ [last])
      (pure ((ofVarint cont + last.toNat * 2 ^ (7 * cont.length)) <<< shift, last)) := by
  induction cont generalizing masked shift with
  | nil =>
      rw [List.length_nil] at h
      rw [List.nil_append, ofVarint, Nat.zero_add, List.length_nil, Nat.mul_zero, Nat.pow_zero,
        Nat.mul_one]
      cases masked with
      | zero => exact (decodes_readInt8 last).bind_return fun raw => (raw.toNat <<< shift, raw)
      | succ masked =>
          rw [decodeVarUInt, ← List.append_nil [last]]
          refine (decodes_readInt8 last).bind_pure ?_
          have hlast : ¬ 0x80 ≤ last := by simpa using h
          rw [if_neg hlast]
          exact Decodes.pure _
  | cons byte cont ih =>
      obtain ⟨hbyte, hcont⟩ := List.forall_mem_cons.1 hcont
      rw [List.length_cons] at h
      obtain ⟨masked, rfl⟩ : ∃ k, masked = k + 1 := Nat.exists_eq_succ_of_ne_zero (by omega)
      have hrest := ih (shift + 7) hcont
        (h.imp Nat.succ.inj fun hlast => ⟨Nat.lt_of_succ_lt_succ hlast.1, hlast.2⟩)
      have hnumber : ofVarint (byte :: cont) + last.toNat * 2 ^ (7 * (byte :: cont).length)
          = byte.toNat % 128 + 128 * (ofVarint cont + last.toNat * 2 ^ (7 * cont.length)) := by
        rw [ofVarint, List.length_cons, Nat.mul_succ, Nat.pow_add]
        ring
      rw [decodeVarUInt, List.cons_append, ← List.singleton_append]
      refine (decodes_readInt8 byte).bind_pure ?_
      rw [if_pos hbyte, Cpp.InputBuffer.and_low]
      have hdigit := hrest.bind_return fun result =>
        (((byte.toNat % 128) <<< shift) ||| result.1, result.2)
      rwa [digit_or_shiftLeft, ← hnumber] at hdigit

theorem ofVarint_append_last {cont : List UInt8} {last : UInt8} (hlast : ¬ last ≥ 0x80) :
    ofVarint (cont ++ [last]) = ofVarint cont + last.toNat * 2 ^ (7 * cont.length) := by
  rw [ge_iff_le, UInt8.le_iff_toNat_le] at hlast
  have hdigit : last.toNat % 128 = last.toNat := Nat.mod_eq_of_lt (Nat.lt_of_not_le hlast)
  rw [ofVarint_append]
  simp [ofVarint, hdigit]

/-- Within the bytes of which it takes all bits, the decoder stops at the last one. -/
theorem decodes_decodeVarUInt_last {cont : List UInt8} {last : UInt8} {masked : Nat}
    (hcont : Continued cont last) (h : cont.length ≤ masked) :
    Decodes (decodeVarUInt masked 0) (cont ++ [last]) (pure (ofVarint (cont ++ [last]), last)) := by
  obtain ⟨hmore, hlast⟩ := hcont
  have hread := decodes_decodeVarUInt_continued 0 hmore
    ((Nat.eq_or_lt_of_le h).imp_right fun hlt => ⟨hlt, hlast⟩)
  rwa [Nat.shiftLeft_zero, ← ofVarint_append_last hlast] at hread

/-- The tenth byte of a 64-bit integer says that the highest bit is not set. -/
def TenthIsEven (w : VarWidth) (cont : List UInt8) (last : UInt8) : Prop :=
  w = .w64 ∧ cont.length = 9 ∧ last.toNat % 2 = 0

instance (w : VarWidth) (cont : List UInt8) (last : UInt8) : Decidable (TenthIsEven w cont last) :=
  inferInstanceAs (Decidable (_ ∧ _ ∧ _))

/-- In front of a tenth byte, the high bit of the ninth one is taken for the highest bit of the
    integer. -/
theorem decodes_decodeVarUInt64_tenth {cont : List UInt8} {last : UInt8}
    (hcont : Continued cont last) (h : cont.length = 9) :
    Decodes decodeVarUInt64 (cont ++ [last]) (pure (Int64.ofNat (ofVarint cont + 2 ^ 63))) := by
  obtain ⟨front, ninth, rfl⟩ : ∃ front ninth, cont = front ++ [ninth] :=
    ⟨_, _, (List.dropLast_append_getLast (List.ne_nil_of_length_eq_add_one h)).symm⟩
  have hfront : front.length = 8 := by simpa using h
  have hninth : ninth ≥ 0x80 := hcont.1 ninth (by simp)
  have hread : Decodes (decodeVarUInt 8 0) (front ++ [ninth]) _ :=
    decodes_decodeVarUInt_continued 0
      (fun byte hbyte => hcont.1 byte (List.mem_append_left _ hbyte)) (Or.inl hfront)
  have hnumber : ofVarint front + ninth.toNat * 2 ^ (7 * front.length)
      = ofVarint (front ++ [ninth]) + 2 ^ 63 := by
    rw [ge_iff_le, UInt8.le_iff_toNat_le] at hninth
    change 128 ≤ ninth.toNat at hninth
    have hbyte := ninth.toNat_lt
    rw [ofVarint_append, hfront]
    simp only [ofVarint]
    omega
  rw [Nat.shiftLeft_zero, hnumber] at hread
  rw [decodeVarUInt64]
  refine hread.bind_pure ?_
  dsimp only
  rw [if_pos hninth]
  exact (decodes_readInt8 last).bind_return fun _ => Int64.ofNat _

/-- On bytes that end within the width, the Java decoder returns what the bytes denote, but for the
    highest bit of an integer of ten bytes, which it does not take from the tenth. -/
theorem decodes_decode_continued (w : VarWidth) {cont : List UInt8} {last : UInt8}
    (hcont : Continued cont last) (h : cont.length < maxBytes w) :
    ∃ v, Decodes (decode w) (cont ++ [last]) (pure v) ∧
      asUnsigned w v = if TenthIsEven w cont last
        then ofVarint (cont ++ [last]) % 2 ^ w.bits + 2 ^ 63
        else ofVarint (cont ++ [last]) % 2 ^ w.bits := by
  by_cases htenth : w = .w64 ∧ cont.length = 9
  · obtain ⟨rfl, hlength⟩ := htenth
    refine ⟨_, decodes_decodeVarUInt64_tenth hcont hlength, ?_⟩
    have hsmall := ofVarint_lt cont
    have hvalue := asUnsigned_ofUnsigned .w64 (ofVarint cont + 2 ^ 63)
    rw [hlength] at hsmall
    rw [show asUnsigned .w64 (Int64.ofNat _) = _ from hvalue, ofVarint_append_last hcont.2, hlength]
    show (ofVarint cont + 2 ^ 63) % 2 ^ 64 = if TenthIsEven .w64 cont last
      then (ofVarint cont + last.toNat * 2 ^ 63) % 2 ^ 64 + 2 ^ 63
      else (ofVarint cont + last.toNat * 2 ^ 63) % 2 ^ 64
    split
    · next heven =>
        have hlow := heven.2.2
        omega
    · next hodd =>
        have hlow : last.toNat % 2 = 1 := by
          have := mt (fun hlow => (⟨rfl, hlength, hlow⟩ : TenthIsEven .w64 cont last)) hodd
          omega
        omega
  · rw [if_neg fun heven => htenth ⟨heven.1, heven.2.1⟩, ← asUnsigned_ofUnsigned]
    refine ⟨_, ?_, rfl⟩
    cases w with
    | w16 =>
        have hread := decodes_decodeVarUInt_last hcont (Nat.le_of_lt_succ h)
        exact hread.bind_return fun result => Int16.ofNat result.1
    | w32 =>
        have hread := decodes_decodeVarUInt_last hcont (Nat.le_of_lt_succ h)
        exact hread.bind_return fun result => Int32.ofNat result.1
    | w64 =>
        have hle : cont.length ≤ 8 := by
          have hlt : cont.length < 10 := h
          have hne : cont.length ≠ 9 := fun heq => htenth ⟨rfl, heq⟩
          omega
        have hread : Decodes decodeVarUInt64 (cont ++ [last] ++ [])
            (pure (Int64.ofNat (ofVarint (cont ++ [last])))) := by
          refine (decodes_decodeVarUInt_last hcont hle).bind_pure ?_
          dsimp only
          rw [if_neg hcont.2]
          exact Decodes.pure _
        rwa [List.append_nil] at hread

/-! ## Both languages -/

/-- What the Java writer writes, its reader reads back; the C++ writer writes the same, and the
    length is known before. On all bytes that end within the width the readers return the same
    integer, but for the highest bit of one whose tenth byte does not set it. -/
theorem decode_agrees (w : VarWidth) :
    (∀ v : Signed w, Decodes (decode w) (encode w v) (pure v) ∧
      encode w v = Cpp.genericWriteVariableUnsigned (asUnsigned w v) ∧
      getLength w v = (encode w v).length) ∧
    ∀ (cont : List UInt8) (last : UInt8) (rest : List UInt8) (b : Cpp.InputBuffer),
      Continued cont last → cont.length < maxBytes w → b.remaining = cont ++ last :: rest →
      ∃ v n, decode w (cont ++ last :: rest) = .ok (v, rest) ∧
        Cpp.InputBuffer.genericReadVariableUnsigned w b
          = .ok (n, b.advance (cont.length + 1)) ∧
        asUnsigned w v = if TenthIsEven w cont last then n + 2 ^ 63 else n := by
  refine ⟨fun v => ⟨decodes_decode w v, encode_eq w v, getLength_eq w v⟩, ?_⟩
  intro cont last rest b hcont h hb
  obtain ⟨v, hread, hvalue⟩ := decodes_decode_continued w hcont h
  have hbytes : b.remaining = (cont ++ [last]) ++ rest := by
    rw [hb, List.append_assoc, List.singleton_append]
  have hjava := hread.list_run rest
  have hcpp := Cpp.InputBuffer.decodes_genericReadVariableUnsigned_continued w hcont b rest hbytes
  rw [List.append_assoc, List.singleton_append] at hjava
  rw [List.length_append, List.length_singleton] at hcpp
  exact ⟨v, _, hjava, hcpp, hvalue⟩

/-- A byte of zero behind a digit of zero. -/
theorem decode_agrees_overlong :
    ∃ v n, decode .w32 ([0x85] ++ 0x00 :: [7]) = .ok (v, [7]) ∧
      Cpp.InputBuffer.genericReadVariableUnsigned .w32 (.ofBlob [0x85, 0x00, 7] (by decide))
        = .ok (n, (Cpp.InputBuffer.ofBlob [0x85, 0x00, 7] (by decide)).advance 2) ∧
      asUnsigned .w32 v = if TenthIsEven .w32 [0x85] 0x00 then n + 2 ^ 63 else n :=
  (decode_agrees .w32).2 [0x85] 0x00 [7] (.ofBlob [0x85, 0x00, 7] (by decide))
    ⟨by decide +kernel, by decide⟩ (by decide) rfl

/-- Nine digits of zero and a tenth: the high bit of the ninth byte becomes the highest bit of the
    integer. -/
theorem decode_differs :
    ¬ ∀ (w : VarWidth) (cont : List UInt8) (last : UInt8) (rest : List UInt8)
      (b : Cpp.InputBuffer), Continued cont last → cont.length < maxBytes w →
      b.remaining = cont ++ last :: rest →
      ∃ v, decode w (cont ++ last :: rest) = .ok (v, rest) ∧
        Cpp.InputBuffer.genericReadVariableUnsigned w b
          = .ok (asUnsigned w v, b.advance (cont.length + 1)) := by
  intro h
  obtain ⟨v, hjava, hcpp⟩ := h .w64 (List.replicate 9 0x80) 0 []
    (.ofBlob (List.replicate 9 0x80 ++ [0]) (by decide)) ⟨by decide +kernel, by decide⟩
    (by decide) rfl
  have hread : decode .w64 (List.replicate 9 0x80 ++ [0])
      = .ok (Int64.ofNat (2 ^ 63), []) := by decide +kernel
  have hgeneric : Cpp.InputBuffer.genericReadVariableUnsigned .w64
        (.ofBlob (List.replicate 9 0x80 ++ [0]) (by decide))
      = .ok (0, .advance (.ofBlob (List.replicate 9 0x80 ++ [0]) (by decide)) 10) := by
    rfl
  rw [hread] at hjava
  obtain ⟨rfl, -⟩ := Prod.mk.inj (Except.ok.inj hjava)
  rw [hgeneric] at hcpp
  have hvalue := (Prod.mk.inj (Except.ok.inj hcpp)).1
  exact absurd hvalue (by decide)

end Bond.Java.VarUIntHelper

import Mathlib.Data.Nat.Basic
import Mathlib.Tactic.ByContra

set_option autoImplicit false

/-! # Bitmaps of machine words

Bit `i` of a list of words of width `w` is bit `i % w` of word `i / w`. -/

namespace Bitmap

variable {w : Nat}

/-- Bit `i`, which is not set behind the last word. -/
def get (words : List (BitVec w)) (i : Nat) : Bool :=
  match words[i / w]? with
  | some word => word.getLsbD (i % w)
  | none => false

/-- `length` words, with the first `count` bits set. -/
def ones : Nat → Nat → List (BitVec w)
  | 0, _ => []
  | length + 1, count =>
      if w ≤ count then BitVec.allOnes w :: ones length (count - w)
      else ((1#w <<< count) - 1#w) :: ones length 0

/-- Clear the bits of a mask in a word. -/
def reset (words : List (BitVec w)) (index : Nat) (mask : BitVec w) : List (BitVec w) :=
  words.modify index fun word => word &&& ~~~mask

section

variable (hw : 0 < w)

include hw

end

end Bitmap

import Bond.Lib.Interrupted
import Bond.Managed.WriterCalls

set_option autoImplicit false

/-! # Two passes that an exception cuts short

The first pass over an object appends a length for each struct that begins, and the second takes the
first length there is for each struct that begins. An exception leaves lengths behind, unless it
comes before the first struct of the first pass or past the last one of the second. -/

namespace Bond.Managed

open Bond.Lib
open Bond.Lib.Interrupted (Interruption)

/-- Whether two passes over an object leave no length behind. -/
def leavesNoLengths (order : BaseOrder) (obj : StructValue) : Option Interruption → Prop
  | none => True
  | some i =>
      let calls := obj.calls order
      i.calls = 0 ∨ (calls.length ≤ i.calls ∧ WriterCall.writeStructBegin ∉
        calls.drop (i.calls - calls.length + if i.within.isSome then 1 else 0))

theorem begins_eq_zero {calls : List WriterCall} :
    TwoPass.begins WriterCall.kind calls = 0 ↔ WriterCall.writeStructBegin ∉ calls := by
  rw [TwoPass.begins, List.countP_eq_zero]
  constructor
  · intro h hmem
    simpa [WriterCall.kind] using h _ hmem
  · intro h call hcall
    cases call with
    | writeStructBegin => exact absurd hcall h
    | _ => simp [WriterCall.kind]

theorem begins_take_le (calls : List WriterCall) (m : Nat) :
    TwoPass.begins WriterCall.kind (calls.take m) ≤ TwoPass.begins WriterCall.kind calls :=
  (List.take_sublist m calls).countP_le

/-- An object begins with a struct. -/
theorem begins_take_eq_zero {order : BaseOrder} {obj : StructValue} {k : Nat} :
    TwoPass.begins WriterCall.kind ((obj.calls order).take k) = 0 ↔ k = 0 := by
  rw [begins_eq_zero]
  constructor
  · intro h
    by_contra hk
    obtain ⟨k, rfl⟩ := Nat.exists_eq_succ_of_ne_zero hk
    exact h (by simp [StructValue.calls])
  · rintro rfl
    simp

/-- The lengths that are left, where there is one for each struct of `calls` and `extra` more. -/
theorem drop_begins_eq_nil {ℓ : Type} {lengths : List ℓ} {calls : List WriterCall} {extra : Nat}
    (h : lengths.length = extra + TwoPass.begins WriterCall.kind calls) (m : Nat) :
    lengths.drop (TwoPass.begins WriterCall.kind (calls.take m)) = []
      ↔ extra = 0 ∧ WriterCall.writeStructBegin ∉ calls.drop m := by
  have hsplit := TwoPass.begins_append WriterCall.kind (calls.take m) (calls.drop m)
  rw [List.take_append_drop] at hsplit
  rw [List.drop_eq_nil_iff, h, ← begins_eq_zero]
  omega

end Bond.Managed

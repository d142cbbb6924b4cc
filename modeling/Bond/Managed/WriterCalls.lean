import Bond.Managed.Types
import Bond.Lib.TwoPass

set_option autoImplicit false

/-! # Calls on a C# or Java protocol writer

`SerializerTransform` (cs/src/core/expressions/SerializerTransform.cs) and the `serializeValue` of
the Java `BondType`s drive a protocol writer by calling its methods. A `WriterCall` is one of these
calls; `calls` is what the traversal of a value makes on a writer of a tagged protocol. -/

namespace Bond.Managed

open Bond.Cpp (BondDataType)
open Bond.Lib

/-- One call on a protocol writer. Calls that write nothing in any binary protocol
    (`WriteFieldOmitted`, `WriteFieldEnd`, `WriteContainerEnd`) are left out. -/
inductive WriterCall where
  | writeStructBegin
  | writeStructEnd
  | writeBaseBegin
  | writeBaseEnd
  | writeFieldBegin (type : BondDataType) (id : UInt16)
  | writeContainerBegin (count : Int32) (elementType : BondDataType)
  | writeMapBegin (count : Int32) (keyType valueType : BondDataType)
  | writeBytes (data : List UInt8)
  | write (value : BasicValue)
deriving DecidableEq, Repr

/-- What a call is to the structs that have a length; bases have none. -/
def WriterCall.kind : WriterCall → TwoPass.Kind
  | .writeStructBegin => .begins
  | .writeStructEnd => .ends
  | _ => .inside

/-- In which order the two languages come to the base of a base: C# within the calls for the base,
    Java before them. -/
inductive BaseOrder where
  | within | before
deriving DecidableEq, Repr

/-- The calls for a base, from those for its own base and for its fields. -/
def BaseOrder.baseCalls (order : BaseOrder) (base fields : List WriterCall) : List WriterCall :=
  match order with
  | .within => [.writeBaseBegin] ++ base ++ fields ++ [.writeBaseEnd]
  | .before => base ++ [.writeBaseBegin] ++ fields ++ [.writeBaseEnd]

mutual

/-- The calls for a value. -/
def Value.calls (order : BaseOrder) : Value → List WriterCall
  | .basic v => [.write v]
  | .list _ element items =>
      .writeContainerBegin (Int32.ofNat items.length) element :: itemsCalls order items
  | .blob element data =>
      [.writeContainerBegin (Int32.ofNat data.length) element, .writeBytes data]
  | .map key element items =>
      .writeMapBegin (Int32.ofNat items.length) key element :: pairsCalls order items
  | .struct s => .writeStructBegin :: (s.bodyCalls order ++ [.writeStructEnd])
  | .bonded s => .writeStructBegin :: (s.bodyCalls order ++ [.writeStructEnd])

def itemsCalls (order : BaseOrder) : List Value → List WriterCall
  | [] => []
  | v :: vs => v.calls order ++ itemsCalls order vs

def pairsCalls (order : BaseOrder) : List (Value × Value) → List WriterCall
  | [] => []
  | (k, v) :: kvs => (k.calls order ++ v.calls order) ++ pairsCalls order kvs

def fieldsCalls (order : BaseOrder) : List (UInt16 × Value) → List WriterCall
  | [] => []
  | (id, v) :: fs => (.writeFieldBegin v.typeId id :: v.calls order) ++ fieldsCalls order fs

/-- The calls for a struct as a base. -/
def StructValue.baseCalls (order : BaseOrder) : StructValue → List WriterCall
  | .root fields => order.baseCalls [] (fieldsCalls order fields)
  | .derived base fields => order.baseCalls (base.baseCalls order) (fieldsCalls order fields)

/-- The calls between the begin and the end of a struct: its base and its fields. -/
def StructValue.bodyCalls (order : BaseOrder) : StructValue → List WriterCall
  | .root fields => fieldsCalls order fields
  | .derived base fields => base.baseCalls order ++ fieldsCalls order fields

end

/-- The calls for a struct that is not a base. -/
def StructValue.calls (order : BaseOrder) (s : StructValue) : List WriterCall :=
  .writeStructBegin :: (s.bodyCalls order ++ [.writeStructEnd])

theorem itemsCalls_eq (order : BaseOrder) (vs : List Value) :
    itemsCalls order vs = vs.flatMap (Value.calls order) := by
  induction vs with
  | nil => rfl
  | cons v vs ih => rw [itemsCalls, ih, List.flatMap_cons]

/-! ## What holds of all calls -/

section

variable {order : BaseOrder} {P : WriterCall → Prop}

/-- What holds of the calls for the fields, and of the begin and the end of a base, holds of all
    calls between the begin and the end of a struct. -/
theorem StructValue.forall_bodyCalls {s : StructValue} (hbegin : P .writeBaseBegin)
    (hend : P .writeBaseEnd)
    (h : ∀ fs ∈ s.levels, ∀ f ∈ fs, P (.writeFieldBegin f.2.typeId f.1) ∧
      ∀ c ∈ f.2.calls order, P c) : ∀ c ∈ s.bodyCalls order, P c := by
  have hfields (fs : Fields) (hfs : fs ∈ s.levels) : ∀ c ∈ fieldsCalls order fs, P c := by
    have hlevel := h fs hfs
    clear hfs
    induction fs with
    | nil => intro c hc; simp [fieldsCalls] at hc
    | cons f fs ih =>
        intro c hc
        rw [fieldsCalls, List.mem_append, List.mem_cons] at hc
        rcases hc with (rfl | hc) | hc
        · exact (hlevel f List.mem_cons_self).1
        · exact (hlevel f List.mem_cons_self).2 c hc
        · exact ih (fun g hg => hlevel g (List.mem_cons_of_mem f hg)) c hc
  have horder {base fields : List WriterCall} (hbase : ∀ c ∈ base, P c)
      (hown : ∀ c ∈ fields, P c) : ∀ c ∈ order.baseCalls base fields, P c := by
    intro c hc
    cases order with
    | within =>
        simp only [BaseOrder.baseCalls, List.mem_append, List.mem_singleton] at hc
        rcases hc with ((rfl | hc) | hc) | rfl
        · exact hbegin
        · exact hbase c hc
        · exact hown c hc
        · exact hend
    | before =>
        simp only [BaseOrder.baseCalls, List.mem_append, List.mem_singleton] at hc
        rcases hc with ((hc | rfl) | hc) | rfl
        · exact hbase c hc
        · exact hbegin
        · exact hown c hc
        · exact hend
  have hbase (base : StructValue) (hlevels : ∀ fs ∈ base.levels, fs ∈ s.levels) :
      ∀ c ∈ base.baseCalls order, P c := by
    induction base with
    | root fields =>
        exact horder (by simp) (hfields fields (hlevels fields (by simp [levels])))
    | derived base fields ih =>
        exact horder (ih fun fs hfs => hlevels fs (by simp [levels, hfs]))
          (hfields fields (hlevels fields (by simp [levels])))
  cases s with
  | root fields => exact hfields fields (by simp [levels])
  | derived base fields =>
      intro c hc
      rcases List.mem_append.1 hc with hc | hc
      · exact hbase base (fun fs hfs => by simp [levels, hfs]) c hc
      · exact hfields fields (by simp [levels]) c hc

theorem forall_itemsCalls {items : List Value} (h : ∀ v ∈ items, ∀ c ∈ v.calls order, P c) :
    ∀ c ∈ itemsCalls order items, P c := by
  intro c hc
  rw [itemsCalls_eq, List.mem_flatMap] at hc
  obtain ⟨v, hv, hc⟩ := hc
  exact h v hv c hc

theorem forall_pairsCalls {items : List (Value × Value)}
    (h : ∀ kv ∈ items, (∀ c ∈ kv.1.calls order, P c) ∧ ∀ c ∈ kv.2.calls order, P c) :
    ∀ c ∈ pairsCalls order items, P c := by
  induction items with
  | nil => intro c hc; simp [pairsCalls] at hc
  | cons kv kvs ih =>
      intro c hc
      rw [pairsCalls, List.mem_append, List.mem_append] at hc
      rcases hc with (hc | hc) | hc
      · exact (h kv List.mem_cons_self).1 c hc
      · exact (h kv List.mem_cons_self).2 c hc
      · exact ih (fun w hw => h w (List.mem_cons_of_mem kv hw)) c hc

end

/-! ## Well-formed calls -/

/-- A call with a string that is as long as a string can be. -/
def WriterCall.wellFormed (utf8 : List UInt16 → List UInt8) : WriterCall → Bool
  | .write value => value.wellFormed utf8
  | _ => true

section

variable {utf8 : List UInt16 → List UInt8} {order : BaseOrder}

/-- The calls for a well-formed value are well formed. -/
theorem Value.calls_wellFormed (order : BaseOrder) : ∀ v : Value, v.wellFormed utf8 = true →
    ∀ c ∈ v.calls order, c.wellFormed utf8 = true := by
  have hstruct (s : StructValue) (ih : ∀ fs ∈ s.levels, ∀ f ∈ fs, f.2.wellFormed utf8 = true →
      ∀ c ∈ f.2.calls order, c.wellFormed utf8 = true) (hs : s.wellFormed utf8 = true) :
      ∀ c ∈ s.calls order, c.wellFormed utf8 = true := by
    have hbody := s.forall_bodyCalls (P := fun c => c.wellFormed utf8 = true) rfl rfl
      fun fs hfs f hf => ⟨rfl, ih fs hfs f hf (StructValue.wellFormed_iff.1 hs fs hfs f hf)⟩
    intro c hc
    rw [StructValue.calls, List.mem_cons, List.mem_append, List.mem_singleton] at hc
    rcases hc with rfl | hc | rfl
    · rfl
    · exact hbody c hc
    · rfl
  refine value_induct ?_ ?_ ?_ ?_ ?_ ?_
  · intro v hv c hc
    rw [calls, List.mem_singleton] at hc
    subst hc
    exact hv
  · intro kind element items ih hv c hc
    simp only [wellFormed, Bool.and_eq_true, wellFormedItems_iff] at hv
    rcases List.mem_cons.1 hc with rfl | hc
    · rfl
    · exact forall_itemsCalls (fun v hmem => ih v hmem (hv.2 v hmem).2) c hc
  · intro element data _ c hc
    simp only [calls, List.mem_cons, List.not_mem_nil, or_false] at hc
    rcases hc with rfl | rfl <;> rfl
  · intro key element items ih hv c hc
    simp only [wellFormed, Bool.and_eq_true, wellFormedPairs_iff] at hv
    rcases List.mem_cons.1 hc with rfl | hc
    · rfl
    · exact forall_pairsCalls (fun kv hmem => ⟨(ih kv hmem).1 (hv.2 kv hmem).1.2,
        (ih kv hmem).2 (hv.2 kv hmem).2.2⟩) c hc
  · intro s ih hs
    exact hstruct s ih hs
  · intro s ih hs
    exact hstruct s ih hs

end

end Bond.Managed

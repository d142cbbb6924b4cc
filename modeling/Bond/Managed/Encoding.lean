import Bond.Managed.WriterCalls

set_option autoImplicit false

/-! # What a writer makes of a value

The calls for a value, seen from the two passes of a writer: what the first pass counts for the
value, and what the second writes. A writer that makes one pass only has no lengths to write. -/

namespace Bond.Managed

open Bond.Cpp (BondDataType)
open Bond.Lib

variable {ℓ : Type}

section

variable [AddMonoid ℓ] (F : TwoPass.Format WriterCall ℓ)

/-- The length of a struct, from the count of what is between its begin and its end. -/
def structLength (count : ℓ) : ℓ :=
  count + F.count .writeStructEnd

mutual

/-- What the first pass counts for a value. -/
def Value.count : Value → ℓ
  | .basic v => F.count (.write v)
  | .list _ element items =>
      F.count (.writeContainerBegin (Int32.ofNat items.length) element) + itemsCount items
  | .blob element data =>
      F.count (.writeContainerBegin (Int32.ofNat data.length) element) + F.count (.writeBytes data)
  | .map key element items =>
      F.count (.writeMapBegin (Int32.ofNat items.length) key element) + pairsCount items
  | .struct s =>
      F.lengthCount (structLength F s.bodyCount) + structLength F s.bodyCount
  | .bonded s =>
      F.lengthCount (structLength F s.bodyCount) + structLength F s.bodyCount

def itemsCount : List Value → ℓ
  | [] => 0
  | v :: vs => v.count + itemsCount vs

def pairsCount : List (Value × Value) → ℓ
  | [] => 0
  | (k, v) :: kvs => (k.count + v.count) + pairsCount kvs

def fieldsCount : List (UInt16 × Value) → ℓ
  | [] => 0
  | (id, v) :: fs => (F.count (.writeFieldBegin v.typeId id) + v.count) + fieldsCount fs

/-- What the first pass counts for the bases and the fields of a struct. -/
def StructValue.bodyCount : StructValue → ℓ
  | .root fields => fieldsCount fields
  | .derived base fields => base.bodyCount + F.count .writeBaseEnd + fieldsCount fields

end

/-- The length that a struct begins with. -/
def StructValue.length (s : StructValue) : ℓ :=
  structLength F (s.bodyCount F)

mutual

/-- What is written for a value. -/
def Value.encode : Value → List UInt8
  | .basic v => F.bytes (.write v)
  | .list _ element items =>
      F.bytes (.writeContainerBegin (Int32.ofNat items.length) element) ++ encodeItems items
  | .blob element data =>
      F.bytes (.writeContainerBegin (Int32.ofNat data.length) element)
        ++ F.bytes (.writeBytes data)
  | .map key element items =>
      F.bytes (.writeMapBegin (Int32.ofNat items.length) key element) ++ encodePairs items
  | .struct s => F.lengthBytes (s.length F) ++ (s.encodeBody ++ F.bytes .writeStructEnd)
  | .bonded s => F.lengthBytes (s.length F) ++ (s.encodeBody ++ F.bytes .writeStructEnd)

def encodeItems : List Value → List UInt8
  | [] => []
  | v :: vs => v.encode ++ encodeItems vs

def encodePairs : List (Value × Value) → List UInt8
  | [] => []
  | (k, v) :: kvs => (k.encode ++ v.encode) ++ encodePairs kvs

def encodeFields : List (UInt16 × Value) → List UInt8
  | [] => []
  | (id, v) :: fs => (F.bytes (.writeFieldBegin v.typeId id) ++ v.encode) ++ encodeFields fs

/-- What is written for the bases and the fields of a struct. -/
def StructValue.encodeBody : StructValue → List UInt8
  | .root fields => encodeFields fields
  | .derived base fields => base.encodeBody ++ F.bytes .writeBaseEnd ++ encodeFields fields

end

end

/-! ## What is in an encoding -/

section

variable [AddMonoid ℓ] (F : TwoPass.Format WriterCall ℓ)

theorem encodeItems_eq (vs : List Value) : encodeItems F vs = vs.flatMap (Value.encode F) := by
  induction vs with
  | nil => rfl
  | cons v vs ih => rw [encodeItems, ih, List.flatMap_cons]

theorem encodePairs_eq (kvs : List (Value × Value)) :
    encodePairs F kvs = kvs.flatMap fun kv => kv.1.encode F ++ kv.2.encode F := by
  induction kvs with
  | nil => rfl
  | cons kv kvs ih => rw [encodePairs, ih, List.flatMap_cons]

theorem encode_item_length_le {vs : List Value} {v : Value} (hv : v ∈ vs) :
    (v.encode F).length ≤ (encodeItems F vs).length := by
  rw [encodeItems_eq]
  exact (List.sublist_flatten_of_mem (List.mem_map_of_mem hv)).length_le

theorem encode_pair_length_le {kvs : List (Value × Value)} {kv : Value × Value} (hkv : kv ∈ kvs) :
    (kv.1.encode F).length + (kv.2.encode F).length ≤ (encodePairs F kvs).length := by
  rw [encodePairs_eq, ← List.length_append]
  exact (List.sublist_flatten_of_mem
    (List.mem_map_of_mem (f := fun kv => kv.1.encode F ++ kv.2.encode F) hkv)).length_le

theorem encode_field_length_le {fs : Fields} {f : UInt16 × Value} (hf : f ∈ fs) :
    (f.2.encode F).length ≤ (encodeFields F fs).length := by
  induction fs with
  | nil => cases hf
  | cons g fs ih =>
      simp only [encodeFields, List.length_append]
      rcases List.mem_cons.1 hf with rfl | hf
      · omega
      · have hle := ih hf
        omega

theorem encodeFields_length_le {s : StructValue} {fs : Fields} (hfs : fs ∈ s.levels) :
    (encodeFields F fs).length ≤ (s.encodeBody F).length := by
  induction s with
  | root fields =>
      rw [StructValue.levels, List.mem_singleton] at hfs
      rw [hfs, StructValue.encodeBody]
  | derived base fields ih =>
      rw [StructValue.levels, List.mem_append, List.mem_singleton] at hfs
      simp only [StructValue.encodeBody, List.length_append]
      rcases hfs with hfs | rfl
      · have hle := ih hfs
        omega
      · omega

end

/-! ## The calls of a value -/

/-- A writer of C# or Java: what kind of call a call is, and that a base begins without a trace. -/
structure IsWriter [AddMonoid ℓ] (F : TwoPass.Format WriterCall ℓ) : Prop where
  kind : F.kind = WriterCall.kind
  count_baseBegin : F.count .writeBaseBegin = 0
  bytes_baseBegin : F.bytes .writeBaseBegin = []

variable [AddMonoid ℓ] {F : TwoPass.Format WriterCall ℓ}

/-- The passes over `calls` count `n` and write `bytes`. -/
def CountsAs (F : TwoPass.Format WriterCall ℓ) (calls : List WriterCall) (n : ℓ)
    (bytes : List UInt8) : Prop :=
  ∃ structs, F.Counts calls n bytes structs

theorem CountsAs.append {calls calls' : List WriterCall} {n n' : ℓ} {bytes bytes' : List UInt8}
    (h : CountsAs F calls n bytes) (h' : CountsAs F calls' n' bytes') :
    CountsAs F (calls ++ calls') (n + n') (bytes ++ bytes') := by
  obtain ⟨_, h⟩ := h
  obtain ⟨_, h'⟩ := h'
  exact ⟨_, h.append h'⟩

variable {order : BaseOrder}

theorem countsAs_items {items : List Value}
    (h : ∀ v ∈ items, CountsAs F (v.calls order) (v.count F) (v.encode F)) :
    CountsAs F (itemsCalls order items) (itemsCount F items) (encodeItems F items) := by
  induction items with
  | nil => exact ⟨[], .nil⟩
  | cons v vs ih =>
      exact (h v List.mem_cons_self).append (ih fun w hw => h w (List.mem_cons_of_mem v hw))

theorem countsAs_pairs {items : List (Value × Value)}
    (h : ∀ kv ∈ items, CountsAs F (kv.1.calls order) (kv.1.count F) (kv.1.encode F) ∧
      CountsAs F (kv.2.calls order) (kv.2.count F) (kv.2.encode F)) :
    CountsAs F (pairsCalls order items) (pairsCount F items) (encodePairs F items) := by
  induction items with
  | nil => exact ⟨[], .nil⟩
  | cons kv kvs ih =>
      have hpair := h kv List.mem_cons_self
      exact (hpair.1.append hpair.2).append (ih fun w hw => h w (List.mem_cons_of_mem kv hw))

section

variable (hF : IsWriter F)

include hF

theorem IsWriter.call {call : WriterCall} (h : call.kind = .inside) :
    CountsAs F [call] (F.count call) (F.bytes call) :=
  ⟨[], .call (by rw [hF.kind, h])⟩

theorem IsWriter.struct {body : List WriterCall} {n : ℓ} {bytes : List UInt8}
    (h : CountsAs F body n bytes) :
    CountsAs F (.writeStructBegin :: (body ++ [.writeStructEnd]))
      (F.lengthCount (structLength F n) + structLength F n)
      (F.lengthBytes (structLength F n) ++ (bytes ++ F.bytes .writeStructEnd)) := by
  obtain ⟨_, h⟩ := h
  exact ⟨_, h.struct (by rw [hF.kind]; rfl) (by rw [hF.kind]; rfl)⟩

theorem IsWriter.fields {fields : Fields}
    (h : ∀ f ∈ fields, CountsAs F (f.2.calls order) (f.2.count F) (f.2.encode F)) :
    CountsAs F (fieldsCalls order fields) (fieldsCount F fields) (encodeFields F fields) := by
  induction fields with
  | nil => exact ⟨[], .nil⟩
  | cons f fs ih =>
      exact ((hF.call rfl).append (h f List.mem_cons_self)).append
        (ih fun g hg => h g (List.mem_cons_of_mem f hg))

/-- In either order the calls for a base come to its own base, its fields and a stop. -/
theorem IsWriter.baseCalls {base fields : List WriterCall} {n n' : ℓ} {bytes bytes' : List UInt8}
    (hbase : CountsAs F base n bytes) (hfields : CountsAs F fields n' bytes') :
    CountsAs F (order.baseCalls base fields) (n + n' + F.count .writeBaseEnd)
      (bytes ++ bytes' ++ F.bytes .writeBaseEnd) := by
  have hbegin : CountsAs F [.writeBaseBegin] 0 [] := by
    have hcall : CountsAs F [.writeBaseBegin] _ _ := hF.call rfl
    rwa [hF.count_baseBegin, hF.bytes_baseBegin] at hcall
  have hend : CountsAs F [.writeBaseEnd] _ _ := hF.call rfl
  cases order with
  | within => simpa [BaseOrder.baseCalls] using ((hbegin.append hbase).append hfields).append hend
  | before => simpa [BaseOrder.baseCalls] using ((hbase.append hbegin).append hfields).append hend

theorem IsWriter.body {s : StructValue}
    (h : ∀ fs ∈ s.levels, ∀ f ∈ fs, CountsAs F (f.2.calls order) (f.2.count F) (f.2.encode F)) :
    CountsAs F (s.bodyCalls order) (s.bodyCount F) (s.encodeBody F) := by
  have hfields (fs : Fields) (hfs : fs ∈ s.levels) :
      CountsAs F (fieldsCalls order fs) (fieldsCount F fs) (encodeFields F fs) :=
    hF.fields (h fs hfs)
  have hbase (base : StructValue) (hlevels : ∀ fs ∈ base.levels, fs ∈ s.levels) :
      CountsAs F (base.baseCalls order) (base.bodyCount F + F.count .writeBaseEnd)
        (base.encodeBody F ++ F.bytes .writeBaseEnd) := by
    induction base with
    | root fields =>
        have hcalls : CountsAs F (order.baseCalls [] (fieldsCalls order fields)) _ _ :=
          hF.baseCalls ⟨[], .nil⟩
          (hfields fields (hlevels fields (by simp [StructValue.levels])))
        rwa [zero_add, List.nil_append] at hcalls
    | derived base fields ih =>
        exact hF.baseCalls (ih fun fs hfs => hlevels fs (by simp [StructValue.levels, hfs]))
          (hfields fields (hlevels fields (by simp [StructValue.levels])))
  cases s with
  | root fields => exact hfields fields (by simp [StructValue.levels])
  | derived base fields =>
      exact (hbase base fun fs hfs => by simp [StructValue.levels, hfs]).append
        (hfields fields (by simp [StructValue.levels]))

/-- The passes over the calls for a value count what it counts for and write what it is encoded
    as. -/
theorem IsWriter.value : ∀ v : Value, CountsAs F (v.calls order) (v.count F) (v.encode F) := by
  refine value_induct ?_ ?_ ?_ ?_ ?_ ?_
  · intro v
    exact hF.call rfl
  · intro kind element items ih
    exact (hF.call rfl).append (countsAs_items ih)
  · intro element data
    exact (hF.call rfl).append (hF.call rfl)
  · intro key element items ih
    exact (hF.call rfl).append (countsAs_pairs ih)
  · intro s ih
    exact hF.struct (hF.body ih)
  · intro s ih
    exact hF.struct (hF.body ih)

theorem IsWriter.structBody (order : BaseOrder) (s : StructValue) :
    CountsAs F (s.bodyCalls order) (s.bodyCount F) (s.encodeBody F) :=
  hF.body fun _ _ f _ => hF.value f.2

end

end Bond.Managed

import Bond.Cpp.TaggedProtocol

set_option autoImplicit false

/-! # Writer calls

`Serializer` (cpp/inc/bond/core/transforms.h) drives a protocol writer by calling its methods. A
`WriterCall` is one of these calls; `calls` is what the traversal of a value makes. A writer whose
structs have no length writes each call on its own, and so the grammar of its protocol. -/

namespace Bond.Cpp

/-- One call on a protocol writer. Calls that write nothing in any protocol (`WriteFieldEnd`,
    `WriteContainerEnd`) are left out. -/
inductive WriterCall where
  | writeStructBegin (base : Bool)
  | writeStructEnd (base : Bool)
  | writeFieldBegin (type : BondDataType) (id : UInt16)
  | writeContainerBegin (size : UInt32) (type : BondDataType)
  | writeContainerBeginPair (size : UInt32) (key element : BondDataType)
  | write (value : BasicValue)
  /-- a blob written to the writer's buffer: the payload of a `bonded` of the same protocol -/
  | writeRange (bytes : List UInt8)
deriving DecidableEq, Repr

mutual

/-- The calls for a value. -/
def Value.calls : Value → List WriterCall
  | .basic v => [.write v]
  | .list _ element items =>
      .writeContainerBegin (UInt32.ofNat items.length) element :: itemsCalls items
  | .map key element items =>
      .writeContainerBeginPair (UInt32.ofNat items.length) key element :: pairsCalls items
  | .struct s => [.writeStructBegin false] ++ s.bodyCalls ++ [.writeStructEnd false]
  | .bonded payload => [.writeRange payload]

def itemsCalls : List Value → List WriterCall
  | [] => []
  | v :: vs => v.calls ++ itemsCalls vs

def pairsCalls : List (Value × Value) → List WriterCall
  | [] => []
  | (k, v) :: kvs => (k.calls ++ v.calls) ++ pairsCalls kvs

def fieldsCalls : List (UInt16 × Value) → List WriterCall
  | [] => []
  | (id, v) :: fs => (.writeFieldBegin v.typeId id :: v.calls) ++ fieldsCalls fs

/-- The calls between the begin and the end of a struct: its base, as a struct of its own, and
    its fields. -/
def StructValue.bodyCalls : StructValue → List WriterCall
  | .root fields => fieldsCalls fields
  | .derived base fields =>
      [.writeStructBegin true] ++ base.bodyCalls ++ [.writeStructEnd true] ++ fieldsCalls fields

end

/-- The calls for a struct that is not a base. -/
def StructValue.calls (s : StructValue) : List WriterCall :=
  (Value.struct s).calls

theorem itemsCalls_eq (vs : List Value) : itemsCalls vs = vs.flatMap Value.calls := by
  induction vs with
  | nil => rfl
  | cons v vs ih => rw [itemsCalls, ih, List.flatMap_cons]

theorem pairsCalls_eq (kvs : List (Value × Value)) :
    pairsCalls kvs = kvs.flatMap fun kv => kv.1.calls ++ kv.2.calls := by
  induction kvs with
  | nil => rfl
  | cons kv kvs ih => rw [pairsCalls, ih, List.flatMap_cons]

theorem fieldsCalls_eq (fs : Fields) :
    fieldsCalls fs = fs.flatMap fun f => .writeFieldBegin f.2.typeId f.1 :: f.2.calls := by
  induction fs with
  | nil => rfl
  | cons f fs ih => rw [fieldsCalls, ih, List.flatMap_cons]

/-! ## Balanced calls -/

/-- What a writer puts out for a call, lengths of structs apart. -/
def ProtocolWriter.callOutput (P : ProtocolWriter) : WriterCall → List OutputCall
  | .writeStructBegin _ => []
  | .writeStructEnd base => Cpp.writeStructEnd base
  | .writeFieldBegin type id => P.writeFieldBegin type id
  | .writeContainerBegin size type => P.writeContainerBegin size type
  | .writeContainerBeginPair size key element => P.writeContainerBeginPair size key element
  | .write value => P.write value
  | .writeRange bytes => [.write bytes]

def WriterCall.isStruct : WriterCall → Bool
  | .writeStructBegin _ | .writeStructEnd _ => true
  | _ => false

/-- `Writes P calls bytes lengths`: in `calls` every struct that begins ends. `bytes` is what the
    grammar of `P` has for them, and `lengths` lists the length of each struct that is not a base,
    as a `uint32_t`, in the order in which these structs begin. -/
inductive Writes (P : ProtocolWriter) : List WriterCall → List UInt8 → List UInt32 → Prop
  | nil : Writes P [] [] []
  | call (c : WriterCall) (h : c.isStruct = false) : Writes P [c] (outputBytes (P.callOutput c)) []
  | append {cs cs' bytes bytes' lengths lengths'} (h : Writes P cs bytes lengths)
      (h' : Writes P cs' bytes' lengths') :
      Writes P (cs ++ cs') (bytes ++ bytes') (lengths ++ lengths')
  | base {cs bytes lengths} (h : Writes P cs bytes lengths) :
      Writes P ([.writeStructBegin true] ++ cs ++ [.writeStructEnd true])
        (bytes ++ stopBytes true) lengths
  | struct {cs bytes lengths} (h : Writes P cs bytes lengths) :
      Writes P ([.writeStructBegin false] ++ cs ++ [.writeStructEnd false])
        (outputBytes (P.lengthBegin (UInt32.ofNat (bytes ++ stopBytes false).length))
          ++ (bytes ++ stopBytes false))
        (UInt32.ofNat (bytes ++ stopBytes false).length :: lengths)

/-- Calls in which every struct that begins ends. -/
def Balanced (P : ProtocolWriter) (calls : List WriterCall) : Prop :=
  ∃ bytes lengths, Writes P calls bytes lengths

section

variable {P : ProtocolWriter}

theorem Writes.cons {c : WriterCall} {cs : List WriterCall} {bytes : List UInt8}
    {lengths : List UInt32} (hc : c.isStruct = false) (h : Writes P cs bytes lengths) :
    Writes P (c :: cs) (outputBytes (P.callOutput c) ++ bytes) lengths :=
  Writes.append (.call c hc) h

theorem Writes.flatMap {ι : Type} {calls : ι → List WriterCall} {bytes : ι → List UInt8}
    (xs : List ι) (h : ∀ x ∈ xs, ∃ lengths, Writes P (calls x) (bytes x) lengths) :
    ∃ lengths, Writes P (xs.flatMap calls) (xs.flatMap bytes) lengths := by
  induction xs with
  | nil => exact ⟨[], .nil⟩
  | cons x xs ih =>
      obtain ⟨lengths, hx⟩ := h x List.mem_cons_self
      obtain ⟨lengths', hxs⟩ := ih fun y hy => h y (List.mem_cons_of_mem x hy)
      exact ⟨lengths ++ lengths', by rw [List.flatMap_cons, List.flatMap_cons]; exact hx.append hxs⟩

theorem StructValue.writes_body (s : StructValue)
    (h : ∀ fs ∈ s.levels, ∀ f ∈ fs, ∃ lengths, Writes P f.2.calls (f.2.encode P) lengths) :
    ∃ lengths, Writes P s.bodyCalls (s.encodeBody P) lengths := by
  have hfields (fs : Fields) (hfs : fs ∈ s.levels) :
      ∃ lengths, Writes P (fieldsCalls fs) (encodeFields P fs) lengths := by
    rw [fieldsCalls_eq, encodeFields_eq]
    refine Writes.flatMap fs fun f hf => ?_
    obtain ⟨lengths, hv⟩ := h fs hfs f hf
    exact ⟨lengths, Writes.cons rfl hv⟩
  induction s with
  | root fields => exact hfields fields (by simp [levels])
  | derived base fields ih =>
      obtain ⟨lengths, hbase⟩ := ih (fun fs hfs => h fs (by simp [levels, hfs]))
        (fun fs hfs => hfields fs (by simp [levels, hfs]))
      obtain ⟨lengths', hlast⟩ := hfields fields (by simp [levels])
      exact ⟨lengths ++ lengths', hbase.base.append hlast⟩

/-- The calls for a value are balanced, and the grammar has its encoding for them. -/
theorem Value.writes : ∀ v : Value, ∃ lengths, Writes P v.calls (v.encode P) lengths := by
  refine value_induct ?_ ?_ ?_ ?_ ?_
  · intro v
    exact ⟨[], .call (.write v) rfl⟩
  · intro kind element items ih
    obtain ⟨lengths, hitems⟩ := Writes.flatMap items ih
    rw [← itemsCalls_eq, ← encodeItems_eq] at hitems
    exact ⟨lengths, Writes.cons rfl hitems⟩
  · intro key element items ih
    have hpairs : ∃ lengths, Writes P (pairsCalls items) (encodePairs P items) lengths := by
      rw [pairsCalls_eq, encodePairs_eq]
      refine Writes.flatMap items fun kv hkv => ?_
      obtain ⟨lengths, hk⟩ := (ih kv hkv).1
      obtain ⟨lengths', hv⟩ := (ih kv hkv).2
      exact ⟨lengths ++ lengths', hk.append hv⟩
    obtain ⟨lengths, hpairs⟩ := hpairs
    exact ⟨lengths, Writes.cons rfl hpairs⟩
  · intro s ih
    obtain ⟨lengths, hbody⟩ := s.writes_body ih
    rw [Value.calls, encode_struct]
    exact ⟨_, hbody.struct⟩
  · intro payload
    have hrange : Writes P [.writeRange payload] (outputBytes [.write payload]) [] :=
      .call (.writeRange payload) rfl
    rw [outputBytes_cons, outputBytes_nil, List.append_nil] at hrange
    exact ⟨[], hrange⟩

/-- A protocol that writes no lengths writes each call on its own. -/
theorem Writes.bytes_eq (hP : ∀ length, outputBytes (P.lengthBegin length) = [])
    {calls : List WriterCall} {bytes : List UInt8} {lengths : List UInt32}
    (h : Writes P calls bytes lengths) : outputBytes (calls.flatMap P.callOutput) = bytes := by
  induction h with
  | nil => rfl
  | call c hc => rw [List.flatMap_singleton]
  | append h h' ih ih' => rw [List.flatMap_append, outputBytes_append, ih, ih']
  | base h ih =>
      rw [List.flatMap_append, List.flatMap_append, outputBytes_append, outputBytes_append, ih]
      rfl
  | struct h ih =>
      rw [List.flatMap_append, List.flatMap_append, outputBytes_append, outputBytes_append, ih, hP]
      rfl

end

end Bond.Cpp

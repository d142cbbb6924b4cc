import Bond.Managed.Encoding
import Bond.Cpp.TaggedProtocol
import Bond.Java.TaggedProtocol
import Bond.Lib.Hereditary
import Bond.Lib.Utf16Decode

set_option autoImplicit false

/-! # C# and Java values on the wire of C++

The value that C++ has for a value of C# or Java: strings are in UTF-8, or in UTF-16 without lone
surrogates. A writer of C# or Java that writes what a writer of C++ writes for each call writes what
it writes for a value. -/

namespace Bond.Managed

open Bond.Cpp (BondDataType ProtocolWriter outputBytes stopBytes)
open Bond.Lib Hereditary

/-! ## Values in C++ -/

section

variable (utf8 : List UInt16 → List UInt8)

/-- A value of a basic type in C++, where `utf8` is the encoder of a language. Both languages put
    U+FFFD for a lone surrogate in a `wstring`. -/
def BasicValue.inCpp : BasicValue → Bond.Cpp.BasicValue
  | .bool v => .bool v
  | .uint8 v => .uint8 v
  | .uint16 v => .uint16 v
  | .uint32 v => .uint32 v
  | .uint64 v => .uint64 v
  | .float bits => .float bits
  | .double bits => .double bits
  | .string chars => .string (utf8 chars)
  | .int8 v => .int8 v
  | .int16 v => .int16 v
  | .int32 v => .int32 v
  | .int64 v => .int64 v
  | .wstring chars => .wstring (Utf16.replaced 0xFFFD chars)

mutual

/-- A value in C++: a blob is the list of its bytes, a `bonded` the struct in it. -/
def Value.inCpp : Value → Bond.Cpp.Value
  | .basic v => .basic (v.inCpp utf8)
  | .list kind element items => .list kind element (itemsInCpp items)
  | .blob element data =>
      .list .list element (data.map fun b => .basic ((byteValue element b).inCpp utf8))
  | .map key element items => .map key element (pairsInCpp items)
  | .struct s => .struct s.inCpp
  | .bonded s => .struct s.inCpp

def itemsInCpp : List Value → List Bond.Cpp.Value
  | [] => []
  | v :: vs => v.inCpp :: itemsInCpp vs

def pairsInCpp : List (Value × Value) → List (Bond.Cpp.Value × Bond.Cpp.Value)
  | [] => []
  | (k, v) :: kvs => (k.inCpp, v.inCpp) :: pairsInCpp kvs

def fieldsInCpp : List (UInt16 × Value) → Bond.Cpp.Fields
  | [] => []
  | (id, v) :: fs => (id, v.inCpp) :: fieldsInCpp fs

def StructValue.inCpp : StructValue → Bond.Cpp.StructValue
  | .root fields => .root (fieldsInCpp fields)
  | .derived base fields => .derived base.inCpp (fieldsInCpp fields)

end

theorem itemsInCpp_eq (vs : List Value) : itemsInCpp utf8 vs = vs.map (Value.inCpp utf8) := by
  induction vs with
  | nil => rfl
  | cons v vs ih => rw [itemsInCpp, ih, List.map_cons]

theorem pairsInCpp_eq (kvs : List (Value × Value)) :
    pairsInCpp utf8 kvs = kvs.map fun kv => (kv.1.inCpp utf8, kv.2.inCpp utf8) := by
  induction kvs with
  | nil => rfl
  | cons kv kvs ih => rw [pairsInCpp, ih, List.map_cons]

@[simp] theorem Value.typeId_inCpp (v : Value) : (v.inCpp utf8).typeId = v.typeId := by
  cases v with
  | basic v => cases v <;> rfl
  | list | blob | map | struct | bonded => rfl

end

/-! ## Writers that agree -/

/-- The values in a value. -/
def Value.children : Value → List Value
  | .list _ _ items => items
  | .map _ _ items => items.flatMap fun kv => [kv.1, kv.2]
  | .struct s => s.levels.flatten.map Prod.snd
  | .bonded s => s.levels.flatten.map Prod.snd
  | _ => []

/-- The length of a struct is a condition on structs alone. -/
def Value.lengthFits (fits : StructValue → Prop) : Value → Prop
  | .struct s => fits s
  | .bonded s => fits s
  | _ => True

/-- A writer of C# or Java puts out the same for each call as a writer of C++, and begins a struct
    that `fits` with the number of its bytes. -/
structure WritesAs {ℓ : Type} [AddMonoid ℓ] (utf8 : List UInt16 → List UInt8)
    (F : TwoPass.Format WriterCall ℓ) (P : ProtocolWriter) (fits : StructValue → Prop) : Prop where
  fieldBegin (type : BondDataType) (id : UInt16) (h : type.isValue = true) :
    F.bytes (.writeFieldBegin type id) = outputBytes (P.writeFieldBegin type id)
  structEnd : F.bytes .writeStructEnd = stopBytes false
  baseEnd : F.bytes .writeBaseEnd = stopBytes true
  containerBegin (count : Nat) (element : BondDataType) (hcount : count < 2 ^ 31)
    (h : element.isValue = true) :
    F.bytes (.writeContainerBegin (Int32.ofNat count) element)
      = outputBytes (P.writeContainerBegin (UInt32.ofNat count) element)
  mapBegin (count : Nat) (key element : BondDataType) (hcount : count < 2 ^ 31) :
    F.bytes (.writeMapBegin (Int32.ofNat count) key element)
      = outputBytes (P.writeContainerBeginPair (UInt32.ofNat count) key element)
  bytes (data : List UInt8) : F.bytes (.writeBytes data) = data
  byte (b : UInt8) (element : BondDataType) (h : element = .basic .int8 ∨ element = .basic .uint8) :
    outputBytes (P.write ((byteValue element b).inCpp utf8)) = [b]
  write (v : BasicValue) (h : v.wellFormed utf8 = true) :
    F.bytes (.write v) = outputBytes (P.write (v.inCpp utf8))
  length (s : StructValue) (h : s.wellFormed utf8 = true) (hs : fits s) :
    F.lengthBytes (s.length F) = outputBytes (P.lengthBegin
      (UInt32.ofNat (s.encodeBody F ++ F.bytes .writeStructEnd).length))

section

variable {ℓ : Type} [AddMonoid ℓ] {utf8 : List UInt16 → List UInt8}
  {F : TwoPass.Format WriterCall ℓ} {P : ProtocolWriter} {fits : StructValue → Prop}

theorem WritesAs.encodeBody_eq (hF : WritesAs utf8 F P fits) {s : StructValue}
    (h : ∀ fs ∈ s.levels, ∀ f ∈ fs, f.2.encode F = (f.2.inCpp utf8).encode P) :
    s.encodeBody F = (s.inCpp utf8).encodeBody P := by
  have hfields {fs : Fields} (hfs : fs ∈ s.levels) :
      encodeFields F fs = Bond.Cpp.encodeFields P (fieldsInCpp utf8 fs) := by
    have hvalues := h fs hfs
    clear hfs
    induction fs with
    | nil => rfl
    | cons f fs ih =>
        rw [encodeFields, fieldsInCpp, Bond.Cpp.encodeFields,
          ih fun g hg => hvalues g (by simp [hg]), hF.fieldBegin _ _ f.2.typeId_isValue,
          hvalues f List.mem_cons_self, Value.typeId_inCpp]
  induction s with
  | root fields => exact hfields (by simp [StructValue.levels])
  | derived base fields ih =>
      rw [StructValue.encodeBody, StructValue.inCpp, Bond.Cpp.StructValue.encodeBody, hF.baseEnd,
        hfields (by simp [StructValue.levels]),
        ih (fun fs hfs => h fs (by simp [StructValue.levels, hfs]))
          fun hfs => hfields (by simp [StructValue.levels, hfs])]

theorem WritesAs.encode_struct (hF : WritesAs utf8 F P fits) {s : StructValue}
    (hs : s.wellFormed utf8 = true) (hfits : fits s)
    (h : ∀ fs ∈ s.levels, ∀ f ∈ fs, f.2.encode F = (f.2.inCpp utf8).encode P) :
    (Value.struct s).encode F = (Bond.Cpp.Value.struct (s.inCpp utf8)).encode P := by
  rw [Value.encode, Bond.Cpp.encode_struct, hF.length s hs hfits, hF.encodeBody_eq h, hF.structEnd]

theorem mem_children_struct {s : StructValue} {fs : Fields} (hfs : fs ∈ s.levels)
    {f : UInt16 × Value} (hf : f ∈ fs) : f.2 ∈ (Value.struct s).children :=
  List.mem_map_of_mem (List.mem_flatten_of_mem hfs hf)

/-- A value is written as C++ writes it, by induction over the value. -/
theorem WritesAs.encode_eq (hF : WritesAs utf8 F P fits) (v : Value)
    (h : v.wellFormed utf8 = true) (hfits : Everywhere Value.children (Value.lengthFits fits) v) :
    v.encode F = (v.inCpp utf8).encode P := by
  refine wellFormed_induct (P := fun v =>
    Everywhere Value.children (Value.lengthFits fits) v → v.encode F = (v.inCpp utf8).encode P)
    ?_ ?_ ?_ ?_ ?_ ?_ v h hfits
  · intro v hv _
    exact hF.write v hv
  · intro kind element items hlength helement ih hfits
    rw [Value.encode, Value.inCpp, Bond.Cpp.Value.encode, itemsInCpp_eq, List.length_map,
      hF.containerBegin _ _ hlength helement, encodeItems_eq, Bond.Cpp.encodeItems_eq,
      List.flatMap_map]
    congr 1
    exact List.flatMap_congr fun v hv => (ih v hv).2.2 (hfits.children_of v hv)
  · intro element data hlength helement _
    have hvalue : element.isValue = true := by rcases helement with rfl | rfl <;> rfl
    rw [Value.encode, Value.inCpp, Bond.Cpp.Value.encode, List.length_map,
      hF.containerBegin _ _ hlength hvalue, hF.bytes, Bond.Cpp.encodeItems_eq, List.flatMap_map]
    simp only [Bond.Cpp.Value.encode, hF.byte _ element helement, List.flatMap_singleton']
  · intro key element items hlength hkey helement ih hfits
    rw [Value.encode, Value.inCpp, Bond.Cpp.Value.encode, pairsInCpp_eq, List.length_map,
      hF.mapBegin _ _ _ hlength, encodePairs_eq, Bond.Cpp.encodePairs_eq, List.flatMap_map]
    congr 1
    refine List.flatMap_congr fun kv hkv => ?_
    have hchild (w : Value) (hw : w ∈ [kv.1, kv.2]) :=
      hfits.children_of w (List.mem_flatMap.2 ⟨kv, hkv, hw⟩)
    rw [(ih kv hkv).1.2.2 (hchild kv.1 (by simp)), (ih kv hkv).2.2.2 (hchild kv.2 (by simp))]
  · intro s hs ih hfits
    exact hF.encode_struct hs hfits.self fun fs hfs f hf =>
      (ih fs hfs f hf).2 (hfits.children_of f.2 (mem_children_struct hfs hf))
  · intro s hs ih hfits
    exact hF.encode_struct hs hfits.self fun fs hfs f hf =>
      (ih fs hfs f hf).2 (hfits.children_of f.2 (mem_children_struct hfs hf))

end

end Bond.Managed

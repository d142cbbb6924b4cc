import Bond.Interop.Writers

set_option autoImplicit false

/-! # What one language writes, in another

A struct is serialized to the same bytes in C#, Java and C++ if the length that the first pass of
Java counts for it is right, and to the same bytes in C# and Java if all its strings are Unicode. -/

namespace Bond.Interop

open Bond.Cpp (BondDataType outputBytes stopBytes)
open Bond.Lib Bond.Managed
open Decoder Hereditary
open Cs (utf8GetBytes)
open Java.StringHelper (encodeString)

/-! ## Well-formed values of C++ -/

section

variable {utf8 : List UInt16 → List UInt8}

end

/-! ## The lengths of all structs in Java -/

section

variable {order : BaseOrder}

theorem calls_subset_fieldsCalls {fs : Fields} {f : UInt16 × Value} (hf : f ∈ fs) :
    f.2.calls order ⊆ fieldsCalls order fs := by
  induction fs with
  | nil => cases hf
  | cons g fs ih =>
      intro call hcall
      rw [fieldsCalls, List.mem_append, List.mem_cons]
      rcases List.mem_cons.1 hf with rfl | hf
      · exact .inl (.inr hcall)
      · exact .inr (ih hf hcall)

theorem mem_baseCalls {base fields : List WriterCall} {call : WriterCall}
    (h : call ∈ base ∨ call ∈ fields) : call ∈ order.baseCalls base fields := by
  cases order with
  | within | before =>
      simp only [BaseOrder.baseCalls, List.mem_append, List.mem_singleton]
      tauto

theorem fieldsCalls_subset_baseCalls {s : StructValue} {fs : Fields} (hfs : fs ∈ s.levels) :
    fieldsCalls order fs ⊆ s.baseCalls order := by
  intro call hcall
  induction s with
  | root fields =>
      obtain rfl := List.mem_singleton.1 hfs
      exact mem_baseCalls (.inr hcall)
  | derived base fields ih =>
      rcases List.mem_append.1 hfs with hfs | hfs
      · exact mem_baseCalls (.inl (ih hfs))
      · obtain rfl := List.mem_singleton.1 hfs
        exact mem_baseCalls (.inr hcall)

/-- The calls for a field are calls for the struct. -/
theorem calls_subset_bodyCalls {s : StructValue} {fs : Fields} (hfs : fs ∈ s.levels)
    {f : UInt16 × Value} (hf : f ∈ fs) : f.2.calls order ⊆ s.bodyCalls order := by
  intro call hcall
  have hfield := calls_subset_fieldsCalls hf hcall
  cases s with
  | root fields =>
      obtain rfl := List.mem_singleton.1 hfs
      exact hfield
  | derived base fields =>
      rw [StructValue.bodyCalls, List.mem_append]
      rcases List.mem_append.1 hfs with hfs | hfs
      · exact .inl (fieldsCalls_subset_baseCalls hfs hfield)
      · obtain rfl := List.mem_singleton.1 hfs
        exact .inr hfield

theorem calls_subset_pairsCalls {kvs : List (Value × Value)} {kv : Value × Value} (hkv : kv ∈ kvs)
    {v : Value} (hv : v ∈ [kv.1, kv.2]) : v.calls order ⊆ pairsCalls order kvs := by
  induction kvs with
  | nil => cases hkv
  | cons kv' kvs ih =>
      intro call hcall
      rw [pairsCalls, List.mem_append, List.mem_append]
      rcases List.mem_cons.1 hkv with rfl | hkv
      · rcases List.mem_pair.1 hv with rfl | rfl
        · exact .inl (.inl hcall)
        · exact .inl (.inr hcall)
      · exact .inr (ih hkv hcall)

theorem calls_subset_of_mem_children {v c : Value} (hc : c ∈ v.children) :
    c.calls order ⊆ v.calls order := by
  have hstruct {s : StructValue} (hc : c ∈ s.levels.flatten.map Prod.snd) :
      c.calls order ⊆ (Value.struct s).calls order := by
    obtain ⟨f, hf, rfl⟩ := List.mem_map.1 hc
    obtain ⟨fs, hfs, hf⟩ := List.mem_flatten.1 hf
    intro call hcall
    exact List.mem_cons_of_mem _ (List.mem_append_left _ (calls_subset_bodyCalls hfs hf hcall))
  cases v with
  | basic | blob => cases hc
  | list kind element items =>
      intro call hcall
      rw [Value.calls, List.mem_cons, itemsCalls_eq]
      exact .inr (List.mem_flatMap.2 ⟨c, hc, hcall⟩)
  | map key element items =>
      obtain ⟨kv, hkv, hc⟩ := List.mem_flatMap.1 hc
      exact fun call hcall => List.mem_cons_of_mem _ (calls_subset_pairsCalls hkv hc hcall)
  | struct s | bonded s => exact hstruct hc

end

theorem encode_length_le_of_mem_levels {ℓ : Type} [AddMonoid ℓ]
    (F : TwoPass.Format WriterCall ℓ) {s : StructValue} {c : Value}
    (hc : c ∈ s.levels.flatten.map Prod.snd) : (c.encode F).length ≤ (s.encodeBody F).length := by
  obtain ⟨f, hf, rfl⟩ := List.mem_map.1 hc
  obtain ⟨fs, hfs, hf⟩ := List.mem_flatten.1 hf
  exact (encode_field_length_le F hf).trans (encodeFields_length_le F hfs)

theorem encode_length_le_of_mem_children {ℓ : Type} [AddMonoid ℓ]
    (F : TwoPass.Format WriterCall ℓ) {v c : Value} (hc : c ∈ v.children) :
    (c.encode F).length ≤ (v.encode F).length := by
  cases v with
  | basic | blob => cases hc
  | list kind element items =>
      have hle : (c.encode F).length ≤ (encodeItems F items).length := encode_item_length_le F hc
      rw [Value.encode, List.length_append]
      omega
  | map key element items =>
      obtain ⟨kv, hkv, hc⟩ := List.mem_flatMap.1 hc
      have hle := encode_pair_length_le F hkv
      rw [Value.encode, List.length_append]
      rcases List.mem_pair.1 hc with rfl | rfl <;> omega
  | struct s | bonded s =>
      have hle := encode_length_le_of_mem_levels F hc
      simp only [Value.encode, List.length_append]
      omega

/-- What a struct has if its length is right, for a value of any type: there are no strings that
    are missing bytes, and it is short. -/
def FitsWithin (v : Value) : Prop :=
  (∀ value, .write (.string value) ∈ v.calls .before → Java.CompactBinary.SameWidth value) ∧
    (v.encode Java.CompactBinary.grammar).length < 2 ^ 31

theorem FitsWithin.child {v c : Value} (h : FitsWithin v) (hc : c ∈ v.children) : FitsWithin c :=
  ⟨fun value hvalue => h.1 value (calls_subset_of_mem_children hc hvalue),
    Nat.lt_of_le_of_lt (encode_length_le_of_mem_children _ hc) h.2⟩

/-- The number of bytes that the grammar has for a struct is that of its bytes. -/
theorem byteCount_eq (s : StructValue) : Java.CompactBinary.byteCount s
    = (s.encodeBody Java.CompactBinary.grammar).length + 1 := by
  obtain ⟨structs, hbody⟩ := Java.CompactBinary.isWriter_grammar.structBody .before s
  have hstruct := hbody.struct (o := .writeStructBegin) (c := .writeStructEnd) rfl rfl
  have hprefixes : ∀ length, Java.CompactBinary.grammar.lengthCount length
      = AddMonoidHom.id ℕ (Java.CompactBinary.grammar.lengthBytes length).length := fun _ => rfl
  have htop : Java.CompactBinary.byteCount s
      = (s.encodeBody Java.CompactBinary.grammar ++ [BondDataType.stop.toUInt8]).length :=
    hstruct.structs_eq hprefixes (fun c _ => Java.CompactBinary.grammar_short c) _
      List.mem_cons_self
  rw [htop, List.length_append]
  rfl

theorem FitsWithin.lengthFits {v : Value} (h : FitsWithin v) :
    v.lengthFits (Java.Protocol.compactBinary .v2).structFits := by
  cases v with
  | struct s | bonded s =>
      refine ⟨h.1, ?_⟩
      have hlength := h.2
      simp only [Value.encode, List.length_append] at hlength
      have hstop : (Java.CompactBinary.grammar.bytes .writeStructEnd).length = 1 := rfl
      rw [byteCount_eq]
      omega
  | _ => trivial

/-- What holds of the values in a value whenever it holds of the value holds everywhere in it. -/
theorem everywhere_of_children {P : Value → Prop} (hP : ∀ v, P v → ∀ c ∈ v.children, P c) :
    ∀ v : Value, P v → Everywhere Value.children P v := by
  have hstruct (v : Value) (s : StructValue) (hv : v.children = s.levels.flatten.map Prod.snd)
      (ih : ∀ fs ∈ s.levels, ∀ f ∈ fs, P f.2 → Everywhere Value.children P f.2) (h : P v) :
      Everywhere Value.children P v := by
    refine .intro h fun c hc => ?_
    have hchild := hP v h c hc
    rw [hv] at hc
    obtain ⟨f, hf, rfl⟩ := List.mem_map.1 hc
    obtain ⟨fs, hfs, hf⟩ := List.mem_flatten.1 hf
    exact ih fs hfs f hf hchild
  refine value_induct ?_ ?_ ?_ ?_ ?_ ?_
  · intro v h
    exact .intro h fun c hc => by cases hc
  · intro kind element items ih h
    exact .intro h fun c hc => ih c hc (hP _ h c hc)
  · intro element data h
    exact .intro h fun c hc => by cases hc
  · intro key element items ih h
    refine .intro h fun c hc => ?_
    have hchild := hP _ h c hc
    obtain ⟨kv, hkv, hc⟩ := List.mem_flatMap.1 hc
    rcases List.mem_pair.1 hc with rfl | rfl
    · exact (ih kv hkv).1 hchild
    · exact (ih kv hkv).2 hchild
  · exact fun s ih h => hstruct _ s rfl ih h
  · exact fun s ih h => hstruct _ s rfl ih h

theorem cs_encode_inCpp (p : Cs.Protocol) {s : StructValue}
    (h : s.wellFormed utf8GetBytes = true) :
    (Value.struct s).encode p.format = (s.inCpp utf8GetBytes).encode p.inCpp.writer := by
  have hfits : Everywhere Value.children (Value.lengthFits fun _ => True) (.struct s) :=
    everywhere_of_children (P := Value.lengthFits fun _ => True)
      (fun _ _ c _ => by cases c <;> trivial) _ trivial
  exact (cs_writesAs p).encode_eq (.struct s) h hfits

/-- C# serializes a struct as C++ does. -/
theorem cs_serialize_inCpp (p : Cs.Protocol) (s : StructValue)
    (h : s.wellFormed utf8GetBytes = true) :
    p.serialize s = some ((s.inCpp utf8GetBytes).encode p.inCpp.writer) := by
  rw [p.serialize_eq, cs_encode_inCpp p h]

/-- A struct with a base, a list, a blob, a `bonded` and strings, one with a lone surrogate. -/
def letter : StructValue :=
  .derived (.root [(0, .basic (.string [0xE9, 0xD83D, 0xDE00]))])
    [(6, .list .list (.basic .int32) [.basic (.int32 (-1)), .basic (.int32 64)]),
      (300, .blob (.basic .int8) [0, 255]),
      (301, .bonded (.root [(0, .basic (.wstring [0x41, 0xD800]))]))]

theorem cs_serialize_inCpp_letter :
    Cs.Protocol.compactBinaryV2.serialize letter
      = some ((letter.inCpp utf8GetBytes).encode (Cpp.compactBinary .v2).writer) :=
  cs_serialize_inCpp .compactBinaryV2 letter (by decide)

/-- A string without lone surrogates; what is not a string passes. -/
def isUnicode : Value → Prop
  | .basic (.string chars) => Utf16.isUnicode chars = true
  | _ => True

end Bond.Interop

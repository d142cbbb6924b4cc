import Bond.Cpp.TaggedProtocol

set_option autoImplicit false

/-! # Skipping

`SkipType` of a tagged protocol is a second traversal of its grammar. Both protocols dispatch on
the type in the same way and differ in how they skip a run of basic values and a struct; these two
are the parameters here, together with what they have to do on their encodings. -/

namespace Bond.Cpp

open Decoder InputBuffer

/-- Skipping a struct field by field. -/
theorem decodes_skipLevels {P : ProtocolWriter} {readFieldBegin : Reader (BondDataType × UInt16)}
    (hP : DecodesFields P readFieldBegin) (s : StructValue)
    (skipType : BondDataType → Reader Unit) (bound : Nat)
    (hfields : ∀ fs ∈ s.levels, ∀ f ∈ fs,
      Decodes (skipType f.2.typeId) (f.2.encode P) (pure ()))
    (hbound : (s.encodeBody P).length + 1 < bound) :
    Decodes (readLevelsLoop readFieldBegin (fun _ type => skipType type) bound bound
      >>= fun _ => pure ()) (s.encodeBody P ++ stopBytes false) (pure ()) := by
  refine (decodes_readLevelsLoop hP s hfields bound (fun fs hfs => ?_) bound ?_).bind_return
    fun _ => ()
  · have hcount := fields_length_le P fs
    have hle := encodeFields_length_le P hfs
    omega
  · have hle := depth_le P s
    omega

/-- The parts of `SkipType` in which protocols differ. -/
structure SkipRules (P : ProtocolWriter) where
  readContainerBegin : Reader (Nat × BondDataType)
  readContainerBeginPair : Reader (Nat × BondDataType × BondDataType)
  /-- `SkipType<T>(size)` for a basic type -/
  skipBasic (type : BasicType) (size : Nat) : Reader Unit
  /-- `SkipType<BT_STRUCT>()`, given `SkipType` and a bound on the number of fields and levels -/
  skipStruct (skipType : BondDataType → Reader Unit) (bound : Nat) : Reader Unit
  decodes_containerBegin (size : UInt32) (type : BondDataType) (h : type.isValue = true) :
    Decodes readContainerBegin (outputBytes (P.writeContainerBegin size type))
      (pure (size.toNat, type))
  decodes_containerBeginPair (size : UInt32) (key element : BondDataType)
    (hkey : key.isValue = true) (helement : element.isValue = true) :
    Decodes readContainerBeginPair (outputBytes (P.writeContainerBeginPair size key element))
      (pure (size.toNat, key, element))
  decodes_skipBasic (type : BasicType) (vs : List BasicValue)
    (h : ∀ v ∈ vs, v.type = type ∧ v.wellFormed = true) :
    Decodes (skipBasic type vs.length) (vs.flatMap fun v => outputBytes (P.write v)) (pure ())
  decodes_skipStruct (s : StructValue) (skipType : BondDataType → Reader Unit) (bound : Nat)
    (hfields : ∀ fs ∈ s.levels, ∀ f ∈ fs,
      Decodes (skipType f.2.typeId) (f.2.encode P) (pure ()))
    (hbound : (s.encode P).length < bound) :
    Decodes (skipStruct skipType bound) (s.encode P) (pure ())

namespace SkipRules

variable {P : ProtocolWriter} (R : SkipRules P)

/-- `SkipType(type, size)`, given `SkipType(type)` -/
def skipElements (skipType : BondDataType → Reader Unit) (type : BondDataType) (size : Nat) :
    Reader Unit :=
  match type with
  | .basic b => R.skipBasic b size
  | .struct | .list | .set | .map => do
      let _ ← repeatN size (skipType type)
      return ()
  | _ => return ()

/-- `SkipType(type)`. Every nested call comes after at least a byte, so `fuel` bounds the depth if
    it exceeds the number of bytes left. -/
def skipType : Nat → BondDataType → Reader Unit
  | 0, _ => eofException 1
  | fuel + 1, type =>
      match type with
      | .basic b => R.skipBasic b 1
      | .list | .set => do
          let (size, element) ← R.readContainerBegin
          R.skipElements (skipType fuel) element size
      | .map => do
          let (size, key, element) ← R.readContainerBeginPair
          let _ ← repeatN size do
            skipType fuel key
            skipType fuel element
          return ()
      | .struct => R.skipStruct (skipType fuel) (fuel + 1)
      | _ => return ()

/-- `Skip(type)` -/
def skip (type : BondDataType) : Reader Unit := do
  let left ← remainingLength
  R.skipType (left + 1) type

theorem decodes_skipElements (skipType : BondDataType → Reader Unit) (type : BondDataType)
    (vs : List Value) (hvalue : type.isValue = true)
    (h : ∀ v ∈ vs, v.typeId = type ∧ v.wellFormed = true ∧
      Decodes (skipType type) (v.encode P) (pure ())) :
    Decodes (R.skipElements skipType type vs.length) (encodeItems P vs) (pure ()) := by
  have hloop : Decodes (repeatN vs.length (skipType type) >>= fun _ => pure ()) (encodeItems P vs)
      (pure ()) := by
    rw [encodeItems_eq]
    exact Decodes.repeatN_discard vs fun v hv => (h v hv).2.2
  cases type with
  | basic b =>
      obtain ⟨xs, rfl, hxs⟩ := eq_map_basic fun v hv => (h v hv).1
      have hwf : ∀ x ∈ xs, x.type = b ∧ x.wellFormed = true := fun x hx =>
        ⟨hxs x hx, by simpa [Value.wellFormed] using (h _ (List.mem_map_of_mem hx)).2.1⟩
      have hskip := R.decodes_skipBasic b xs hwf
      rw [encodeItems_eq, List.flatMap_map, List.length_map]
      simp only [Value.encode]
      exact hskip
  | struct | list | set | map => exact hloop
  | stop | stopBase | unavailable | undefined => simp [BondDataType.isValue] at hvalue

theorem decodes_skipType : ∀ v : Value, v.wellFormed = true → ∀ fuel,
    (v.encode P).length < fuel →
      Decodes (R.skipType fuel v.typeId) (v.encode P) (pure ()) := by
  refine wellFormed_induct ?_ ?_ ?_ ?_
  · intro v hv fuel hfuel
    obtain ⟨fuel, rfl⟩ : ∃ fuel', fuel = fuel' + 1 := ⟨fuel - 1, by omega⟩
    have hskip := R.decodes_skipBasic v.type [v] (by simpa using hv)
    rw [List.flatMap_singleton] at hskip
    rw [Value.encode, Value.typeId, skipType]
    exact hskip
  · intro kind element items hlen helement ih fuel hfuel
    obtain ⟨fuel, rfl⟩ : ∃ fuel', fuel = fuel' + 1 := ⟨fuel - 1, by omega⟩
    have hpos := P.containerBegin_pos (UInt32.ofNat items.length) element
    rw [Value.encode, List.length_append] at hfuel
    have hheader := R.decodes_containerBegin (UInt32.ofNat items.length) element helement
    rw [UInt32.toNat_ofNat_of_lt' hlen] at hheader
    have hitems : Decodes (R.skipElements (R.skipType fuel) element items.length)
        (encodeItems P items) (pure ()) := by
      refine R.decodes_skipElements _ element items helement fun v hv => ?_
      obtain ⟨rfl, hwf, hskip⟩ := ih v hv
      have hle := encode_item_length_le P hv
      exact ⟨rfl, hwf, hskip fuel (by omega)⟩
    rw [Value.encode, Value.typeId]
    cases kind <;> exact hheader.bind_pure hitems
  · intro key element items hlen hkey helement ih fuel hfuel
    obtain ⟨fuel, rfl⟩ : ∃ fuel', fuel = fuel' + 1 := ⟨fuel - 1, by omega⟩
    have hpos := P.containerBeginPair_pos (UInt32.ofNat items.length) key element
    rw [Value.encode, List.length_append] at hfuel
    have hheader := R.decodes_containerBeginPair (UInt32.ofNat items.length) key element
      (BondDataType.isValue_of_isBasic hkey) helement
    rw [UInt32.toNat_ofNat_of_lt' hlen] at hheader
    have hitems : Decodes (repeatN items.length (do
          R.skipType fuel key
          R.skipType fuel element) >>= fun _ => pure ()) (encodePairs P items) (pure ()) := by
      rw [encodePairs_eq]
      refine Decodes.repeatN_discard items fun kv hkv => ?_
      obtain ⟨⟨rfl, hkwf, hkskip⟩, rfl, hvwf, hvskip⟩ := ih kv hkv
      have hle := encode_pair_length_le P hkv
      exact (hkskip fuel (by omega)).bind_pure (hvskip fuel (by omega))
    rw [Value.encode, Value.typeId, skipType]
    exact hheader.bind_pure hitems
  · intro s hs ih fuel hfuel
    obtain ⟨fuel, rfl⟩ : ∃ fuel', fuel = fuel' + 1 := ⟨fuel - 1, by omega⟩
    refine R.decodes_skipStruct s (R.skipType fuel) (fuel + 1) (fun fs hfs f hf => ?_) hfuel
    have hle := field_encode_length_lt P hfs hf
    exact (ih fs hfs f hf).2 fuel (by omega)

theorem decodes_skip (v : Value) (h : v.wellFormed = true) :
    Decodes (R.skip v.typeId) (v.encode P) (pure ()) := by
  refine decodes_remainingLength fun left hleft => ?_
  exact R.decodes_skipType v h (left + 1) (Nat.lt_succ_of_le hleft)

end SkipRules

end Bond.Cpp

import Bond.Cpp.CompactBinary
import Bond.Cpp.FastBinary
import Bond.Cpp.VarintPaths

set_option autoImplicit false

/-! # Type ids without a meaning

A type id is five bits or a byte of the payload, and most of them are no member of `BondDataType`.
`SkipType` of both tagged readers (cpp/inc/bond/protocol/compact_binary.h, fast_binary.h) dispatches
on the id and has a default branch that does nothing, where the readers in C# and Java throw. -/

namespace Bond.Cpp

open Decoder InputBuffer

/-- A byte that `bond_const.bond` gives a meaning. -/
def BondDataType.Defined (raw : UInt8) : Prop :=
  raw ≤ 18 ∨ raw = 127

instance (raw : UInt8) : Decidable (BondDataType.Defined raw) :=
  inferInstanceAs (Decidable (_ ∨ _))

theorem BondDataType.ofUInt8_of_not_defined {raw : UInt8} (h : ¬ BondDataType.Defined raw) :
    BondDataType.ofUInt8 raw = .undefined raw := by
  unfold BondDataType.ofUInt8
  split
  case h_21 => rfl
  all_goals exact absurd (by decide) h

namespace SkipRules

variable {P : ProtocolWriter} (R : SkipRules P)

/-- The default branch of `SkipType(type)` -/
theorem skipType_undefined {raw : UInt8} (h : ¬ BondDataType.Defined raw) (fuel : Nat) :
    R.skipType (fuel + 1) (.ofUInt8 raw) = pure () := by
  rw [BondDataType.ofUInt8_of_not_defined h]
  rfl

/-- The default branch of `SkipType(type, size)` -/
theorem skipElements_undefined {raw : UInt8} (h : ¬ BondDataType.Defined raw)
    (skipType : BondDataType → Reader Unit) (size : Nat) :
    R.skipElements skipType (.ofUInt8 raw) size = pure () := by
  rw [BondDataType.ofUInt8_of_not_defined h]
  rfl

/-- `Skip` steps over a value with such an id as if it were not there: over the value of a field,
    over all the elements of a list or set, and over the keys or the values of a map, of which it
    then skips the other halves only. -/
structure Ignores (raw : UInt8) (b : InputBuffer) : Prop where
  value : R.skip (.ofUInt8 raw) b = .ok ((), b)
  elements (size : Nat) (b' : InputBuffer) :
    R.readContainerBegin b = .ok ((size, .ofUInt8 raw), b') →
      R.skip .list b = .ok ((), b') ∧ R.skip .set b = .ok ((), b')
  keys (size : Nat) (element : BondDataType) (b' : InputBuffer) :
    R.readContainerBeginPair b = .ok ((size, .ofUInt8 raw, element), b') →
      R.skip .map b
        = (repeatN size (R.skipType b.remaining.length element) >>= fun _ => pure ()) b'
  values (size : Nat) (key : BondDataType) (b' : InputBuffer) :
    R.readContainerBeginPair b = .ok ((size, key, .ofUInt8 raw), b') →
      R.skip .map b = (repeatN size (R.skipType b.remaining.length key) >>= fun _ => pure ()) b'

/-- The header of a map takes a byte, at least. -/
theorem ignores (hheader : ∀ b r, R.readContainerBeginPair b = .ok r → b.remaining ≠ [])
    {raw : UInt8} (h : ¬ BondDataType.Defined raw) (b : InputBuffer) : R.Ignores raw b := by
  have hfuel (b : InputBuffer) (r : (Nat × BondDataType × BondDataType) × InputBuffer)
      (hr : R.readContainerBeginPair b = .ok r) : ∃ fuel, b.remaining.length = fuel + 1 := by
    have hpos := List.length_pos_iff.2 (hheader b r hr)
    exact ⟨b.remaining.length - 1, by omega⟩
  refine ⟨?_, fun size b' hb => ?_, fun size element b' hb => ?_, fun size key b' hb => ?_⟩
  · show R.skipType (b.remaining.length + 1) (.ofUInt8 raw) b = _
    rw [R.skipType_undefined h]
    rfl
  · have hskip : (R.readContainerBegin >>= fun r =>
        R.skipElements (R.skipType b.remaining.length) r.2 r.1) b = .ok ((), b') := by
      show (R.readContainerBegin b >>= fun r => _) = _
      rw [hb]
      show R.skipElements _ (.ofUInt8 raw) size b' = _
      rw [R.skipElements_undefined h]
      rfl
    exact ⟨hskip, hskip⟩
  · obtain ⟨fuel, hlength⟩ := hfuel b _ hb
    show (R.readContainerBeginPair b >>= fun r => _) = _
    rw [hb, hlength]
    show (repeatN size (R.skipType (fuel + 1) (.ofUInt8 raw) >>= fun _ =>
      R.skipType (fuel + 1) element) >>= fun _ => pure ()) b' = _
    rw [R.skipType_undefined h, pure_bind]
  · obtain ⟨fuel, hlength⟩ := hfuel b _ hb
    show (R.readContainerBeginPair b >>= fun r => _) = _
    rw [hb, hlength]
    show (repeatN size (R.skipType (fuel + 1) key >>= fun _ =>
      R.skipType (fuel + 1) (.ofUInt8 raw)) >>= fun _ => pure ()) b' = _
    rw [R.skipType_undefined h, bind_pure]

end SkipRules

/-- A program that succeeds has done its first step. -/
theorem bind_ok {α β : Type} {op : Reader α} {f : α → Reader β} {b : InputBuffer}
    {r : β × InputBuffer} (h : (op >>= f) b = .ok r) : ∃ x, op b = .ok x := by
  change (op b >>= fun x => f x.1 x.2) = _ at h
  cases hop : op b with
  | error e =>
      rw [hop] at h
      cases h
  | ok x => exact ⟨x, rfl⟩

theorem remaining_ne_nil {b : InputBuffer} {x : UInt8 × InputBuffer} (h : readUInt8 b = .ok x) :
    b.remaining ≠ [] := by
  obtain ⟨rest, hrest, -⟩ := readUInt8_ok h
  rw [hrest]
  exact List.cons_ne_nil _ _

theorem CompactBinary.readContainerBeginPair_ne_nil (b : InputBuffer)
    (r : (Nat × BondDataType × BondDataType) × InputBuffer)
    (h : CompactBinary.readContainerBeginPair b = .ok r) : b.remaining ≠ [] := by
  obtain ⟨x, hx⟩ := bind_ok h
  exact remaining_ne_nil hx

theorem FastBinary.readContainerBeginPair_ne_nil (b : InputBuffer)
    (r : (Nat × BondDataType × BondDataType) × InputBuffer)
    (h : FastBinary.readContainerBeginPair b = .ok r) : b.remaining ≠ [] := by
  obtain ⟨x, hx⟩ := bind_ok h
  rw [FastBinary.readType, map_eq_pure_bind] at hx
  obtain ⟨y, hy⟩ := bind_ok hx
  exact remaining_ne_nil hy

/-- No `Skip` of a value with an id that has no meaning fails. -/
theorem skip_undefined (raw : UInt8) (h : ¬ BondDataType.Defined raw) (b : InputBuffer)
    (version : CompactBinary.Version) :
    (¬ ∃ e, (compactBinary version).reader.skip (.ofUInt8 raw) b = .error e) ∧
      (CompactBinary.skipRules version).Ignores raw b ∧
      (¬ ∃ e, fastBinary.reader.skip (.ofUInt8 raw) b = .error e) ∧
      FastBinary.skipRules.Ignores raw b := by
  have hcompact : (CompactBinary.skipRules version).Ignores raw b :=
    SkipRules.ignores _ CompactBinary.readContainerBeginPair_ne_nil h b
  have hfast : FastBinary.skipRules.Ignores raw b :=
    SkipRules.ignores _ FastBinary.readContainerBeginPair_ne_nil h b
  refine ⟨?_, hcompact, ?_, hfast⟩
  · rintro ⟨e, he⟩
    cases he.symm.trans hcompact.value
  · rintro ⟨e, he⟩
    cases he.symm.trans hfast.value

/-- An element type of 31, two elements, and a byte that nothing of it looks at. -/
def strayElements : InputBuffer :=
  ofBlob [0x1f, 2, 7] (by decide)

theorem skip_undefined_stray :
    (compactBinary .v1).reader.skip .list strayElements = .ok ((), strayElements.advance 2) ∧
      (CompactBinary.skipRules .v1).Ignores 0x1f strayElements :=
  ⟨((skip_undefined 0x1f (by decide) strayElements .v1).2.1.elements 2 _ rfl).1,
    (skip_undefined 0x1f (by decide) strayElements .v1).2.1⟩

theorem skip_undefined_ok :
    ¬ ∀ (raw : UInt8), ¬ BondDataType.Defined raw → ∀ (b : InputBuffer)
      (version : CompactBinary.Version),
      (∃ e, (compactBinary version).reader.skip (.ofUInt8 raw) b = .error e) ∧
        (∃ e, fastBinary.reader.skip (.ofUInt8 raw) b = .error e) := by
  intro h
  obtain ⟨e, he⟩ := (h 0x1f (by decide) strayElements .v1).1
  have hok : (compactBinary .v1).reader.skip (.ofUInt8 0x1f) strayElements
      = .ok ((), strayElements) := rfl
  cases he.symm.trans hok

end Bond.Cpp

import Bond.Java.Counts

set_option autoImplicit false

/-! # Counts of the tagged protocols in Java

Each of the readers of a string, a container or a struct of Compact and Fast Binary next to the one
that takes as much as the payload announces. -/

namespace Bond.Java

open Bond.Cpp (BondDataType)
open Bond.Lib
open Decoder
open BinaryStreamReader VarUIntHelper

/-! ## What is used up by skipping -/

theorem takesAtLeast_readType : TakesAtLeast readType 1 :=
  takesAtLeast_readInt8.map _

theorem takesAtLeast_readMapBegin : TakesAtLeast readMapBegin 1 :=
  takesAtLeast_readType.bind_right fun _ =>
    (takesAtLeast_readType.mono (Nat.zero_le 1)).bind_right fun _ =>
      (takesAtLeast_decodeVarUInt32.mono (Nat.zero_le 1)).bind_right fun _ => .pure _

theorem takesAtLeast_skipString : TakesAtLeast skipString 1 :=
  takesAtLeast_decodeVarUInt32.bind_right fun count =>
    (takesAtLeast_skipBytes count.toInt).mono (Nat.zero_le _)

theorem takesAtLeast_skipWString : TakesAtLeast skipWString 1 :=
  takesAtLeast_decodeVarUInt32.bind_right fun count =>
    (takesAtLeast_skipBytes (count.toInt * 2)).mono (Nat.zero_le _)

theorem takesAtLeast_skipFields {readHeader : Reader BondDataType}
    {skip : BondDataType → Reader Unit} (hheader : TakesAtLeast readHeader 1)
    (hskip : ∀ type, TakesAtLeast (skip type) 0) (bound : Nat) :
    TakesAtLeast (skipFields readHeader skip bound) 1 := by
  induction bound with
  | zero => exact takesAtLeast_throwException _ 1
  | succ bound ih =>
      refine hheader.bind_right fun fieldType => ?_
      split
      · exact ih.mono (Nat.zero_le 1)
      · split
        · exact .pure ()
        · exact (hskip fieldType).bind_right fun _ => ih.mono (Nat.zero_le 1)

namespace CompactBinary

theorem takesAtLeast_skipBasic (type : Cpp.BasicType) : TakesAtLeast (skipBasic type) 1 := by
  cases type with
  | bool | uint8 | int8 => exact takesAtLeast_skipBytes 1
  | float => exact (takesAtLeast_skipBytes 4).mono (by decide)
  | double => exact (takesAtLeast_skipBytes 8).mono (by decide)
  | int16 | uint16 => exact takesAtLeast_decodeVarUInt16.map _
  | int32 | uint32 => exact takesAtLeast_decodeVarUInt32.map _
  | int64 | uint64 => exact takesAtLeast_decodeVarUInt64.map _
  | string => exact takesAtLeast_skipString
  | wstring => exact takesAtLeast_skipWString

theorem takesAtLeast_readListBegin (protocolVersion : Cpp.CompactBinary.Version) :
    TakesAtLeast (readListBegin protocolVersion) 1 := by
  refine takesAtLeast_readInt8.bind_right fun raw => ?_
  dsimp only
  split
  · exact .pure _
  · exact (takesAtLeast_decodeVarUInt32.mono (Nat.zero_le 1)).bind_right fun _ => .pure _

theorem takesAtLeast_skipFieldBegin : TakesAtLeast skipFieldBegin 1 := by
  refine takesAtLeast_readInt8.bind_right fun raw => ?_
  dsimp only
  split
  · exact ((takesAtLeast_skipBytes 1).mono (Nat.zero_le _)).bind_right fun _ => .pure _
  · split
    · exact ((takesAtLeast_skipBytes 2).mono (Nat.zero_le _)).bind_right fun _ => .pure _
    · exact .pure _

theorem takesAtLeast_skipStruct (protocolVersion : Cpp.CompactBinary.Version)
    {skip : BondDataType → Reader Unit} (hskip : ∀ type, TakesAtLeast (skip type) 0)
    (bound : Nat) : TakesAtLeast (skipStruct protocolVersion skip bound) 1 := by
  unfold skipStruct
  split
  · exact takesAtLeast_decodeVarUInt32.bind_right fun length =>
      (takesAtLeast_skipBytes length.toInt).mono (Nat.zero_le _)
  · exact takesAtLeast_skipFields takesAtLeast_skipFieldBegin hskip bound

end CompactBinary

namespace FastBinary

theorem takesAtLeast_skipBasic (type : Cpp.BasicType) : TakesAtLeast (skipBasic type) 1 := by
  cases type with
  | bool | uint8 | int8 => exact takesAtLeast_skipBytes 1
  | uint16 | int16 => exact (takesAtLeast_skipBytes 2).mono (by decide)
  | uint32 | int32 | float => exact (takesAtLeast_skipBytes 4).mono (by decide)
  | uint64 | int64 | double => exact (takesAtLeast_skipBytes 8).mono (by decide)
  | string => exact takesAtLeast_skipString
  | wstring => exact takesAtLeast_skipWString

theorem takesAtLeast_readListBegin : TakesAtLeast readListBegin 1 :=
  takesAtLeast_readType.bind_right fun _ =>
    (takesAtLeast_decodeVarUInt32.mono (Nat.zero_le 1)).bind_right fun _ => .pure _

theorem takesAtLeast_skipFieldBegin : TakesAtLeast skipFieldBegin 1 := by
  refine takesAtLeast_readType.bind_right fun fieldType => ?_
  split
  · exact .pure _
  · exact ((takesAtLeast_skipBytes 2).mono (Nat.zero_le _)).bind_right fun _ => .pure _

end FastBinary

/-- Skipping anything uses up a byte at least. -/
theorem takesAtLeast_skipWithin (p : Protocol) (fuel : Nat) (type : BondDataType) :
    TakesAtLeast (p.skipParts.skipWithin fuel type) 1 := by
  induction fuel generalizing type with
  | zero => exact takesAtLeast_throwException _ 1
  | succ fuel ih =>
      have hskip : ∀ type, TakesAtLeast (p.skipParts.skipWithin fuel type) 0 := fun type =>
        (ih type).mono (Nat.zero_le 1)
      have hlist : TakesAtLeast p.skipParts.readListBegin 1 := by
        cases p with
        | compactBinary version => exact CompactBinary.takesAtLeast_readListBegin version
        | fastBinary => exact FastBinary.takesAtLeast_readListBegin
      have hmap : TakesAtLeast p.skipParts.readMapBegin 1 := by
        cases p <;> exact takesAtLeast_readMapBegin
      have htimes : ∀ (n : Nat) (op : Reader Unit), TakesAtLeast op 0 →
          TakesAtLeast (do let _ ← repeatN n op; return ()) 0 := fun n op hop =>
        ((hop.repeatN n).mono (Nat.zero_le _)).bind_right fun _ => .pure ()
      have hlistContainer :
          TakesAtLeast (p.skipParts.skipListContainer (p.skipParts.skipWithin fuel)) 1 := by
        refine hlist.bind_right fun header => ?_
        dsimp only
        split
        · exact (takesAtLeast_skipBytes _).mono (Nat.zero_le _)
        · exact htimes _ _ (hskip _)
      cases type with
      | basic b =>
          cases p with
          | compactBinary version => exact CompactBinary.takesAtLeast_skipBasic b
          | fastBinary => exact FastBinary.takesAtLeast_skipBasic b
      | list => exact hlistContainer
      | set => exact hlistContainer
      | map =>
          refine hmap.bind_right fun header => ?_
          dsimp only
          split
          · exact (takesAtLeast_skipBytes _).mono (Nat.zero_le _)
          · exact htimes _ _ ((hskip _).bind_right fun _ => hskip _)
      | struct =>
          cases p with
          | compactBinary version =>
              exact CompactBinary.takesAtLeast_skipStruct version hskip (fuel + 1)
          | fastBinary =>
              exact takesAtLeast_skipFields FastBinary.takesAtLeast_skipFieldBegin hskip (fuel + 1)
      | _ => exact takesAtLeast_throwException _ 1

theorem skipWithin_of_width (p : Protocol) {type : BondDataType}
    (h : 0 < p.skipParts.getFixedTypeWidth type) (fuel : Nat) :
    p.skipParts.skipWithin (fuel + 1) type
      = skipBytes (p.skipParts.getFixedTypeWidth type : Int) := by
  cases p with
  | compactBinary version =>
      have hbasic := CompactBinary.width_isBasic type h
      cases type with
      | basic b => cases b <;> first | rfl | cases h
      | _ => cases hbasic
  | fastBinary =>
      have hbasic := FastBinary.width_isBasic type h
      cases type with
      | basic b => cases b <;> first | rfl | cases h
      | _ => cases hbasic

/-! ## Items of the tagged protocols -/

/-- What the readers of Compact and Fast Binary read or skip by a count or a length. The elements
    of a container are given by their reader; what is skipped may have containers in it. -/
inductive TaggedItem where
  | readString
  | readWString
  | readVector (p : Protocol) (elementType : BondDataType) (deserializeElement : Reader Object)
  /-- a list or a set -/
  | readList (p : Protocol) (elementType : BondDataType) (deserializeElement : Reader Object)
  | readMap (p : Protocol) (keyType valueType : BondDataType)
      (deserializeKey deserializeElement : Reader Object)
  | readNullable (p : Protocol) (valueType : BondDataType) (deserializeElement : Reader Object)
  | readBlob (p : Protocol)
  | skipString
  | skipWString
  | skipListContainer (p : Protocol) (fuel : Nat)
  | skipMapContainer (p : Protocol) (fuel : Nat)
  /-- a struct with its length -/
  | skipStruct (skip : BondDataType → Reader Unit) (bound : Nat)

namespace TaggedItem

/-- What is read in front of an item. -/
@[reducible]
def Header : TaggedItem → Type
  | readString | readWString | skipString | skipWString | skipStruct _ _ => Int32
  | readMap _ _ _ _ _ | skipMapContainer _ _ => BondDataType × BondDataType × Int32
  | _ => BondDataType × Int32

/-- What is returned for an item. -/
@[reducible]
def Result : TaggedItem → Type
  | readString | readWString => List UInt8
  | skipString | skipWString | skipListContainer _ _ | skipMapContainer _ _ | skipStruct _ _ => Unit
  | _ => Object

/-- An item, as it is taken and as it is announced. -/
def counted : (item : TaggedItem) → Counted (List UInt8) Exception item.Header item.Result
  | readString =>
      { op := Java.readString
        header := decodeVarUInt32
        take := fun codeUnitCount =>
          if codeUnitCount = 0 then return [] else readBytes codeUnitCount
        op_eq := rfl
        exactly := fun codeUnitCount => readExactly (unsigned codeUnitCount) }
  | readWString =>
      { op := Java.readWString
        header := decodeVarUInt32
        take := fun codeUnitCount =>
          if codeUnitCount = 0 then return [] else readBytes (codeUnitCount * 2)
        op_eq := rfl
        exactly := fun codeUnitCount => readExactly (2 * unsigned codeUnitCount) }
  | readVector p elementType deserializeElement =>
      { op := deserializeElements p.reader newArrayList elementType deserializeElement
        header := p.reader.readListBegin
        take := fun (wireType, count) =>
          if wireType ≠ elementType then
            throwException .invalidBondData
          else do
            newArrayList count
            return .collection (← repeatN (turns count) deserializeElement)
        op_eq := rfl
        exactly := fun (_, count) => do
          return .collection (← repeatN (unsigned count) deserializeElement) }
  | readList p elementType deserializeElement =>
      { op := deserializeElements p.reader newEmpty elementType deserializeElement
        header := p.reader.readListBegin
        take := fun (wireType, count) =>
          if wireType ≠ elementType then
            throwException .invalidBondData
          else do
            newEmpty count
            return .collection (← repeatN (turns count) deserializeElement)
        op_eq := rfl
        exactly := fun (_, count) => do
          return .collection (← repeatN (unsigned count) deserializeElement) }
  | readMap p keyType valueType deserializeKey deserializeElement =>
      { op := deserializeMap p.reader keyType valueType deserializeKey deserializeElement
        header := p.reader.readMapBegin
        take := fun (wireKey, wireValue, count) =>
          if wireKey ≠ keyType then
            throwException .invalidBondData
          else if wireValue ≠ valueType then
            throwException .invalidBondData
          else do
            let entries ← repeatN (turns count) do
              let mapEntryKey ← deserializeKey
              let mapEntryValue ← deserializeElement
              return (mapEntryKey, mapEntryValue)
            return .map entries
        op_eq := rfl
        exactly := fun (_, _, count) => do
          let entries ← repeatN (unsigned count) do
            let mapEntryKey ← deserializeKey
            let mapEntryValue ← deserializeElement
            return (mapEntryKey, mapEntryValue)
          return .map entries }
  | readNullable p valueType deserializeElement =>
      { op := deserializeNullable p.reader valueType deserializeElement
        header := p.reader.readListBegin
        take := fun (wireType, count) =>
          if wireType ≠ valueType then
            throwException .invalidBondData
          else if count = 1 then
            deserializeElement
          else if count > 1 then
            throwException .invalidBondData
          else
            return .null
        op_eq := rfl
        exactly := fun (_, count) =>
          match unsigned count with
          | 0 => return .null
          | 1 => deserializeElement
          | _ => throwException .invalidBondData }
  | readBlob p =>
      { op := deserializeBlob p.reader
        header := p.reader.readListBegin
        take := fun (wireType, count) =>
          if wireType ≠ .basic .int8 then
            throwException .invalidBondData
          else do
            return .blob (← p.reader.readBytes count)
        op_eq := rfl
        exactly := fun (_, count) => do
          return .blob (← readExactly (unsigned count)) }
  | skipString =>
      { op := Java.skipString
        header := decodeVarUInt32
        take := fun count => skipBytes count.toInt
        op_eq := rfl
        exactly := fun count => skipBytes (unsigned count) }
  | skipWString =>
      { op := Java.skipWString
        header := decodeVarUInt32
        take := fun count => skipBytes (count.toInt * 2)
        op_eq := rfl
        exactly := fun count => skipBytes (unsigned count * 2 : Nat) }
  | skipListContainer p fuel =>
      { op := p.skipParts.skipListContainer (p.skipParts.skipWithin (fuel + 1))
        header := p.skipParts.readListBegin
        take := fun (elementType, count) =>
          let elementTypeFixedWidth := p.skipParts.getFixedTypeWidth elementType
          if elementTypeFixedWidth > 0 then
            skipBytes (count.toInt * elementTypeFixedWidth)
          else do
            let _ ← repeatN (countdown count) (p.skipParts.skipWithin (fuel + 1) elementType)
            return ()
        op_eq := rfl
        exactly := fun (elementType, count) =>
          times (unsigned count) (p.skipParts.skipWithin (fuel + 1) elementType) }
  | skipMapContainer p fuel =>
      { op := p.skipParts.skipMapContainer (p.skipParts.skipWithin (fuel + 1))
        header := p.skipParts.readMapBegin
        take := fun (keyType, elementType, count) =>
          let width := p.skipParts.getFixedTypeWidth elementType
          if width > 0 ∧ width > 0 then
            skipBytes (count.toInt * ((width + width : Nat) : Int))
          else do
            let _ ← repeatN (countdown count) do
              p.skipParts.skipWithin (fuel + 1) keyType
              p.skipParts.skipWithin (fuel + 1) elementType
            return ()
        op_eq := rfl
        exactly := fun (keyType, elementType, count) =>
          times (unsigned count) do
            p.skipParts.skipWithin (fuel + 1) keyType
            p.skipParts.skipWithin (fuel + 1) elementType }
  | skipStruct skip bound =>
      { op := CompactBinary.skipStruct .v2 skip bound
        header := decodeVarUInt32
        take := fun length => skipBytes length.toInt
        op_eq := rfl
        exactly := fun length => skipBytes (unsigned length) }

/-- Two entries of a map, which are skipped by the type of the key and by that of the value -/
def skipEntry (p : Protocol) (fuel : Nat) (keyType elementType : BondDataType) : Reader Unit := do
  p.skipParts.skipWithin (fuel + 1) keyType
  p.skipParts.skipWithin (fuel + 1) elementType

/-- When an item is taken as it is announced: mostly if its count is less than 2^31, if it is taken
    at all. -/
def fine : (item : TaggedItem) → item.Header → List UInt8 → Prop
  | readString, _, _ => True
  | readWString, codeUnitCount, rest =>
      -- doubled as an `int`, the count may be small again
      ¬ (2 ^ 31 ≤ unsigned codeUnitCount ∧ unsigned codeUnitCount < 2 ^ 31 + 2 ^ 30 ∧
        2 * (unsigned codeUnitCount - 2 ^ 31) ≤ rest.length)
  | readVector _ _ _, _, _ => True
  | readList _ elementType _, (wireType, count), _ =>
      wireType = elementType → unsigned count < 2 ^ 31
  | readMap _ keyType valueType _ _, (wireKey, wireValue, count), _ =>
      wireKey = keyType → wireValue = valueType → unsigned count < 2 ^ 31
  | readNullable _ valueType _, (wireType, count), _ =>
      wireType = valueType → unsigned count < 2 ^ 31
  | readBlob _, _, _ => True
  | skipString, count, _ => unsigned count < 2 ^ 31
  | skipWString, count, _ => unsigned count < 2 ^ 31
  | skipListContainer p _, (elementType, count), _ =>
      if 0 < p.skipParts.getFixedTypeWidth elementType then
        unsigned count < 2 ^ 31
      else
        unsigned count ≤ 2 ^ 31
  | skipMapContainer p fuel, (keyType, elementType, count), rest =>
      let width := p.skipParts.getFixedTypeWidth elementType
      if 0 < width then
        -- the keys are taken for as wide as the values
        unsigned count < 2 ^ 31 ∧
          (rest.length < unsigned count * (width + width) ∨
            (times (unsigned count) (skipEntry p fuel keyType elementType)).run rest
              = .ok ((), rest.drop (unsigned count * (width + width))))
      else
        unsigned count ≤ 2 ^ 31
  | skipStruct _ _, length, _ => unsigned length < 2 ^ 31

theorem take_skipList_iff (p : Protocol) (fuel : Nat) (elementType : BondDataType)
    (count : Int32) (s : List UInt8) :
    (∀ u s', ((skipListContainer p fuel).counted.take (elementType, count)).run s = .ok (u, s') →
      ((skipListContainer p fuel).counted.exactly (elementType, count)).run s = .ok (u, s')) ↔
      (skipListContainer p fuel).fine (elementType, count) s := by
  have htake : (skipListContainer p fuel).counted.take (elementType, count)
      = if 0 < p.skipParts.getFixedTypeWidth elementType then
          skipBytes (count.toInt * p.skipParts.getFixedTypeWidth elementType)
        else
          times (countdown count) (p.skipParts.skipWithin (fuel + 1) elementType) := rfl
  have hexactly : (skipListContainer p fuel).counted.exactly (elementType, count)
      = times (unsigned count) (p.skipParts.skipWithin (fuel + 1) elementType) := rfl
  have hfine : (skipListContainer p fuel).fine (elementType, count) s
      = if 0 < p.skipParts.getFixedTypeWidth elementType then unsigned count < 2 ^ 31
        else unsigned count ≤ 2 ^ 31 := rfl
  rw [htake, hexactly, hfine]
  by_cases hwidth : 0 < p.skipParts.getFixedTypeWidth elementType
  · rw [if_pos hwidth, if_pos hwidth, skipWithin_of_width p hwidth fuel,
      ← skipBytes_count_iff count hwidth s]
    refine forall_congr' fun u => forall_congr' fun s' => imp_congr_right fun _ => ?_
    rw [skipBytes_ok_iff, Int.toNat_natCast]
    exact times_skipBytes_ok_iff
  · rw [if_neg hwidth, if_neg hwidth]
    exact countdown_exactly_iff (takesAtLeast_skipWithin p _ elementType) count s

theorem take_skipMap_iff (p : Protocol) (fuel : Nat) (keyType elementType : BondDataType)
    (count : Int32) (s : List UInt8) :
    (∀ u s', ((skipMapContainer p fuel).counted.take (keyType, elementType, count)).run s
        = .ok (u, s') →
      ((skipMapContainer p fuel).counted.exactly (keyType, elementType, count)).run s
        = .ok (u, s')) ↔
      (skipMapContainer p fuel).fine (keyType, elementType, count) s := by
  have hentry : TakesAtLeast (skipEntry p fuel keyType elementType) 1 :=
    (takesAtLeast_skipWithin p _ keyType).bind_right fun _ =>
      (takesAtLeast_skipWithin p _ elementType).mono (Nat.zero_le 1)
  generalize hw : p.skipParts.getFixedTypeWidth elementType = width
  have htake : (skipMapContainer p fuel).counted.take (keyType, elementType, count)
      = if width > 0 ∧ width > 0 then skipBytes (count.toInt * ((width + width : Nat) : Int))
        else times (countdown count) (skipEntry p fuel keyType elementType) := by
    rw [← hw]
    rfl
  have hexactly : (skipMapContainer p fuel).counted.exactly (keyType, elementType, count)
      = times (unsigned count) (skipEntry p fuel keyType elementType) := rfl
  have hfine : (skipMapContainer p fuel).fine (keyType, elementType, count) s
      = if 0 < width then
          unsigned count < 2 ^ 31 ∧ (s.length < unsigned count * (width + width) ∨
            (times (unsigned count) (skipEntry p fuel keyType elementType)).run s
              = .ok ((), s.drop (unsigned count * (width + width))))
        else unsigned count ≤ 2 ^ 31 := by
    rw [← hw]
    rfl
  rw [htake, hexactly, hfine]
  by_cases hwidth : 0 < width
  · rw [if_pos ⟨hwidth, hwidth⟩, if_pos hwidth]
    exact skipBytes_entries_iff hentry count (width + width) s
  · rw [if_neg fun h => hwidth h.1, if_neg hwidth]
    exact countdown_exactly_iff hentry count s

/-- An item of a tagged protocol is taken as it is announced in the cases of `fine`, and in no
    others. -/
theorem counted_takesExactly_iff (item : TaggedItem) (s : List UInt8) :
    item.counted.TakesExactly s ↔ item.counted.Announces item.fine s := by
  rw [Counted.takesExactly_iff]
  refine Counted.announces_congr _ (fun h s₁ => ?_) s
  cases item with
  | readString =>
      refine ⟨fun _ => trivial, fun _ bs s' hrun => ?_⟩
      have htake := unless_zero (f := id) rfl (g := id) rfl h
      simp only [id, bind_pure] at htake
      change (if h = 0 then pure [] else readBytes h) s₁ = _ at hrun
      rw [htake] at hrun
      exact exactly_of_readBytes hrun
  | readWString =>
      have htake := unless_zero (f := id) rfl (g := (· * 2)) rfl h
      have hread := readBytes_double_iff id h s₁
      simp only [id, bind_pure] at htake hread
      change (∀ bs s', (if h = 0 then pure [] else readBytes (h * 2)) s₁ = _ → _) ↔ _
      rw [htake]
      exact hread
  | readVector p elementType deserializeElement =>
      obtain ⟨wireType, count⟩ := h
      refine ⟨fun _ => trivial, fun _ => refused_iff.2 fun _ b s' hrun => ?_⟩
      exact exactly_of_newArrayList Object.collection hrun
  | readList p elementType deserializeElement =>
      obtain ⟨wireType, count⟩ := h
      have hlist := repeatN_exactly_iff deserializeElement
        (fun _ _ => Object.collection.inj) count s₁
      exact refused_iff.trans (imp_congr not_not hlist)
  | readMap p keyType valueType deserializeKey deserializeElement =>
      obtain ⟨wireKey, wireValue, count⟩ := h
      have hmap := repeatN_exactly_iff (do
        let mapEntryKey ← deserializeKey
        let mapEntryValue ← deserializeElement
        return (mapEntryKey, mapEntryValue)) (fun _ _ => Object.map.inj) count s₁
      exact refused_iff.trans (imp_congr not_not (refused_iff.trans (imp_congr not_not hmap)))
  | readNullable p valueType deserializeElement =>
      obtain ⟨wireType, count⟩ := h
      have hvalue := nullable_exactly_iff deserializeElement Object.null count s₁
      exact refused_iff.trans (imp_congr not_not hvalue)
  | readBlob p =>
      obtain ⟨wireType, count⟩ := h
      refine ⟨fun _ => trivial, fun _ => refused_iff.2 fun _ b s' hrun => ?_⟩
      have hreader : p.reader.readBytes count = readBytes count := by
        cases p <;> rfl
      rw [hreader] at hrun
      obtain ⟨data, s₂, hread, hrun⟩ := run_bind_ok hrun
      have hexactly := exactly_of_readBytes hread
      show (readExactly (unsigned count) >>= fun data => pure (Object.blob data)).run s₁ = _
      rw [StateT.run_bind, show (readExactly (unsigned count)).run s₁ = _ from hexactly]
      exact hrun
  | skipString => exact skipBytes_length_iff h s₁
  | skipWString => exact skipBytes_count_iff h Nat.two_pos s₁
  | skipListContainer p fuel =>
      obtain ⟨elementType, count⟩ := h
      exact take_skipList_iff p fuel elementType count s₁
  | skipMapContainer p fuel =>
      obtain ⟨keyType, elementType, count⟩ := h
      exact take_skipMap_iff p fuel keyType elementType count s₁
  | skipStruct skip bound => exact skipBytes_length_iff h s₁

end TaggedItem

end Bond.Java

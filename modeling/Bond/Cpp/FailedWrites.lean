import Bond.Cpp.StreamContents

set_option autoImplicit false

/-! # Writes that find no memory

`OutputMemoryStream::Write` (cpp/inc/bond/stream/output_buffer.h) updates the stream step by step,
and needs memory in between: for its list of blobs, and for the next buffer. What a write that
throws leaves behind is what it has done before. -/

namespace Bond.Cpp

open Varint

namespace OutputMemoryStream

/-- A failure, with the stream as it is then. -/
abbrev Interrupted := StreamFailure × OutputMemoryStream

/-- `Write(const void*, uint32_t)`, where `insert` tells whether there is memory for one more blob
    in the list and `allocate` whether there is memory for the next buffer. -/
def writeBytesIn (insert allocate : Bool) (noinit : Nat → Nat → UInt8) (s : OutputMemoryStream)
    (value : List UInt8) : Except Interrupted OutputMemoryStream := do
  let size := UInt32.ofNat value.length
  let left := s.bufferSize - s.rangeSize - s.rangeOffset
  let sizePart := if left > size then size else left
  let s ← (s.append (value.take sizePart.toNat)).mapError fun e => (e, s)
  if size ≠ sizePart then
    let size := size - sizePart
    let value := value.drop sizePart.toNat
    -- `emplace_back` leaves the list as it is if it throws
    if s.rangeSize > 0 ∧ insert = false then
      throw (StreamFailure.badAlloc, s)
    let s := s.snap
    -- cap buffer to prevent overflow
    if s.bufferSize > (0xFFFFFFFF : UInt32) >>> 1 then
      throw (StreamFailure.badAlloc, s)
    let s := { s with bufferSize := s.grownSize size }
    if allocate = false then
      throw (StreamFailure.badAlloc, s)
    let s := { s.allocate noinit s.bufferSize with rangeSize := size }
    (s.memcpy s.rangePtr value).mapError fun e => (e, s)
  else
    return s

/-- The stream is as before: `GetBuffers` returns the same bytes, the current range is in the
    buffer, and what is written next is appended. -/
def Unharmed (s t : OutputMemoryStream) : Prop :=
  t.contents t.getBuffers = s.contents s.getBuffers ∧
    t.rangeOffset.toNat + t.rangeSize.toNat ≤ t.bufferSize.toNat ∧
    ∀ (noinit : Nat → Nat → UInt8) (writes : List Write), (∀ w ∈ writes, w.Sized) →
      t.Appends (writes.flatMap Write.written) (t.run noinit writes)

/-- The write has changed nothing when memory runs out: the buffer was full before, so that no byte
    was copied, and either the list cannot take the current range, or there is none and the buffer
    is not to grow, because of the cap or because half of its one byte is nothing. -/
def Survives (insert : Bool) (s : OutputMemoryStream) (value : List UInt8) : Prop :=
  s.rangeOffset.toNat + s.rangeSize.toNat = s.bufferSize.toNat ∧
    if s.rangeSize > 0 then
      insert = false
    else
      s.bufferSize > (0xFFFFFFFF : UInt32) >>> 1 ∨ (s.bufferSize = 1 ∧ value.length = 1)

section

variable {insert allocate : Bool} {noinit : Nat → Nat → UInt8} {s t : OutputMemoryStream}
  {value : List UInt8} {e : StreamFailure}

theorem mapError_fst (r : Except StreamFailure OutputMemoryStream) (s : OutputMemoryStream) :
    (r.mapError fun e => (e, s)).mapError Prod.fst = r := by
  cases r <;> rfl

theorem mapError_ne_error {r : Except StreamFailure OutputMemoryStream} {v : OutputMemoryStream}
    (hr : r = .ok v) {f : StreamFailure → Interrupted} {x : Interrupted} :
    r.mapError f ≠ .error x := by
  rw [hr]
  rintro ⟨⟩

/-- With enough memory it is the write of the other proofs. -/
theorem writeBytesIn_eq (noinit : Nat → Nat → UInt8) (s : OutputMemoryStream)
    (value : List UInt8) :
    (s.writeBytesIn true true noinit value).mapError Prod.fst = s.writeBytes noinit value := by
  unfold writeBytesIn writeBytes
  generalize UInt32.ofNat value.length = size
  obtain ⟨sizePart, hpart, -⟩ := sizePart_spec size (s.bufferSize - s.rangeSize - s.rangeOffset)
  simp only [hpart]
  cases happend : s.append (value.take sizePart.toNat) with
  | error e => rfl
  | ok t =>
      show Except.mapError Prod.fst (if size ≠ sizePart then
        if t.rangeSize > 0 ∧ true = false then _
        else if t.snap.bufferSize > (0xFFFFFFFF : UInt32) >>> 1 then
          Except.error (StreamFailure.badAlloc, t.snap)
        else if true = false then _ else _
        else Except.ok t)
        = if size ≠ sizePart then
            if t.snap.bufferSize > (0xFFFFFFFF : UInt32) >>> 1 then
              Except.error StreamFailure.badAlloc else _ else Except.ok t
      by_cases hmore : size = sizePart
      · rw [if_neg (not_not_intro hmore), if_neg (not_not_intro hmore)]
        rfl
      · rw [if_pos hmore, if_pos hmore, if_neg (by simp)]
        split
        · rfl
        · rw [if_neg (by simp)]
          exact mapError_fst _ _

/-! ## What a write leaves behind -/

/-- Where a write is interrupted: the bytes that there was room for are in the stream `u`, and then
    the list has no room, or the buffer is at its cap, or there is no memory for the next one. -/
theorem interrupted_cases (h : s.Inv) (hvalue : value.length < 2 ^ 32)
    (hthrow : s.writeBytesIn insert allocate noinit value = .error (e, t)) :
    ∃ u, u.Inv ∧
      u.all = s.all ++ value.take (s.bufferSize.toNat - s.rangeSize.toNat - s.rangeOffset.toNat) ∧
      u.bufferSize = s.bufferSize ∧ u.rangeOffset = s.rangeOffset ∧
      u.rangeOffset.toNat + u.rangeSize.toNat = u.bufferSize.toNat ∧
      s.bufferSize.toNat - s.rangeSize.toNat - s.rangeOffset.toNat < value.length ∧
      ((u.rangeSize > 0 ∧ insert = false ∧ t = u) ∨
        (¬ (u.rangeSize > 0 ∧ insert = false) ∧
          u.bufferSize > (0xFFFFFFFF : UInt32) >>> 1 ∧ t = u.snap) ∨
        (¬ (u.rangeSize > 0 ∧ insert = false) ∧
          ¬ u.bufferSize > (0xFFFFFFFF : UInt32) >>> 1 ∧
          ∃ size : UInt32, size.toNat = value.length
              - (s.bufferSize.toNat - s.rangeSize.toNat - s.rangeOffset.toNat) ∧
            t = { u.snap with bufferSize := u.grownSize size })) := by
  have hrange := h.range_le
  have hsize : (UInt32.ofNat value.length).toNat = value.length :=
    UInt32.toNat_ofNat_of_lt' hvalue
  have hleft := toNat_left h
  unfold writeBytesIn at hthrow
  generalize UInt32.ofNat value.length = size at hsize hthrow
  generalize s.bufferSize - s.rangeSize - s.rangeOffset = left at hleft hthrow
  obtain ⟨sizePart, hpart, hmin⟩ := sizePart_spec size left
  have htake : (value.take sizePart.toNat).length = sizePart.toNat := by
    rw [List.length_take]
    omega
  obtain ⟨u, hu, hinv, hall, hbuffer, hoffset, hgrow⟩ :=
    append_spec h (value.take sizePart.toNat) (by omega)
  simp only [hpart, hu] at hthrow
  change (if size ≠ sizePart then
    if u.rangeSize > 0 ∧ insert = false then Except.error (StreamFailure.badAlloc, u)
    else if u.snap.bufferSize > (0xFFFFFFFF : UInt32) >>> 1 then
      Except.error (StreamFailure.badAlloc, u.snap)
    else if allocate = false then
      Except.error (StreamFailure.badAlloc,
        { u.snap with bufferSize := u.snap.grownSize (size - sizePart) })
    else _
    else Except.ok u) = _ at hthrow
  by_cases hmore : size = sizePart
  · rw [if_neg (not_not_intro hmore)] at hthrow
    cases hthrow
  · have hpartLeft : sizePart.toNat = left.toNat := by
      by_contra hne
      exact hmore (UInt32.toNat_inj.1 (by omega))
    have hlt : left.toNat < size.toNat := by
      by_contra hge
      exact hmore (UInt32.toNat_inj.1 (by omega))
    rw [if_pos hmore] at hthrow
    refine ⟨u, hinv, ?_, hbuffer, hoffset, ?_, by omega, ?_⟩
    · rw [hall, hpartLeft, hleft]
    · rw [hoffset, hbuffer]
      omega
    · by_cases hinsert : u.rangeSize > 0 ∧ insert = false
      · rw [if_pos hinsert] at hthrow
        cases hthrow
        exact .inl ⟨hinsert.1, hinsert.2, rfl⟩
      rw [if_neg hinsert, snap_bufferSize] at hthrow
      by_cases hcap : u.bufferSize > (0xFFFFFFFF : UInt32) >>> 1
      · rw [if_pos hcap] at hthrow
        cases hthrow
        exact .inr (.inl ⟨hinsert, hcap, rfl⟩)
      rw [if_neg hcap] at hthrow
      have hgrown : u.snap.grownSize (size - sizePart) = u.grownSize (size - sizePart) := by
        unfold grownSize
        rw [snap_bufferSize]
      have hrest : (size - sizePart).toNat = value.length
          - (s.bufferSize.toNat - s.rangeSize.toNat - s.rangeOffset.toNat) := by
        rw [UInt32.toNat_sub_of_le _ _ (UInt32.le_iff_toNat_le.2 (by omega))]
        omega
      by_cases hallocate : allocate = false
      · rw [if_pos hallocate, hgrown] at hthrow
        cases hthrow
        exact .inr (.inr ⟨hinsert, hcap, size - sizePart, hrest, rfl⟩)
      · -- the rest is copied into a buffer that is large enough
        rw [if_neg hallocate] at hthrow
        have hdrop : (value.drop sizePart.toNat).length = (size - sizePart).toNat := by
          rw [List.length_drop, hrest]
          omega
        obtain ⟨v, hv⟩ := grow_spec noinit hinv hdrop
        exact (mapError_ne_error hv.1 hthrow).elim

/-- A range of a buffer is as long as it says. -/
theorem range_length (h : s.Inv) : (s.range.content s.memory).length = s.rangeSize.toNat := by
  obtain ⟨⟨m, hm, hlength⟩, -, hrange, -⟩ := h
  rw [range, content_range, slice, hm, Option.getD_some, List.length_take, List.length_drop]
  omega

/-- A current range that is in the list as well counts twice. -/
theorem contents_snap (s : OutputMemoryStream) (bufferSize : UInt32) :
    contents { s.snap with bufferSize := bufferSize }
        (getBuffers { s.snap with bufferSize := bufferSize })
      = s.all ++ s.range.content s.memory := by
  have hrange :
      ({ s.snap with bufferSize := bufferSize } : OutputMemoryStream).range = s.range := by
    unfold snap
    split <;> rfl
  rw [contents_getBuffers]
  show (s.snap.blobs ++ [_]).flatMap (Blob.content s.snap.memory) = _
  rw [hrange, snap_memory, List.flatMap_append, List.flatMap_singleton]
  exact congrArg (· ++ _) (snap_all s)

theorem toNat_grownSize (hcap : ¬ s.bufferSize > (0xFFFFFFFF : UInt32) >>> 1) (size : UInt32) :
    (s.grownSize size).toNat
      = max (s.bufferSize.toNat + if s.bufferSize.toNat = 0 then 4096 else s.bufferSize.toNat / 2)
          size.toNat := by
  have hle : s.bufferSize.toNat ≤ 2 ^ 31 - 1 := UInt32.not_lt.1 hcap
  have hmax (x y : UInt32) : (max x y).toNat = max x.toNat y.toNat := by
    show (if x ≤ y then y else x).toNat = _
    split
    · next hxy => exact (Nat.max_eq_right hxy).symm
    · next hxy => exact (Nat.max_eq_left (Nat.le_of_lt (Nat.lt_of_not_le hxy))).symm
  unfold grownSize
  rw [hmax]
  by_cases hzero : s.bufferSize = 0
  · rw [if_neg (not_not_intro hzero), hzero]
    rfl
  · have hpos : s.bufferSize.toNat ≠ 0 := fun h => hzero (UInt32.toNat_inj.1 h)
    have hhalf : (s.bufferSize / 2).toNat = s.bufferSize.toNat / 2 := UInt32.toNat_div _ _
    rw [if_pos hzero, UInt32.toNat_add, hhalf, Nat.mod_eq_of_lt (by omega), if_neg hpos]

/-- The next buffer is larger, unless half of this one is nothing. -/
theorem grownSize_cases (hcap : ¬ s.bufferSize > (0xFFFFFFFF : UInt32) >>> 1) {size : UInt32}
    (hsize : 0 < size.toNat) :
    (s.bufferSize = 1 ∧ size.toNat = 1 ∧ s.grownSize size = s.bufferSize) ∨
      (¬ (s.bufferSize = 1 ∧ size.toNat = 1) ∧ s.bufferSize < s.grownSize size) := by
  have hgrown := toNat_grownSize hcap size
  by_cases hone : s.bufferSize = 1 ∧ size.toNat = 1
  · refine .inl ⟨hone.1, hone.2, UInt32.toNat_inj.1 ?_⟩
    rw [hgrown, hone.1, hone.2]
    rfl
  · refine .inr ⟨hone, UInt32.lt_iff_toNat_lt.2 ?_⟩
    have hne : ¬ (s.bufferSize.toNat = 1 ∧ size.toNat = 1) := fun h =>
      hone ⟨UInt32.toNat_inj.1 h.1, h.2⟩
    rw [hgrown]
    split <;> omega

/-- A buffer that is taken for larger than it is. -/
theorem run_outOfBounds {m : List UInt8} (hm : t.memory[t.buffer]? = some m)
    (hrange : t.rangeSize = 0) (hptr : t.rangePtr = m.length)
    (hoffset : t.rangeOffset < t.bufferSize) :
    t.run noinit [.bytes [0]] = .error .outOfBounds := by
  have hleft : ∃ k, (t.bufferSize - t.rangeSize - t.rangeOffset).toNat = k + 1 := by
    rw [UInt32.lt_iff_toNat_lt] at hoffset
    rw [hrange, UInt32.sub_zero,
      UInt32.toNat_sub_of_le _ _ (UInt32.le_iff_toNat_le.2 (Nat.le_of_lt hoffset))]
    exact ⟨t.bufferSize.toNat - t.rangeOffset.toNat - 1, by omega⟩
  obtain ⟨k, hk⟩ := hleft
  obtain ⟨sizePart, hpart, hmin⟩ := sizePart_spec 1 (t.bufferSize - t.rangeSize - t.rangeOffset)
  have hone : sizePart.toNat = 1 := by
    rw [hmin, hk]
    show min 1 (k + 1) = 1
    omega
  have happend : t.append [0] = .error .outOfBounds := by
    unfold append memcpy
    rw [hm, hrange]
    show (if t.rangePtr + 0 + 1 ≤ m.length then _ else _) >>= _ = _
    rw [if_neg (by omega)]
    rfl
  have hwrite : t.writeBytes noinit [0] = .error .outOfBounds := by
    unfold writeBytes
    simp only [show UInt32.ofNat [(0 : UInt8)].length = 1 from rfl, hpart, hone]
    show t.append [0] >>= _ = _
    rw [happend]
    rfl
  show (t.writeBytes noinit [0] >>= fun s => pure s) = _
  rw [hwrite]
  rfl

theorem unharmed_of_inv (h : t.Inv) (hall : t.all = s.all) : Unharmed s t := by
  refine ⟨?_, h.range_le, fun noinit writes hsized => appends_run noinit writes hsized h⟩
  rw [contents_getBuffers, contents_getBuffers, hall]

/-- A write that throws leaves the stream as it was if and only if the buffer was full, and the list
    had no room for the current range or there was none and the buffer did not grow. -/
theorem unharmed_iff (h : s.Inv) (hvalue : value.length < 2 ^ 32)
    (hthrow : s.writeBytesIn insert allocate noinit value = .error (e, t)) :
    Unharmed s t ↔ Survives insert s value := by
  obtain ⟨u, hinv, hall, hbuffer, hoffset, hfull, hlt, hcases⟩ :=
    interrupted_cases h hvalue hthrow
  have hrange := h.range_le
  generalize hleft : s.bufferSize.toNat - s.rangeSize.toNat - s.rangeOffset.toNat = left
    at hall hlt hcases
  have hsize : u.rangeSize.toNat = s.rangeSize.toNat + left := by
    rw [hoffset, hbuffer] at hfull
    omega
  have hroom : s.rangeOffset.toNat + s.rangeSize.toNat = s.bufferSize.toNat ↔ left = 0 := by omega
  have hcopied : (value.take left).length = left := List.length_take_of_le (Nat.le_of_lt hlt)
  -- what was there before, what has been copied, and the current range once more
  have hlength (more : List UInt8) :
      s.all ++ value.take left ++ more = s.all ↔ left = 0 ∧ more = [] := by
    rw [List.append_assoc, List.append_right_eq_self, List.append_eq_nil_iff,
      ← List.length_eq_zero_iff, hcopied]
  have hempty : u.range.content u.memory = [] ↔ u.rangeSize.toNat = 0 := by
    rw [← List.length_eq_zero_iff, range_length hinv]
  have hpos (x : UInt32) : x > 0 ↔ x.toNat ≠ 0 := by
    rw [gt_iff_lt, UInt32.lt_iff_toNat_lt]
    exact Nat.pos_iff_ne_zero
  simp only [Survives, hroom, hpos]
  simp only [hpos] at hcases
  rcases hcases with ⟨hrangePos, hinsert, rfl⟩ | ⟨hinsert, hcap, rfl⟩ |
    ⟨hinsert, hcap, size, hrest, rfl⟩
  · -- the list has no room, and the bytes that were copied are in the stream
    constructor
    · rintro ⟨hcontents, -⟩
      rw [contents_getBuffers, contents_getBuffers, hall] at hcontents
      obtain ⟨hleft0, -⟩ := (hlength []).1 (by rw [List.append_nil]; exact hcontents)
      exact ⟨hleft0, by rw [if_pos (by omega)]; exact hinsert⟩
    · rintro ⟨rfl, -⟩
      exact unharmed_of_inv hinv (by rw [hall, List.take_zero, List.append_nil])
  · -- the buffer is at its cap, and the current range is in the list
    constructor
    · rintro ⟨hcontents, -⟩
      have hsnap := contents_snap u u.snap.bufferSize
      change u.snap.contents u.snap.getBuffers = _ at hsnap
      rw [hsnap, contents_getBuffers, hall, hlength, hempty] at hcontents
      refine ⟨hcontents.1, ?_⟩
      rw [if_neg (by omega), ← hbuffer]
      exact .inl hcap
    · rintro ⟨rfl, hsurvives⟩
      have hzero : ¬ s.rangeSize.toNat ≠ 0 := by
        intro hne
        rw [if_pos hne] at hsurvives
        exact hinsert ⟨by omega, hsurvives⟩
      have hsnap : u.snap = u := if_neg (by rw [hpos]; omega)
      rw [hsnap]
      exact unharmed_of_inv hinv (by rw [hall, List.take_zero, List.append_nil])
  · -- there is no memory for a buffer of the size that is noted already
    have hgrown := grownSize_cases hcap (show 0 < size.toNat by omega)
    constructor
    · rintro ⟨hcontents, -, hruns⟩
      rw [contents_snap, contents_getBuffers, hall, hlength, hempty] at hcontents
      obtain ⟨hleft0, hzero⟩ := hcontents
      have hsnap : u.snap = u := if_neg (by rw [hpos]; omega)
      refine ⟨hleft0, ?_⟩
      rw [if_neg (by omega), ← hbuffer]
      rcases hgrown with ⟨hone, hsize1, -⟩ | ⟨-, hgrows⟩
      · exact .inr ⟨hone, by omega⟩
      · -- the next byte is copied out of the bounds of the buffer
        obtain ⟨m, hm, hmlength⟩ := hinv.buffer
        rw [hsnap] at hruns
        have hbyte := hruns (fun _ _ => 0) [.bytes [0]] (by decide)
        have hrun : run (fun _ _ => 0) { u with bufferSize := u.grownSize size } [.bytes [0]]
            = .error .outOfBounds := by
          refine run_outOfBounds hm (UInt32.toNat_inj.1 hzero) ?_ ?_
          · show u.rangePtr = m.length
            rw [hinv.ptr]
            omega
          · refine UInt32.lt_of_le_of_lt (UInt32.le_iff_toNat_le.2 ?_) hgrows
            show u.rangeOffset.toNat ≤ _
            omega
        rw [hrun] at hbyte
        cases hbyte
    · rintro ⟨rfl, hsurvives⟩
      have hzero : ¬ s.rangeSize.toNat ≠ 0 := by
        intro hne
        rw [if_pos hne] at hsurvives
        exact hinsert ⟨by omega, hsurvives⟩
      have hsnap : u.snap = u := if_neg (by rw [hpos]; omega)
      rw [if_neg hzero, ← hbuffer] at hsurvives
      obtain ⟨hone, hvalue1⟩ := hsurvives.resolve_left hcap
      rcases hgrown with ⟨-, -, hsame⟩ | ⟨hgrows, -⟩
      · rw [hsnap, hsame]
        exact unharmed_of_inv hinv (by rw [hall, List.take_zero, List.append_nil])
      · exact absurd ⟨hone, by omega⟩ hgrows

/-- Four bytes of room, and two of them are written. -/
def half : OutputMemoryStream :=
  { new [1, 2, 0, 0] 32 9 with rangeSize := 2 }

theorem inv_half : half.Inv where
  buffer := ⟨[1, 2, 0, 0], rfl, rfl⟩
  ptr := rfl
  range_le := by decide
  settled := by simp [half, new]

/-- Two bytes of room, and both are written. -/
def full : OutputMemoryStream :=
  { new [1, 2] 32 9 with rangeSize := 2 }

theorem inv_full : full.Inv where
  buffer := ⟨[1, 2], rfl, rfl⟩
  ptr := rfl
  range_le := by decide
  settled := by simp [full, new]

theorem unharmed_iff_full :
    ∃ t, full.writeBytesIn false true (fun _ _ => 0) [3] = .error (.badAlloc, t) ∧
      (Unharmed full t ↔ Survives false full [3]) := by
  obtain ⟨t, ht⟩ : ∃ t, full.writeBytesIn false true (fun _ _ => 0) [3]
      = .error (.badAlloc, t) := ⟨_, rfl⟩
  exact ⟨t, ht, unharmed_iff inv_full (by decide) ht⟩

/-- Six more bytes, and no memory for the next buffer: four bytes are in the stream twice. -/
theorem writeBytesIn_half :
    ¬ ∀ (insert allocate : Bool) (noinit : Nat → Nat → UInt8) (s t : OutputMemoryStream)
      (value : List UInt8) (e : StreamFailure), s.Inv → value.length < 2 ^ 32 →
      s.writeBytesIn insert allocate noinit value = .error (e, t) → Unharmed s t := by
  intro h
  obtain ⟨t, ht, hcontents⟩ : ∃ t,
      half.writeBytesIn true false (fun _ _ => 0) [3, 4, 5, 6, 7, 8] = .error (.badAlloc, t) ∧
        t.contents t.getBuffers = [1, 2, 3, 4, 1, 2, 3, 4] :=
    ⟨_, rfl, by decide +kernel⟩
  have hsame := (h true false _ half t _ _ inv_half (by decide) ht).1
  rw [hcontents] at hsame
  revert hsame
  decide +kernel

end

end OutputMemoryStream

end Bond.Cpp

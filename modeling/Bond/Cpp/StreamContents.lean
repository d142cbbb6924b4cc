import Bond.Cpp.OutputMemoryStream

set_option autoImplicit false

/-! # What is in a memory output stream

No operation copies out of bounds, and the blobs of a stream hold what was written, in order: bytes
are only ever copied behind the current range, and a blob of the current buffer ends in front of it. -/

namespace Bond.Cpp

open Varint

namespace OutputMemoryStream

theorem content_range (memory : List (List UInt8)) (buffer offset length : Nat) :
    (Blob.range buffer offset length).content memory
      = slice ((memory[buffer]?).getD []) offset length :=
  rfl

/-! ## The invariant -/

/-- A blob that no operation writes to. -/
def Settled (s : OutputMemoryStream) : Blob → Prop
  | .range buffer offset length =>
      buffer < s.memory.length ∧ (buffer = s.buffer → offset + length ≤ s.rangeOffset.toNat)
  | .bytes _ => True

structure Inv (s : OutputMemoryStream) : Prop where
  buffer : ∃ m, s.memory[s.buffer]? = some m ∧ m.length = s.bufferSize.toNat
  ptr : s.rangePtr = s.rangeOffset.toNat
  range_le : s.rangeOffset.toNat + s.rangeSize.toNat ≤ s.bufferSize.toNat
  settled : ∀ b ∈ s.blobs, s.Settled b

/-- All that is in a stream. -/
def all (s : OutputMemoryStream) : List UInt8 :=
  s.contents (s.blobs ++ [s.range])

theorem contents_getBuffers (s : OutputMemoryStream) : s.contents s.getBuffers = s.all := by
  unfold getBuffers all
  split
  · rfl
  · next hempty =>
      have hzero : s.rangeSize.toNat = 0 := by
        rw [gt_iff_lt, UInt32.lt_iff_toNat_lt] at hempty
        simpa using hempty
      unfold contents
      rw [List.flatMap_append, List.flatMap_singleton, range, hzero, Blob.content, slice,
        List.take_zero, List.append_nil]

/-- What ends an operation is that there is no memory, and otherwise some bytes are appended. -/
def Appends (s : OutputMemoryStream) (bytes : List UInt8) :
    Except StreamFailure OutputMemoryStream → Prop
  | .ok t => t.Inv ∧ t.all = s.all ++ bytes
  | .error e => e = .badAlloc

/-- Going on behind some bytes. -/
theorem Appends.trans {s t : OutputMemoryStream} {bytes bytes' : List UInt8}
    {r : Except StreamFailure OutputMemoryStream} (hall : t.all = s.all ++ bytes)
    (h : t.Appends bytes' r) : s.Appends (bytes ++ bytes') r := by
  cases r with
  | error e => exact h
  | ok u =>
      obtain ⟨hinv, hall'⟩ := h
      refine ⟨hinv, ?_⟩
      rw [hall', hall, List.append_assoc]

theorem Appends.bind {s : OutputMemoryStream} {bytes bytes' : List UInt8}
    {r : Except StreamFailure OutputMemoryStream}
    {f : OutputMemoryStream → Except StreamFailure OutputMemoryStream} (h : s.Appends bytes r)
    (hf : ∀ t : OutputMemoryStream, t.Inv → t.Appends bytes' (f t)) :
    s.Appends (bytes ++ bytes') (r >>= f) := by
  cases r with
  | error e => exact h
  | ok t =>
      obtain ⟨hinv, hall⟩ := h
      exact (hf t hinv).trans hall

/-! ## The parts of the operations -/

section

variable {s : OutputMemoryStream}

/-- Copying behind the current range leaves the settled blobs as they are. -/
theorem content_set {m : List UInt8} (hm : s.memory[s.buffer]? = some m) {position : Nat}
    {bytes : List UInt8} (hge : s.rangeOffset.toNat ≤ position) (hle : position ≤ m.length)
    {b : Blob} (hb : s.Settled b) :
    b.content (s.memory.set s.buffer (splice m position bytes)) = b.content s.memory := by
  cases b with
  | bytes content => rfl
  | range buffer offset length =>
      obtain ⟨hlt, hsettled⟩ := hb
      rw [content_range, content_range]
      by_cases hcurrent : buffer = s.buffer
      · have hend := hsettled hcurrent
        rw [hcurrent] at hlt ⊢
        rw [List.getElem?_set_self hlt, hm]
        exact slice_splice_before (by omega) hle
      · rw [List.getElem?_set_ne (Ne.symm hcurrent)]

theorem contents_set {m : List UInt8} (hm : s.memory[s.buffer]? = some m) (position : Nat)
    (bytes : List UInt8) (hge : s.rangeOffset.toNat ≤ position) (hle : position ≤ m.length)
    {blobs : List Blob} (hblobs : ∀ b ∈ blobs, s.Settled b) :
    blobs.flatMap (Blob.content (s.memory.set s.buffer (splice m position bytes)))
      = s.contents blobs :=
  List.flatMap_congr fun b hb => content_set hm hge hle (hblobs b hb)

/-- Where there is room for some bytes, they are copied to the end of the current range. -/
theorem append_spec (h : s.Inv) (bytes : List UInt8)
    (hroom : s.rangeOffset.toNat + s.rangeSize.toNat + bytes.length ≤ s.bufferSize.toNat) :
    ∃ t, s.append bytes = .ok t ∧ t.Inv ∧ t.all = s.all ++ bytes ∧
      t.bufferSize = s.bufferSize ∧ t.rangeOffset = s.rangeOffset ∧
      t.rangeSize.toNat = s.rangeSize.toNat + bytes.length := by
  obtain ⟨⟨m, hm, hlength⟩, hptr, hrange, hsettled⟩ := h
  have hlt := s.bufferSize.toNat_lt
  have hsize : (s.rangeSize + UInt32.ofNat bytes.length).toNat
      = s.rangeSize.toNat + bytes.length := by
    rw [UInt32.toNat_add, UInt32.toNat_ofNat_of_lt' (show bytes.length < 2 ^ 32 by omega)]
    omega
  have hbuffer : s.buffer < s.memory.length := (List.getElem?_eq_some_iff.1 hm).1
  refine ⟨{ s with
      memory := s.memory.set s.buffer (splice m (s.rangePtr + s.rangeSize.toNat) bytes)
      rangeSize := s.rangeSize + UInt32.ofNat bytes.length }, ?_, ⟨?_, hptr, ?_, ?_⟩, ?_, rfl, rfl,
      hsize⟩
  · unfold append memcpy
    rw [hm]
    simp only [if_pos (show s.rangePtr + s.rangeSize.toNat + bytes.length ≤ m.length by omega)]
    rfl
  · exact ⟨_, List.getElem?_set_self hbuffer,
      (splice_length (by omega)).trans hlength⟩
  · simp only [hsize]
    omega
  · intro b hb
    have hold := hsettled b hb
    cases b with
    | bytes content => trivial
    | range buffer offset length =>
        refine ⟨?_, hold.2⟩
        rw [List.length_set]
        exact hold.1
  · have hfront := contents_set hm (s.rangePtr + s.rangeSize.toNat) bytes (by omega) (by omega)
      hsettled
    unfold all contents range
    simp only [List.flatMap_append, List.flatMap_singleton]
    rw [hfront, List.append_assoc, content_range, content_range, hsize, hptr,
      List.getElem?_set_self hbuffer, hm]
    congr 1
    exact slice_splice (by omega)

/-- Snapping the current range empties it. -/
theorem snap_all (s : OutputMemoryStream) : s.contents s.snap.blobs = s.all := by
  rw [← contents_getBuffers]
  unfold snap getBuffers
  split <;> rfl

theorem snap_settled (h : s.Inv) :
    ∀ b ∈ s.snap.blobs, s.Settled b ∨ b = s.range := by
  intro b hb
  unfold snap at hb
  split at hb
  · rcases List.mem_append.1 hb with hb | hb
    · exact .inl (h.settled b hb)
    · exact .inr (List.mem_singleton.1 hb)
  · exact .inl (h.settled b hb)

theorem snap_bufferSize (s : OutputMemoryStream) : s.snap.bufferSize = s.bufferSize := by
  unfold snap
  split <;> rfl

theorem snap_memory (s : OutputMemoryStream) : s.snap.memory = s.memory := by
  unfold snap
  split <;> rfl

/-- The next buffer is large enough. -/
theorem le_grownSize (s : OutputMemoryStream) (size : UInt32) : size ≤ s.grownSize size := by
  unfold grownSize
  generalize s.bufferSize + _ = grown
  show size ≤ if grown ≤ size then size else grown
  split
  · exact UInt32.le_refl size
  · next hgt => exact UInt32.le_of_lt (UInt32.not_le.1 hgt)

/-- A new buffer, with an empty range. -/
theorem allocate_spec (h : s.Inv) (noinit : Nat → Nat → UInt8) (size : UInt32) :
    let t := { s.snap.allocate noinit size with rangeSize := 0 }
    t.Inv ∧ t.all = s.all := by
  intro t
  have hmemory : t.memory
      = s.memory ++ [(List.range size.toNat).map (noinit s.memory.length)] := by
    show s.snap.memory ++ [(List.range size.toNat).map (noinit s.snap.memory.length)] = _
    rw [snap_memory]
  have hbuffer : t.buffer = s.memory.length := by
    show s.snap.memory.length = _
    rw [snap_memory]
  -- the buffers that there were stay where they are
  have hold {i : Nat} (hi : i < s.memory.length) : t.memory[i]? = s.memory[i]? := by
    rw [hmemory, List.getElem?_append_left hi]
  obtain ⟨m, hm, -⟩ := h.buffer
  have hcurrent : s.buffer < s.memory.length := (List.getElem?_eq_some_iff.1 hm).1
  have hplace (b : Blob) (hb : b ∈ s.snap.blobs) : match b with
      | .range buffer _ _ => buffer < s.memory.length
      | .bytes _ => True := by
    rcases snap_settled h b hb with hb | rfl
    · cases b with
      | bytes content => trivial
      | range buffer offset length => exact hb.1
    · exact hcurrent
  refine ⟨⟨?_, rfl, Nat.zero_le _, ?_⟩, ?_⟩
  · refine ⟨(List.range size.toNat).map (noinit s.memory.length), ?_, ?_⟩
    · rw [hbuffer, hmemory, List.getElem?_append_right (Nat.le_refl _), Nat.sub_self]
      rfl
    · rw [List.length_map, List.length_range]
      rfl
  · intro b hb
    have hlt := hplace b hb
    cases b with
    | bytes content => trivial
    | range buffer offset length =>
        refine ⟨?_, fun heq => ?_⟩
        · rw [hmemory, List.length_append]
          exact Nat.lt_add_right _ hlt
        · rw [hbuffer] at heq
          exact absurd heq (Nat.ne_of_lt hlt)
  · have hblobs : t.contents s.snap.blobs = s.contents s.snap.blobs := by
      refine List.flatMap_congr fun b hb => ?_
      have hlt := hplace b hb
      cases b with
      | bytes content => rfl
      | range buffer offset length => rw [content_range, content_range, hold hlt]
    show t.contents (s.snap.blobs ++ [t.range]) = s.all
    have hempty : t.range.content t.memory = [] := by
      show slice _ _ 0 = []
      rw [slice, List.take_zero]
    unfold contents at hblobs ⊢
    rw [List.flatMap_append, List.flatMap_singleton, hempty, List.append_nil, hblobs]
    exact snap_all s

end

/-! ## The operations -/

section

variable (noinit : Nat → Nat → UInt8) {s : OutputMemoryStream}

theorem appends_append (h : s.Inv) (bytes : List UInt8)
    (hroom : s.rangeOffset.toNat + s.rangeSize.toNat + bytes.length ≤ s.bufferSize.toNat) :
    s.Appends bytes (s.append bytes) := by
  obtain ⟨t, ht, hinv, hall, -⟩ := append_spec h bytes hroom
  rw [ht]
  exact ⟨hinv, hall⟩

/-- Copying to the beginning of an empty range, of which the size is set beforehand. -/
theorem memcpy_eq_append {u : OutputMemoryStream} (hrange : u.rangeSize = 0) (bytes : List UInt8) :
    { u with rangeSize := UInt32.ofNat bytes.length }.memcpy u.rangePtr bytes = u.append bytes := by
  unfold append memcpy
  rw [hrange]
  dsimp only
  cases u.memory[u.buffer]? with
  | none => rfl
  | some buffer =>
      simp only [UInt32.toNat_zero, Nat.add_zero]
      split
      · show Except.ok _ = Except.ok { u with
          memory := u.memory.set u.buffer (splice buffer u.rangePtr bytes)
          rangeSize := 0 + UInt32.ofNat bytes.length }
        rw [UInt32.zero_add]
      · rfl

/-- Bytes that are left go to a new buffer, which is large enough. -/
theorem grow_spec (h : s.Inv) {size : UInt32} {value : List UInt8}
    (hsize : value.length = size.toNat) :
    ∃ t, memcpy { s.snap.allocate noinit (s.snap.grownSize size) with rangeSize := size }
        (s.snap.allocate noinit (s.snap.grownSize size)).rangePtr value = .ok t ∧
      t.Inv ∧ t.all = s.all ++ value := by
  generalize hgrown : s.snap.grownSize size = grown
  obtain ⟨hinv, hall⟩ := allocate_spec h noinit grown
  have hroom : size.toNat ≤ grown.toNat := by
    rw [← hgrown, ← UInt32.le_iff_toNat_le]
    exact le_grownSize _ _
  have hfit : 0 + 0 + value.length ≤ grown.toNat := by omega
  obtain ⟨t, ht, hinv', hall', -⟩ := append_spec hinv value hfit
  rw [← memcpy_eq_append rfl, hsize, UInt32.ofNat_toNat] at ht
  exact ⟨t, ht, hinv', hall'.trans (by rw [hall])⟩

/-- The bytes that there is room for. -/
theorem toNat_left (h : s.Inv) :
    (s.bufferSize - s.rangeSize - s.rangeOffset).toNat
      = s.bufferSize.toNat - s.rangeSize.toNat - s.rangeOffset.toNat := by
  have hrange := h.range_le
  have hsub : (s.bufferSize - s.rangeSize).toNat
      = s.bufferSize.toNat - s.rangeSize.toNat :=
    UInt32.toNat_sub_of_le _ _ (by rw [UInt32.le_iff_toNat_le]; omega)
  rw [UInt32.toNat_sub_of_le _ _ (by rw [UInt32.le_iff_toNat_le, hsub]; omega), hsub]

/-- As much of a size as there is room for. -/
theorem sizePart_spec (size left : UInt32) :
    ∃ sizePart : UInt32, (if left > size then size else left) = sizePart ∧
      sizePart.toNat = min size.toNat left.toNat := by
  refine ⟨_, rfl, ?_⟩
  split
  · next hgt => exact (Nat.min_eq_left (Nat.le_of_lt hgt)).symm
  · next hgt => exact (Nat.min_eq_right (UInt32.not_lt.1 hgt)).symm

theorem appends_writeBytes (h : s.Inv) {value : List UInt8} (hvalue : value.length < 2 ^ 32) :
    s.Appends value (s.writeBytes noinit value) := by
  have hrange := h.range_le
  have hsize : (UInt32.ofNat value.length).toNat = value.length :=
    UInt32.toNat_ofNat_of_lt' hvalue
  have hleft := toNat_left h
  unfold writeBytes
  generalize UInt32.ofNat value.length = size at hsize
  generalize s.bufferSize - s.rangeSize - s.rangeOffset = left at hleft
  obtain ⟨sizePart, hpart, hmin⟩ := sizePart_spec size left
  have hle : sizePart.toNat ≤ size.toNat := by omega
  have htake : (value.take sizePart.toNat).length = sizePart.toNat := by
    rw [List.length_take]
    omega
  obtain ⟨t, ht, hinv, hall, -⟩ := append_spec h (value.take sizePart.toNat) (by omega)
  simp only [hpart, ht]
  by_cases hmore : size = sizePart
  · have hwhole : value.take sizePart.toNat = value := by
      rw [← hmore, hsize, List.take_length]
    rw [hwhole] at hall
    show s.Appends value (if size ≠ sizePart then _ else Except.ok t)
    rw [if_neg (not_not_intro hmore)]
    exact ⟨hinv, hall⟩
  · have hrest : (value.drop sizePart.toNat).length = (size - sizePart).toNat := by
      rw [UInt32.toNat_sub_of_le _ _ hle, List.length_drop, hsize]
    have hvalue : value.take sizePart.toNat ++ value.drop sizePart.toNat = value :=
      List.take_append_drop _ _
    show s.Appends value (if size ≠ sizePart then _ else Except.ok t)
    rw [if_pos hmore]
    show s.Appends value (if t.snap.bufferSize > (0xFFFFFFFF : UInt32) >>> 1 then
      Except.error StreamFailure.badAlloc else _)
    split
    · exact rfl
    · obtain ⟨u, hu, hinv', hall'⟩ := grow_spec noinit hinv hrest
      show s.Appends value (memcpy _ _ _)
      rw [hu]
      refine ⟨hinv', ?_⟩
      rw [hall', hall, List.append_assoc, hvalue]

theorem appends_writeValue (h : s.Inv) {value : List UInt8} (hvalue : value.length < 2 ^ 32) :
    s.Appends value (s.writeValue noinit value) := by
  unfold writeValue
  split
  · exact appends_append h value (by omega)
  · exact appends_writeBytes noinit h hvalue

/-- A size that is not positive. -/
theorem eq_zero_of_not_pos {x : UInt32} (h : ¬ x > 0) : x = 0 := by
  rw [gt_iff_lt, UInt32.lt_iff_toNat_lt] at h
  rw [← UInt32.toNat_inj]
  exact Nat.eq_zero_of_not_pos h

/-- The current range is closed before a blob is chained behind it. -/
theorem close_spec (h : s.Inv) :
    let t :=
      if s.rangeSize > 0 then
        { s.snap with
          rangeOffset := s.rangeOffset + s.rangeSize
          rangePtr := s.rangePtr + s.rangeSize.toNat
          rangeSize := 0 }
      else s
    t.Inv ∧ t.rangeSize = 0 ∧ t.contents t.blobs = s.all := by
  have hall := snap_all s
  split
  · next hpos =>
      have hsnap : s.snap = { s with blobs := s.blobs ++ [s.range] } := if_pos hpos
      obtain ⟨hbuffer, hptr, hrange, hsettled⟩ := h
      have hlt := s.bufferSize.toNat_lt
      have hend : (s.rangeOffset + s.rangeSize).toNat
          = s.rangeOffset.toNat + s.rangeSize.toNat := by
        rw [UInt32.toNat_add]
        omega
      rw [hsnap] at hall ⊢
      refine ⟨⟨hbuffer, ?_, ?_, ?_⟩, rfl, hall⟩
      · show s.rangePtr + s.rangeSize.toNat = (s.rangeOffset + s.rangeSize).toNat
        omega
      · show (s.rangeOffset + s.rangeSize).toNat + 0 ≤ s.bufferSize.toNat
        omega
      · intro b hb
        rcases List.mem_append.1 hb with hb | hb
        · have hold := hsettled b hb
          cases b with
          | bytes content => trivial
          | range buffer offset length =>
              refine ⟨hold.1, fun heq => ?_⟩
              have hle := hold.2 heq
              show offset + length ≤ (s.rangeOffset + s.rangeSize).toNat
              omega
        · obtain rfl := List.mem_singleton.1 hb
          obtain ⟨m, hm, -⟩ := hbuffer
          exact ⟨(List.getElem?_eq_some_iff.1 hm).1, fun _ => Nat.le_of_eq hend.symm⟩
  · next hzero =>
      have hsnap : s.snap = s := if_neg hzero
      rw [hsnap] at hall
      exact ⟨h, eq_zero_of_not_pos hzero, hall⟩

theorem appends_writeBlob (h : s.Inv) {buffer : List UInt8} (hbuffer : buffer.length < 2 ^ 32) :
    s.Appends buffer (s.writeBlob noinit buffer) := by
  unfold writeBlob
  split
  · exact appends_writeBytes noinit h hbuffer
  · obtain ⟨hinv, hempty, hall⟩ := close_spec h
    generalize (if s.rangeSize > 0 then _ else s : OutputMemoryStream) = t at hinv hempty hall ⊢
    refine ⟨⟨hinv.buffer, hinv.ptr, hinv.range_le, fun b hb => ?_⟩, ?_⟩
    · rcases List.mem_append.1 hb with hb | hb
      · exact hinv.settled b hb
      · obtain rfl := List.mem_singleton.1 hb
        trivial
    · have hrange : t.range.content t.memory = [] := by
        rw [range, hempty, content_range, slice]
        exact List.take_zero
      show (t.blobs ++ [Blob.bytes buffer] ++ [t.range]).flatMap (Blob.content t.memory) = _
      rw [List.flatMap_append, List.flatMap_append, List.flatMap_singleton, List.flatMap_singleton,
        hrange, List.append_nil, ← hall]
      rfl

theorem appends_writeVariableUnsigned (w : VarWidth) {value : Nat} (hvalue : value < 2 ^ w.bits)
    (h : s.Inv) : s.Appends (varint value) (s.writeVariableUnsigned noinit w value) := by
  induction value using Nat.strongRecOn generalizing s with
  | ind value ih =>
      have hshift : value >>> 7 = value / 128 := Nat.shiftRight_eq_div_pow value 7
      have hone {b : UInt8} : [b].length < 2 ^ 32 := Nat.one_lt_two_pow (by decide)
      rw [writeVariableUnsigned]
      split
      · next hroom =>
          have hlength : (varint value).length ≤ w.sizeof * 8 / 7 + 1 :=
            varint_length_le _ value (Nat.succ_pos _)
              (Nat.lt_of_lt_of_le hvalue (by cases w <;> decide))
          rw [OutputBuffer.variableUnsignedUnchecked_varint w hvalue]
          exact appends_append h _ (by omega)
      · split
        · next hmore =>
            rw [varint_of_ge (by omega), ← hshift, ← toUInt8_or_high,
              ← List.singleton_append]
            refine (appends_writeValue noinit h hone).bind fun t ht => ?_
            exact ih (value >>> 7) (by omega) (by omega) ht
        · rw [varint_of_lt (by omega)]
          exact appends_writeValue noinit h hone

/-- Whatever the operations are, they write their bytes, in order, or there is no memory. -/
theorem appends_run (writes : List Write) (hsized : ∀ w ∈ writes, w.Sized) (h : s.Inv) :
    s.Appends (writes.flatMap Write.written) (s.run noinit writes) := by
  induction writes generalizing s with
  | nil => exact ⟨h, (List.append_nil _).symm⟩
  | cons w writes ih =>
      have hw := hsized w List.mem_cons_self
      have hstep : s.Appends w.written (w.apply noinit s) := by
        cases w with
        | value data => exact appends_writeValue noinit h hw
        | bytes data => exact appends_writeBytes noinit h hw
        | blob data => exact appends_writeBlob noinit h hw
        | variableUnsigned v => exact appends_writeVariableUnsigned noinit v.width v.toNat_lt h
      rw [List.flatMap_cons]
      exact hstep.bind fun t ht => ih (fun w hw => hsized w (List.mem_cons_of_mem _ hw)) ht

end

/-! ## What was written -/

end OutputMemoryStream

end Bond.Cpp

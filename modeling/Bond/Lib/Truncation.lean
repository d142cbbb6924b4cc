import Bond.Lib.Decoder

set_option autoImplicit false

/-! # Decoders on encodings that are cut off

What a decoder does where its input ends inside of an encoding. A program that reads fails there. One
that steps over symbols without looking at them may not: `passed` marks the symbols that are stepped
over in such a way. `Cut` says that a program fails if the first symbol that is missing is not marked,
and `Slides` that it succeeds if all that are missing are marked. Both follow the structure of the
program, as `Decodes` does.

A program with a bound on its recursion is only known to decode what is shorter than the bound, so
cuts are looked at up to some length `n`. -/

namespace Decoder

variable {S α : Type} [Cursor S α] {ε β γ : Type}

/-- The program fails wherever `symbols` are all that remains. -/
def Throws (op : StateT S (Except ε) β) (symbols : List α) : Prop :=
  ∀ s : S, remaining s = symbols → ∃ e, op.run s = .error e

/-- The program succeeds wherever `symbols` are all that remains. -/
def Succeeds (op : StateT S (Except ε) β) (symbols : List α) : Prop :=
  ∀ s : S, remaining s = symbols → ∃ r, op.run s = .ok r

/-- Marks for symbols of which none is stepped over. -/
def unmarked (symbols : List α) : List Bool :=
  symbols.map fun _ => false

/-- Marks for symbols that are all stepped over. -/
def marked (symbols : List α) : List Bool :=
  symbols.map fun _ => true

@[simp] theorem unmarked_length (symbols : List α) : (unmarked symbols).length = symbols.length :=
  List.length_map _

@[simp] theorem marked_length (symbols : List α) : (marked symbols).length = symbols.length :=
  List.length_map _

@[simp] theorem unmarked_nil : unmarked ([] : List α) = [] := rfl

theorem unmarked_append (xs ys : List α) : unmarked (xs ++ ys) = unmarked xs ++ unmarked ys :=
  List.map_append

theorem unmarked_flatMap {ι : Type} (f : ι → List α) (xs : List ι) :
    unmarked (xs.flatMap f) = xs.flatMap fun x => unmarked (f x) :=
  List.map_flatMap

theorem false_mem_drop_unmarked {symbols : List α} {k : Nat} (hk : k < symbols.length) :
    false ∈ (unmarked symbols).drop k := by
  refine List.mem_iff_getElem?.2 ⟨0, ?_⟩
  rw [List.getElem?_drop, unmarked, List.getElem?_map]
  simp [hk]

theorem mem_marked {symbols : List α} {p : Bool} (h : p ∈ marked symbols) : p = true := by
  obtain ⟨-, -, rfl⟩ := List.mem_map.1 h
  rfl

/-- On cuts of `enc` up to the length `n`, the program fails where a symbol is missing that is not
    marked; it decodes `enc` itself if that is no longer than a cut. -/
structure Cut (n : Nat) (op : StateT S (Except ε) β) (enc : List α) (passed : List Bool) (b : β) :
    Prop where
  length_eq : passed.length = enc.length
  decodes (h : enc.length < n) : Decodes op enc (pure b)
  throws (k : Nat) (hk : k < n) (hpassed : passed[k]? = some false) : Throws op (enc.take k)

/-- On cuts of `enc` up to the length `n`, the program succeeds where only marked symbols are missing;
    if all are marked it succeeds on anything. -/
structure Slides (n : Nat) (op : StateT S (Except ε) β) (enc : List α) (passed : List Bool) :
    Prop where
  succeeds (k : Nat) (hk : k < n) (hlt : k < enc.length)
    (hpassed : ∀ p ∈ passed.drop k, p = true) : Succeeds op (enc.take k)
  anywhere (hpassed : ∀ p ∈ passed, p = true) (symbols : List α) : Succeeds op symbols

variable {op : StateT S (Except ε) β} {f : β → StateT S (Except ε) γ} {enc enc' : List α}
  {passed passed' : List Bool} {b : β} {c : γ} {n n' : Nat}

/-! ## Running a sequence -/

theorem Throws.bind {symbols : List α} (h : Throws op symbols) : Throws (op >>= f) symbols := by
  intro s hs
  obtain ⟨e, he⟩ := h s hs
  refine ⟨e, ?_⟩
  rw [StateT.run_bind, he]
  rfl

/-- What is cut off behind an encoding is missed by what comes next. -/
theorem Decodes.bind_throws {symbols : List α} (h : Decodes op enc (Pure.pure b))
    (hf : Throws (f b) symbols) : Throws (op >>= f) (enc ++ symbols) := by
  intro s hs
  obtain ⟨e, he⟩ := hf _ (remaining_advance_append hs)
  refine ⟨e, ?_⟩
  rw [StateT.run_bind, h s symbols hs, pure_bind]
  exact he

theorem Decodes.bind_succeeds {symbols : List α} (h : Decodes op enc (Pure.pure b))
    (hf : Succeeds (f b) symbols) : Succeeds (op >>= f) (enc ++ symbols) := by
  intro s hs
  obtain ⟨r, hr⟩ := hf _ (remaining_advance_append hs)
  refine ⟨r, ?_⟩
  rw [StateT.run_bind, h s symbols hs, pure_bind]
  exact hr

theorem Succeeds.bind {symbols : List α} (h : Succeeds op symbols)
    (hf : ∀ b symbols, Succeeds (f b) symbols) : Succeeds (op >>= f) symbols := by
  intro s hs
  obtain ⟨⟨b, s'⟩, hb⟩ := h s hs
  obtain ⟨r, hr⟩ := hf b _ s' rfl
  refine ⟨r, ?_⟩
  rw [StateT.run_bind, hb]
  exact hr

theorem succeeds_pure (b : β) {symbols : List α} :
    Succeeds (Pure.pure b : StateT S (Except ε) β) symbols :=
  fun s _ => ⟨(b, s), rfl⟩

theorem Throws.map {symbols : List α} (h : Throws op symbols) (g : β → γ) :
    Throws (g <$> op) symbols := by
  rw [map_eq_pure_bind]
  exact h.bind

/-! ## Where a program fails -/

namespace Cut

theorem zero (h : passed.length = enc.length) : Cut 0 op enc passed b where
  length_eq := h
  decodes h := absurd h (Nat.not_lt_zero _)
  throws _ hk := absurd hk (Nat.not_lt_zero _)

theorem mono (h : Cut n op enc passed b) (hle : n' ≤ n) : Cut n' op enc passed b where
  length_eq := h.length_eq
  decodes hlt := h.decodes (Nat.lt_of_lt_of_le hlt hle)
  throws k hk := h.throws k (Nat.lt_of_lt_of_le hk hle)

theorem pure (b : β) : Cut n (pure b : StateT S (Except ε) β) ([] : List α) [] b where
  length_eq := rfl
  decodes _ := Decodes.pure b
  throws _ _ hpassed := by cases hpassed

/-- A program that fails on every cut of an encoding. -/
theorem of_throws (h : Decodes op enc (Pure.pure b))
    (hthrows : ∀ k < enc.length, Throws op (enc.take k)) : Cut n op enc (unmarked enc) b where
  length_eq := unmarked_length enc
  decodes _ := h
  throws k _ hpassed := by
    obtain ⟨hk, -⟩ := List.getElem?_eq_some_iff.1 hpassed
    exact hthrows k (by simpa using hk)

/-- A program that steps over an encoding. -/
theorem of_marked (h : Decodes op enc (Pure.pure b)) : Cut n op enc (marked enc) b where
  length_eq := marked_length enc
  decodes _ := h
  throws k _ hpassed := by
    have hmem := List.mem_of_getElem? hpassed
    exact absurd (mem_marked hmem) (by decide)

theorem bind (h : Cut n op enc passed b) (hf : Cut (n - enc.length) (f b) enc' passed' c) :
    Cut n (op >>= f) (enc ++ enc') (passed ++ passed') c where
  length_eq := by rw [List.length_append, List.length_append, h.length_eq, hf.length_eq]
  decodes hlt := by
    rw [List.length_append] at hlt
    exact (h.decodes (by omega)).bind_pure (hf.decodes (by omega))
  throws k hk hpassed := by
    rw [List.getElem?_append, h.length_eq] at hpassed
    rw [List.take_append]
    split at hpassed
    · next hlt =>
        rw [Nat.sub_eq_zero_of_le (Nat.le_of_lt hlt), List.take_zero, List.append_nil]
        exact (h.throws k hk hpassed).bind
    · next hge =>
        rw [List.take_of_length_le (by omega)]
        exact (h.decodes (by omega)).bind_throws (hf.throws _ (by omega) hpassed)

theorem bind_return (h : Cut n op enc passed b) (g : β → γ) :
    Cut n (op >>= fun b => Pure.pure (g b)) enc passed (g b) := by
  have hbind := h.bind (f := fun b => Pure.pure (g b)) (.pure (g b))
  rwa [List.append_nil, List.append_nil] at hbind

theorem map (h : Cut n op enc passed b) (g : β → γ) : Cut n (g <$> op) enc passed (g b) := by
  rw [map_eq_pure_bind]
  exact h.bind_return g

/-- A program on each of some items in turn. -/
theorem repeatN {ι : Type} {enc : ι → List α} {passed : ι → List Bool} {g : ι → β} (xs : List ι)
    (h : ∀ x ∈ xs, Cut n op (enc x) (passed x) (g x)) :
    Cut n (repeatN xs.length op) (xs.flatMap enc) (xs.flatMap passed) (xs.map g) := by
  induction xs generalizing n with
  | nil => exact .pure []
  | cons x xs ih =>
      have hrest := ih fun y hy =>
        (h y (List.mem_cons_of_mem x hy)).mono (Nat.sub_le n (enc x).length)
      exact (h x List.mem_cons_self).bind (hrest.bind_return fun bs => g x :: bs)

theorem repeatN_discard {ι : Type} {op : StateT S (Except ε) Unit} {enc : ι → List α}
    {passed : ι → List Bool} (xs : List ι) (h : ∀ x ∈ xs, Cut n op (enc x) (passed x) ()) :
    Cut n (Decoder.repeatN xs.length op >>= fun _ => Pure.pure ()) (xs.flatMap enc)
      (xs.flatMap passed) () :=
  (Cut.repeatN xs h).bind_return fun _ => ()

end Cut

/-! ## Programs that look at every symbol -/

/-- The program fails on every cut of `enc` up to the length `n`. -/
abbrev Reads (n : Nat) (op : StateT S (Except ε) β) (enc : List α) (b : β) : Prop :=
  Cut n op enc (unmarked enc) b

namespace Reads

theorem bind (h : Reads n op enc b) (hf : Reads (n - enc.length) (f b) enc' c) :
    Reads n (op >>= f) (enc ++ enc') c := by
  rw [Reads, unmarked_append]
  exact Cut.bind h hf

theorem repeatN {ι : Type} {enc : ι → List α} {g : ι → β} (xs : List ι)
    (h : ∀ x ∈ xs, Reads n op (enc x) (g x)) :
    Reads n (Decoder.repeatN xs.length op) (xs.flatMap enc) (xs.map g) := by
  rw [Reads, unmarked_flatMap]
  exact Cut.repeatN xs h

end Reads

/-! ## Where a program slides over what is missing -/

namespace Slides

theorem mono (h : Slides n op enc passed) (hle : n' ≤ n) : Slides n' op enc passed where
  succeeds k hk := h.succeeds k (Nat.lt_of_lt_of_le hk hle)
  anywhere := h.anywhere

theorem pure (b : β) : Slides n (pure b : StateT S (Except ε) β) ([] : List α) [] where
  succeeds _ _ hlt := absurd hlt (Nat.not_lt_zero _)
  anywhere _ _ s _ := ⟨(b, s), rfl⟩

/-- A program that never fails. -/
theorem of_succeeds (h : ∀ symbols, Succeeds op symbols) : Slides n op enc passed where
  succeeds _ _ _ _ := h _
  anywhere _ := h

/-- No cut leaves out marked symbols only if none is marked. -/
theorem of_unmarked (hpos : 0 < enc.length) : Slides n op enc (unmarked enc) where
  succeeds _ _ hlt hpassed := absurd (hpassed false (false_mem_drop_unmarked hlt)) (by decide)
  anywhere hpassed :=
    absurd (hpassed false (false_mem_drop_unmarked (k := 0) hpos)) (by decide)

/-- If the last symbol is not marked then no cut leaves out marked symbols only. -/
theorem of_last (hlen : (passed ++ [false]).length = enc.length) :
    Slides n op enc (passed ++ [false]) where
  succeeds k _ hlt hpassed := by
    have hmem : false ∈ (passed ++ [false]).drop k := by
      rw [List.drop_append_of_le_length (by simp at hlen; omega)]
      simp
    exact absurd (hpassed false hmem) (by decide)
  anywhere hpassed := absurd (hpassed false (by simp)) (by decide)

/-- Symbols in front that are not marked. -/
theorem bind_unmarked (h : Cut n op enc (unmarked enc) b) (hpos : 0 < enc.length)
    (hf : 0 < n - enc.length → Slides (n - enc.length) (f b) enc' passed') :
    Slides n (op >>= f) (enc ++ enc') (unmarked enc ++ passed') where
  succeeds k hk hlt hpassed := by
    by_cases hcut : k < enc.length
    · -- one of the symbols in front is missing
      have hmem : false ∈ (unmarked enc ++ passed').drop k := by
        rw [List.drop_append_of_le_length (by simp; omega), List.mem_append]
        exact .inl (false_mem_drop_unmarked hcut)
      exact absurd (hpassed false hmem) (by decide)
    · have hslides := hf (by omega)
      rw [List.length_append] at hlt
      rw [List.drop_append, unmarked_length, List.drop_of_length_le (by simp; omega),
        List.nil_append] at hpassed
      rw [List.take_append, List.take_of_length_le (by omega)]
      exact (h.decodes (by omega)).bind_succeeds
        (hslides.succeeds _ (by omega) (by omega) hpassed)
  anywhere hpassed := by
    have hmem : false ∈ unmarked enc ++ passed' :=
      List.mem_append_left _ (false_mem_drop_unmarked (k := 0) hpos)
    exact absurd (hpassed false hmem) (by decide)

/-- Programs that both may slide. -/
theorem bind (h : Cut n op enc passed b) (h' : Slides n op enc passed)
    (hf : ∀ b, Slides (n - enc.length) (f b) enc' passed') :
    Slides n (op >>= f) (enc ++ enc') (passed ++ passed') where
  succeeds k hk hlt hpassed := by
    rw [List.drop_append, h.length_eq] at hpassed
    rw [List.length_append] at hlt
    rw [List.take_append]
    by_cases hcut : k < enc.length
    · rw [Nat.sub_eq_zero_of_le (Nat.le_of_lt hcut), List.drop_zero] at hpassed
      rw [Nat.sub_eq_zero_of_le (Nat.le_of_lt hcut), List.take_zero, List.append_nil]
      have hop := h'.succeeds k hk hcut fun p hp => hpassed p (List.mem_append_left _ hp)
      exact hop.bind fun b => (hf b).anywhere fun p hp => hpassed p (List.mem_append_right _ hp)
    · rw [List.take_of_length_le (by omega)]
      exact (h.decodes (by omega)).bind_succeeds
        ((hf b).succeeds _ (by omega) (by omega) fun p hp =>
          hpassed p (List.mem_append_right _ hp))
  anywhere hpassed symbols := by
    have hop := h'.anywhere (fun p hp => hpassed p (List.mem_append_left _ hp)) symbols
    exact hop.bind fun b => (hf b).anywhere fun p hp => hpassed p (List.mem_append_right _ hp)

theorem bind_return (h : Cut n op enc passed b) (h' : Slides n op enc passed) (g : β → γ) :
    Slides n (op >>= fun b => Pure.pure (g b)) enc passed := by
  have hbind := Slides.bind (f := fun b => Pure.pure (g b)) h h' fun b => .pure (g b)
  rwa [List.append_nil, List.append_nil] at hbind

theorem repeatN {ι : Type} {enc : ι → List α} {passed : ι → List Bool} {g : ι → β} (xs : List ι)
    (h : ∀ x ∈ xs, Cut n op (enc x) (passed x) (g x))
    (h' : ∀ x ∈ xs, Slides n op (enc x) (passed x)) :
    Slides n (repeatN xs.length op) (xs.flatMap enc) (xs.flatMap passed) := by
  induction xs generalizing n with
  | nil => exact .pure []
  | cons x xs ih =>
      have hrest (y : ι) (hy : y ∈ xs) :=
        (h y (List.mem_cons_of_mem x hy)).mono (Nat.sub_le n (enc x).length)
      have hslides := ih hrest fun y hy =>
        (h' y (List.mem_cons_of_mem x hy)).mono (Nat.sub_le n (enc x).length)
      exact .bind (h x List.mem_cons_self) (h' x List.mem_cons_self) fun b =>
        .bind_return (Cut.repeatN xs hrest) hslides fun bs => b :: bs

theorem repeatN_discard {ι : Type} {op : StateT S (Except ε) Unit} {enc : ι → List α}
    {passed : ι → List Bool} (xs : List ι) (h : ∀ x ∈ xs, Cut n op (enc x) (passed x) ())
    (h' : ∀ x ∈ xs, Slides n op (enc x) (passed x)) :
    Slides n (Decoder.repeatN xs.length op >>= fun _ => Pure.pure ()) (xs.flatMap enc)
      (xs.flatMap passed) :=
  .bind_return (Cut.repeatN xs h) (Slides.repeatN xs h h') fun _ => ()

end Slides

end Decoder

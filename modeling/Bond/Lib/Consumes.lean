import Bond.Lib.Truncation

set_option autoImplicit false

/-! # Decoders that may reject an encoding

`Consumes op enc Q` says what is known of a program that may fail: if it succeeds on a cursor that
stands before `enc`, it leaves the cursor right behind `enc` and what it returns satisfies `Q`. So a
program rejects every encoding on which `Q` cannot hold. The lemmas follow the structure of the
program, as those for `Decodes` do. -/

namespace Decoder

variable {S α : Type} [Cursor S α] {ε β γ : Type}

/-- If `op` succeeds before the encoding `enc` it consumes exactly `enc` and returns a value with
    `Q`. -/
def Consumes (op : StateT S (Except ε) β) (enc : List α) (Q : β → Prop) : Prop :=
  ∀ (s : S) (rest : List α), remaining s = enc ++ rest →
    ∀ b s', op.run s = .ok (b, s') → s' = advance s enc.length ∧ Q b

namespace Consumes

variable {op : StateT S (Except ε) β} {f : β → StateT S (Except ε) γ} {enc enc' : List α}
  {P Q : β → Prop} {R : γ → Prop}

theorem mono (h : Consumes op enc P) (hPQ : ∀ b, P b → Q b) : Consumes op enc Q := by
  intro s rest hs b s' hrun
  obtain ⟨hs', hb⟩ := h s rest hs b s' hrun
  exact ⟨hs', hPQ b hb⟩

theorem of_decodes {b : β} (h : Decodes op enc (Pure.pure b)) (hQ : Q b) : Consumes op enc Q := by
  intro s rest hs c s' hrun
  rw [h s rest hs, pure_bind] at hrun
  cases hrun
  exact ⟨rfl, hQ⟩

theorem pure {b : β} (hQ : Q b) : Consumes (Pure.pure b : StateT S (Except ε) β) [] Q :=
  of_decodes (Decodes.pure b) hQ

/-- What fails everywhere satisfies everything. -/
theorem of_throws (h : ∀ symbols, Throws op symbols) : Consumes op enc Q := by
  intro s rest _ b s' hrun
  obtain ⟨e, he⟩ := h (remaining s) s rfl
  rw [he] at hrun
  cases hrun

theorem bind (h : Consumes op enc P) (hf : ∀ b, P b → Consumes (f b) enc' R) :
    Consumes (op >>= f) (enc ++ enc') R := by
  intro s rest hs c s'' hrun
  rw [List.append_assoc] at hs
  obtain ⟨b, s', hop, hrun⟩ := run_bind_ok hrun
  obtain ⟨rfl, hb⟩ := h s _ hs b s' hop
  obtain ⟨rfl, hc⟩ := hf b hb _ rest (remaining_advance_append hs) c s'' hrun
  refine ⟨?_, hc⟩
  rw [Cursor.advance_advance, List.length_append]

/-- Sequencing behind a decoder that returns a known value. -/
theorem decodes_bind {b : β} (h : Decodes op enc (Pure.pure b)) (hf : Consumes (f b) enc' R) :
    Consumes (op >>= f) (enc ++ enc') R :=
  (of_decodes (Q := fun c => c = b) h rfl).bind fun _ hc => hc ▸ hf

/-- Sequencing in front of a plain result. -/
theorem bind_return {g : β → γ} (h : Consumes op enc P) (hR : ∀ b, P b → R (g b)) :
    Consumes (op >>= fun b => Pure.pure (g b)) enc R := by
  rw [← List.append_nil enc]
  exact h.bind fun b hb => pure (hR b hb)

theorem map {g : β → γ} (h : Consumes op enc P) (hR : ∀ b, P b → R (g b)) :
    Consumes (g <$> op) enc R := by
  rw [map_eq_pure_bind]
  exact h.bind_return hR

/-- Repeating a decoder that shows a fact about each item of a list. -/
theorem repeatN {ι : Type} {enc : ι → List α} {P : ι → Prop} (xs : List ι)
    (h : ∀ x ∈ xs, Consumes op (enc x) fun _ => P x) :
    Consumes (Decoder.repeatN xs.length op) (xs.flatMap enc) fun _ => ∀ x ∈ xs, P x := by
  induction xs with
  | nil => exact pure fun x hx => absurd hx List.not_mem_nil
  | cons x xs ih =>
      rw [List.flatMap_cons]
      refine (h x List.mem_cons_self).bind fun b hx => ?_
      have hrest := ih fun y hy => h y (List.mem_cons_of_mem x hy)
      exact hrest.bind_return fun bs hbs => List.forall_mem_cons.2 ⟨hx, hbs⟩

/-- A program fails on an encoding of which it can show nothing. -/
theorem throws (h : Consumes op enc Q) (hQ : ∀ b, ¬ Q b) (rest : List α) :
    Throws op (enc ++ rest) := by
  intro s hs
  cases hrun : op.run s with
  | error e => exact ⟨e, rfl⟩
  | ok r => exact absurd (h s rest hs r.1 r.2 hrun).2 (hQ r.1)

end Consumes

/-! ## What is known of every result -/

/-- Whatever `op` returns has `Q`. -/
def Yields (op : StateT S (Except ε) β) (Q : β → Prop) : Prop :=
  ∀ s b s', op.run s = .ok (b, s') → Q b

namespace Yields

variable {op : StateT S (Except ε) β} {f : β → StateT S (Except ε) γ} {P Q : β → Prop}
  {R : γ → Prop}

theorem pure {b : β} (hQ : Q b) : Yields (Pure.pure b : StateT S (Except ε) β) Q := by
  intro s c s' hrun
  cases hrun
  exact hQ

theorem bind (hf : ∀ b, Yields (f b) R) : Yields (op >>= f) R := by
  intro s c s'' hrun
  obtain ⟨b, s', -, hrun⟩ := run_bind_ok hrun
  exact hf b s' c s'' hrun

theorem bind_of (h : Yields op P) (hf : ∀ b, P b → Yields (f b) R) : Yields (op >>= f) R := by
  intro s c s'' hrun
  obtain ⟨b, s', hop, hrun⟩ := run_bind_ok hrun
  exact hf b (h s b s' hop) s' c s'' hrun

theorem map {g : β → γ} (h : Yields op P) (hR : ∀ b, P b → R (g b)) : Yields (g <$> op) R := by
  rw [map_eq_pure_bind]
  exact h.bind_of fun b hb => pure (hR b hb)

theorem of_map {g : β → γ} (hR : ∀ b, R (g b)) : Yields (g <$> op) R := by
  rw [map_eq_pure_bind]
  exact bind fun b => pure (hR b)

theorem repeatN (h : Yields op Q) (n : Nat) :
    Yields (Decoder.repeatN n op) fun bs => ∀ b ∈ bs, Q b := by
  induction n with
  | zero => exact pure fun b hb => absurd hb List.not_mem_nil
  | succ n ih =>
      refine h.bind_of fun b hb => ?_
      exact ih.bind_of fun bs hbs => pure (List.forall_mem_cons.2 ⟨hb, hbs⟩)

end Yields

end Decoder

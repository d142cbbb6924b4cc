import Bond.Lib.Consumes

set_option autoImplicit false

/-! # What a count announces

A payload often says how much is to come before it comes. `Counted` is a program that reads such a
count and goes by it, next to the program that takes exactly as much as was announced;
`TakesExactly` says that the first one, where it succeeds, has done what the second one does. To
tell the two apart it is mostly enough to know how many symbols a program uses up. -/

namespace Decoder

variable {S α : Type} [Cursor S α] {ε β γ η : Type}

/-! ## Using up symbols -/

/-- Wherever `op` succeeds, `k` symbols less are left. -/
def TakesAtLeast (op : StateT S (Except ε) β) (k : Nat) : Prop :=
  ∀ s b s', op.run s = .ok (b, s') → (remaining s').length + k ≤ (remaining s).length

namespace TakesAtLeast

variable {op : StateT S (Except ε) β} {f : β → StateT S (Except ε) γ} {k l : Nat}

theorem pure (b : β) : TakesAtLeast (Pure.pure b : StateT S (Except ε) β) 0 := by
  intro s c s' hrun
  cases hrun
  exact Nat.le_refl _

theorem mono (h : TakesAtLeast op k) (hle : l ≤ k) : TakesAtLeast op l := by
  intro s b s' hrun
  have hk := h s b s' hrun
  omega

theorem bind (h : TakesAtLeast op k) (hf : ∀ b, TakesAtLeast (f b) l) :
    TakesAtLeast (op >>= f) (k + l) := by
  intro s c s'' hrun
  obtain ⟨b, s', hop, hrun⟩ := run_bind_ok hrun
  have hk := h s b s' hop
  have hl := hf b s' c s'' hrun
  omega

theorem bind_right (h : TakesAtLeast op k) (hf : ∀ b, TakesAtLeast (f b) 0) :
    TakesAtLeast (op >>= f) k :=
  h.bind hf

theorem bind_left (h : TakesAtLeast op 0) (hf : ∀ b, TakesAtLeast (f b) l) :
    TakesAtLeast (op >>= f) l := by
  have hbind := h.bind hf
  rwa [Nat.zero_add] at hbind

theorem map (h : TakesAtLeast op k) (g : β → γ) : TakesAtLeast (g <$> op) k := by
  rw [map_eq_pure_bind]
  exact h.bind_right fun b => pure (g b)

theorem repeatN (h : TakesAtLeast op k) (n : Nat) :
    TakesAtLeast (Decoder.repeatN n op) (n * k) := by
  induction n with
  | zero =>
      rw [Nat.zero_mul]
      exact pure []
  | succ n ih =>
      rw [Nat.succ_mul, Nat.add_comm (n * k)]
      exact h.bind fun b => ih.bind_right fun bs => pure (b :: bs)

/-- A program that leaves the symbols as they are takes none. -/
theorem eq_zero (h : TakesAtLeast op k) {s : S} {b : β} (hrun : op.run s = .ok (b, s)) :
    k = 0 := by
  have hk := h s b s hrun
  omega

end TakesAtLeast

theorem length_of_repeatN {op : StateT S (Except ε) β} {n : Nat} {s s' : S} {bs : List β}
    (h : (repeatN n op).run s = .ok (bs, s')) : bs.length = n := by
  induction n generalizing s bs with
  | zero =>
      cases h
      rfl
  | succ n ih =>
      obtain ⟨b, s₁, -, h⟩ := run_bind_ok h
      obtain ⟨bs', s₂, hrest, h⟩ := run_bind_ok h
      cases h
      rw [List.length_cons, ih hrest]

/-! ## Going by a count -/

/-- A program `op` that reads a header and then takes what it announces, and the program that takes
    exactly that. -/
structure Counted (S ε η β : Type) where
  op : StateT S (Except ε) β
  header : StateT S (Except ε) η
  take : η → StateT S (Except ε) β
  op_eq : op = header >>= take
  exactly : η → StateT S (Except ε) β

namespace Counted

variable (c : Counted S ε η β)

/-- From this state `op` either fails or takes exactly what is announced. -/
def TakesExactly (s : S) : Prop :=
  ∀ h s₁ b s', c.header.run s = .ok (h, s₁) → c.op.run s = .ok (b, s') →
    (c.exactly h).run s₁ = .ok (b, s')

/-- Behind every header that is read in this state, `p` holds. -/
def Announces (p : η → S → Prop) (s : S) : Prop :=
  ∀ h s₁, c.header.run s = .ok (h, s₁) → p h s₁

/-- It is decided behind the header whether `op` takes exactly what is announced. -/
theorem takesExactly_iff (s : S) :
    c.TakesExactly s ↔ c.Announces (fun h s₁ => ∀ b s', (c.take h).run s₁ = .ok (b, s') →
      (c.exactly h).run s₁ = .ok (b, s')) s := by
  have hop : ∀ h s₁, c.header.run s = .ok (h, s₁) → c.op.run s = (c.take h).run s₁ := by
    intro h s₁ hheader
    rw [c.op_eq, StateT.run_bind, hheader]
    rfl
  constructor
  · intro hexact h s₁ hheader b s' htake
    exact hexact h s₁ b s' hheader ((hop h s₁ hheader).trans htake)
  · intro hexact h s₁ b s' hheader hrun
    exact hexact h s₁ hheader b s' ((hop h s₁ hheader).symm.trans hrun)

theorem announces_congr {p q : η → S → Prop} (h : ∀ x s₁, p x s₁ ↔ q x s₁) (s : S) :
    c.Announces p s ↔ c.Announces q s :=
  ⟨fun hp x s₁ hx => (h x s₁).1 (hp x s₁ hx), fun hq x s₁ hx => (h x s₁).2 (hq x s₁ hx)⟩

end Counted

end Decoder

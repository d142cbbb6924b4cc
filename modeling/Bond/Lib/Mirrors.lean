import Bond.Lib.Parsec

set_option autoImplicit false

/-! # One grammar with two values

Two parsers that accept the same inputs in the same way, where the values of one are made of the
values of the other. -/

namespace Bond.Lib

variable {ρ σ α β γ δ ε : Type}

namespace Reply

def map (f : α → β) : Reply σ α → Reply σ β
  | ok consumed a s rest => ok consumed (f a) s rest
  | error consumed message => error consumed message
  | abort message => abort message

theorem map_after (f : α → β) (consumed : Bool) (r : Reply σ α) :
    (r.after consumed).map f = (r.map f).after consumed := by
  cases r <;> rfl

end Reply

namespace Parsec

/-- The second parser does what the first one does, and makes its value by `f` of the other one. -/
def Mirrors (f : α → β) (p : Parsec ρ σ α) (q : Parsec ρ σ β) : Prop :=
  ∀ n env s input, q n env s input = (p n env s input).map f

namespace Mirrors

variable {f : α → β} {g : γ → δ} {p p' : Parsec ρ σ α} {q q' : Parsec ρ σ β}

theorem refl (p : Parsec ρ σ α) : Mirrors id p p := by
  intro n env s input
  cases p n env s input <;> rfl

theorem pure (a : α) : Mirrors f (pure a : Parsec ρ σ α) (pure (f a)) :=
  fun _ _ _ _ => rfl

/-- A parser mirrors the one that it maps. -/
theorem values (f : α → β) (p : Parsec ρ σ α) : Mirrors f p (p >>= fun a => Pure.pure (f a)) := by
  intro n env s input
  change andThen p (fun a => ret (f a)) n env s input = (p n env s input).map f
  unfold andThen
  cases p n env s input with
  | ok consumed a s' rest => simp [ret, Reply.after, Reply.map]
  | error | abort => rfl

theorem bind {k : α → Parsec ρ σ γ} {l : β → Parsec ρ σ δ} (h : Mirrors f p q)
    (hk : ∀ a, Mirrors g (k a) (l (f a))) : Mirrors g (p >>= k) (q >>= l) := by
  intro n env s input
  change andThen q l n env s input = (andThen p k n env s input).map g
  unfold andThen
  rw [h n env s input]
  cases p n env s input with
  | ok consumed a s' rest =>
      simp only [Reply.map, hk a n env s' rest]
      exact (Reply.map_after g consumed _).symm
  | error | abort => rfl

theorem orElse (h : Mirrors f p q) (h' : Mirrors f p' q') : Mirrors f (p <|> p') (q <|> q') := by
  intro n env s input
  change Parsec.orElse q (fun _ => q') n env s input =
    (Parsec.orElse p (fun _ => p') n env s input).map f
  unfold Parsec.orElse
  rw [h n env s input]
  cases p n env s input with
  | ok | abort => rfl
  | error consumed message =>
      cases consumed with
      | true => rfl
      | false => exact h' n env s input

theorem bounded {p : Nat → Parsec ρ σ α} {q : Nat → Parsec ρ σ β} (h : ∀ k, Mirrors f (p k) (q k)) :
    Mirrors f (bounded p) (bounded q) :=
  fun n => h n n

theorem exhausted : Mirrors f (exhausted : Parsec ρ σ α) exhausted :=
  fun _ _ _ _ => rfl

theorem optional (h : Mirrors f p q) : Mirrors (Option.map f) (optional p) (optional q) :=
  orElse (h.bind fun a => pure (some a)) (pure none)

theorem between {opening closing : Parsec ρ σ ε} (h : Mirrors f p q) :
    Mirrors f (between opening closing p) (between opening closing q) :=
  (refl opening).bind fun _ => h.bind fun a => (refl closing).bind fun _ => pure a

theorem sepEndBy1 {separator : Parsec ρ σ ε} (h : Mirrors f p q) :
    Mirrors (List.map f) (sepEndBy1 p separator) (sepEndBy1 q separator) := by
  refine bounded fun k => ?_
  induction k with
  | zero => exact exhausted
  | succ k ih =>
      refine h.bind fun a => (refl _).bind fun more => ?_
      cases more with
      | true => exact (orElse ih (pure [])).bind fun as => pure (a :: as)
      | false => exact pure [a]

/-- What the second parser returns is made of what the first one returns. -/
theorem of_ok (h : Mirrors f p q) {n : Nat} {env : ρ} {s s' : σ} {input rest : List Char}
    {consumed : Bool} {b : β} (hq : q n env s input = .ok consumed b s' rest) :
    ∃ a, p n env s input = .ok consumed a s' rest ∧ f a = b := by
  rw [h n env s input] at hq
  cases hp : p n env s input with
  | ok c a s₁ rest₁ =>
      rw [hp] at hq
      cases hq
      exact ⟨a, rfl, rfl⟩
  | error | abort => rw [hp] at hq; cases hq

end Mirrors

end Parsec

end Bond.Lib

set_option autoImplicit false

/-! # Parser combinators

Parsers over characters that read an environment and change a state. A parser that fails says whether
it consumed input before: an alternative is tried only if the first parser consumed nothing. A
failing parser leaves the state as it was.

Loops and recursive grammars are bounded by a number; a parser that runs out of it fails beyond
repair, so that what a parser returns is what it returns with any larger bound. A program error in
a parser ends the same way. -/

namespace Bond.Lib

variable {ρ σ α β : Type}

/-- How a parser ends. -/
inductive Reply (σ α : Type) where
  | ok (consumed : Bool) (value : α) (state : σ) (rest : List Char)
  | error (consumed : Bool) (message : String)
  | abort (message : String)

/-- A parser with environment `ρ` and state `σ`; the number is the bound on loops and nesting. -/
def Parsec (ρ σ α : Type) := Nat → ρ → σ → List Char → Reply σ α

/-- The input of a reply counts as consumed if some was consumed before it. -/
def Reply.after (consumed : Bool) : Reply σ α → Reply σ α
  | ok consumed' value state rest => ok (consumed || consumed') value state rest
  | error consumed' message => error (consumed || consumed') message
  | abort message => abort message

namespace Parsec

/-! ## Combinators -/

def ret (a : α) : Parsec ρ σ α :=
  fun _ _ s input => .ok false a s input

def andThen (p : Parsec ρ σ α) (f : α → Parsec ρ σ β) : Parsec ρ σ β :=
  fun n env s input =>
    match p n env s input with
    | .ok consumed a s input => (f a n env s input).after consumed
    | .error consumed message => .error consumed message
    | .abort message => .abort message

instance : Monad (Parsec ρ σ) where
  pure := ret
  bind := andThen

def fail (message : String) : Parsec ρ σ α :=
  fun _ _ _ _ => .error false message

/-- `p <|> q` -/
def orElse (p : Parsec ρ σ α) (q : Unit → Parsec ρ σ α) : Parsec ρ σ α :=
  fun n env s input =>
    match p n env s input with
    | .error false _ => q () n env s input
    | reply => reply

instance : OrElse (Parsec ρ σ α) where
  orElse := orElse

/-- `try p`: a failure counts as one without consumption. -/
def attempt (p : Parsec ρ σ α) : Parsec ρ σ α :=
  fun n env s input =>
    match p n env s input with
    | .error _ message => .error false message
    | reply => reply

def lookAhead (p : Parsec ρ σ α) : Parsec ρ σ α :=
  fun n env s input =>
    match p n env s input with
    | .ok _ a _ _ => .ok false a s input
    | reply => reply

def notFollowedBy (p : Parsec ρ σ α) : Parsec ρ σ Unit :=
  fun n env s input =>
    match p n env s input with
    | .ok _ _ _ _ => .error false "unexpected"
    | .error _ _ => .ok false () s input
    | .abort message => .abort message

def ask : Parsec ρ σ ρ :=
  fun _ env s input => .ok false env s input

def getState : Parsec ρ σ σ :=
  fun _ _ s input => .ok false s s input

def modifyState (f : σ → σ) : Parsec ρ σ Unit :=
  fun _ _ s input => .ok false () (f s) input

def getInput : Parsec ρ σ (List Char) :=
  fun _ _ s input => .ok false input s input

def setInput (input : List Char) : Parsec ρ σ Unit :=
  fun _ _ s _ => .ok false () s input

/-- `local f p` -/
def withEnv (f : ρ → ρ) (p : Parsec ρ σ α) : Parsec ρ σ α :=
  fun n env s input => p n (f env) s input

/-- A recursive parser, bounded. -/
def bounded (p : Nat → Parsec ρ σ α) : Parsec ρ σ α :=
  fun n => p n n

/-- `error message`, a program error -/
def abort (message : String) : Parsec ρ σ α :=
  fun _ _ _ _ => .abort message

def exhausted : Parsec ρ σ α :=
  abort "the bound is reached"

def satisfy (q : Char → Bool) : Parsec ρ σ Char :=
  fun _ _ s input =>
    match input with
    | c :: input => if q c then .ok true c s input else .error false "unexpected character"
    | [] => .error false "unexpected end of input"

def eof : Parsec ρ σ Unit :=
  fun _ _ s input =>
    match input with
    | [] => .ok false () s []
    | _ :: _ => .error false "expecting end of input"

/-- A fixed text, consumed whole or not at all. -/
def string (text : String) : Parsec ρ σ String :=
  fun _ _ s input =>
    if text.toList.isPrefixOf input then
      .ok (!text.isEmpty) text s (input.drop text.length)
    else
      .error false ("expecting " ++ text)

def char (c : Char) : Parsec ρ σ Char :=
  satisfy (· == c)

def option (a : α) (p : Parsec ρ σ α) : Parsec ρ σ α :=
  p <|> pure a

def optional (p : Parsec ρ σ α) : Parsec ρ σ (Option α) :=
  (some <$> p) <|> pure none

def manyBounded (p : Parsec ρ σ α) : Nat → Parsec ρ σ (List α)
  | 0 => exhausted
  | k + 1 => (do
      let a ← p
      let as ← manyBounded p k
      return a :: as) <|> pure []

def many (p : Parsec ρ σ α) : Parsec ρ σ (List α) :=
  bounded (manyBounded p)

def many1 (p : Parsec ρ σ α) : Parsec ρ σ (List α) := do
  let a ← p
  let as ← many p
  return a :: as

def skipMany (p : Parsec ρ σ α) : Parsec ρ σ Unit := do
  let _ ← many p

def manyTillBounded (p : Parsec ρ σ α) (finish : Parsec ρ σ β) : Nat → Parsec ρ σ (List α)
  | 0 => exhausted
  | k + 1 => (do
      let _ ← finish
      return []) <|> (do
      let a ← p
      let as ← manyTillBounded p finish k
      return a :: as)

def manyTill (p : Parsec ρ σ α) (finish : Parsec ρ σ β) : Parsec ρ σ (List α) :=
  bounded (manyTillBounded p finish)

def between (opening : Parsec ρ σ β) (closing : Parsec ρ σ β) (p : Parsec ρ σ α) :
    Parsec ρ σ α := do
  let _ ← opening
  let a ← p
  let _ ← closing
  return a

def sepBy1 (p : Parsec ρ σ α) (separator : Parsec ρ σ β) : Parsec ρ σ (List α) := do
  let a ← p
  let as ← many (do
    let _ ← separator
    p)
  return a :: as

def endBy (p : Parsec ρ σ α) (separator : Parsec ρ σ β) : Parsec ρ σ (List α) :=
  many (do
    let a ← p
    let _ ← separator
    return a)

/-- At least one item, with separators between and perhaps behind them. -/
def sepEndBy1Bounded (p : Parsec ρ σ α) (separator : Parsec ρ σ β) : Nat → Parsec ρ σ (List α)
  | 0 => exhausted
  | k + 1 => do
      let a ← p
      let more ← option false (do
        let _ ← separator
        return true)
      if more then do
        let as ← sepEndBy1Bounded p separator k <|> pure []
        return a :: as
      else
        return [a]

def sepEndBy1 (p : Parsec ρ σ α) (separator : Parsec ρ σ β) : Parsec ρ σ (List α) :=
  bounded (sepEndBy1Bounded p separator)

/-! ## What a parser ensures -/

/-- Whatever the parser returns from an environment and a state, with its new state, is in `Q`. -/
def Ensures (env : ρ) (s : σ) (p : Parsec ρ σ α) (Q : α → σ → Prop) : Prop :=
  ∀ n input consumed a s' rest, p n env s input = .ok consumed a s' rest → Q a s'

/-- The parser leaves the state as it is, and what it returns is in `Q`. -/
def Reads (env : ρ) (s : σ) (p : Parsec ρ σ α) (Q : α → Prop) : Prop :=
  Ensures env s p fun a s' => s' = s ∧ Q a

theorem Reply.after_eq_ok {consumed consumed' : Bool} {r : Reply σ α} {a : α} {s : σ}
    {rest : List Char} (h : r.after consumed = .ok consumed' a s rest) :
    ∃ c, r = .ok c a s rest := by
  cases r with
  | ok c a' s' rest' =>
      simp only [Reply.after, Reply.ok.injEq] at h
      obtain ⟨-, rfl, rfl, rfl⟩ := h
      exact ⟨c, rfl⟩
  | error | abort => cases h

section

variable {p : Parsec ρ σ α} {f : α → Parsec ρ σ β} {n : Nat} {env : ρ} {s s' : σ}
  {input rest : List Char} {b : β}

/-- What two parsers return one after the other comes from what the first one returns. -/
theorem exists_of_bind_eq_ok {consumed : Bool}
    (h : (p >>= f) n env s input = .ok consumed b s' rest) :
    ∃ c a s₁ rest₁ c', p n env s input = .ok c a s₁ rest₁ ∧
      f a n env s₁ rest₁ = .ok c' b s' rest := by
  change andThen p f n env s input = _ at h
  unfold andThen at h
  split at h
  · next c a s₁ rest₁ hp =>
      obtain ⟨c', hf⟩ := Reply.after_eq_ok h
      exact ⟨c, a, s₁, rest₁, c', hp, hf⟩
  · cases h
  · cases h

theorem exists_bind_eq_ok {c : Bool} {a : α} {s₁ : σ} {rest₁ : List Char}
    (hp : p n env s input = .ok c a s₁ rest₁)
    (hf : ∃ c', f a n env s₁ rest₁ = .ok c' b s' rest) :
    ∃ consumed, (p >>= f) n env s input = .ok consumed b s' rest := by
  obtain ⟨c', hf⟩ := hf
  refine ⟨c || c', ?_⟩
  change andThen p f n env s input = _
  simp only [andThen, hp, hf, Reply.after]

end

section

variable {env : ρ} {s : σ} {p q : Parsec ρ σ α} {f : α → Parsec ρ σ β} {Q : α → σ → Prop}
  {R : β → σ → Prop}

namespace Ensures

theorem mono (h : Ensures env s p Q) {Q' : α → σ → Prop} (hQ : ∀ a s', Q a s' → Q' a s') :
    Ensures env s p Q' :=
  fun n input consumed a s' rest hp => hQ a s' (h n input consumed a s' rest hp)

theorem pure {a : α} (h : Q a s) : Ensures env s (pure a : Parsec ρ σ α) Q := by
  rintro n input consumed a' s' rest hp
  cases hp
  exact h

theorem bind (hp : Ensures env s p Q) (hf : ∀ a s', Q a s' → Ensures env s' (f a) R) :
    Ensures env s (p >>= f) R := by
  intro n input consumed b s' rest h
  change andThen p f n env s input = _ at h
  unfold andThen at h
  cases hrun : p n env s input with
  | ok c a s₁ input₁ =>
      rw [hrun] at h
      obtain ⟨c', hrest⟩ := Reply.after_eq_ok h
      exact hf a s₁ (hp n input c a s₁ input₁ hrun) n input₁ c' b s' rest hrest
  | error | abort => rw [hrun] at h; cases h

theorem map {g : α → β} (hp : Ensures env s p fun a s' => R (g a) s') :
    Ensures env s (g <$> p) R :=
  hp.bind fun _ _ h => Ensures.pure h

theorem fail (message : String) : Ensures env s (fail message : Parsec ρ σ α) Q := by
  intro n input consumed a s' rest h
  cases h

theorem orElse {q : Unit → Parsec ρ σ α} (hp : Ensures env s p Q) (hq : Ensures env s (q ()) Q) :
    Ensures env s (p.orElse q) Q := by
  intro n input consumed a s' rest h
  unfold Parsec.orElse at h
  cases hrun : p n env s input with
  | ok c a₁ s₁ rest₁ =>
      rw [hrun] at h
      cases h
      exact hp n input _ a s' rest hrun
  | error c message =>
      rw [hrun] at h
      cases c with
      | false => exact hq n input consumed a s' rest h
      | true => cases h
  | abort => rw [hrun] at h; cases h

theorem orElse' (hp : Ensures env s p Q) (hq : Ensures env s q Q) :
    Ensures env s (p <|> q) Q :=
  hp.orElse hq

theorem attempt (hp : Ensures env s p Q) : Ensures env s p.attempt Q := by
  intro n input consumed a s' rest h
  unfold Parsec.attempt at h
  cases hrun : p n env s input with
  | ok c a₁ s₁ rest₁ =>
      rw [hrun] at h
      cases h
      exact hp n input _ a s' rest hrun
  | error | abort => rw [hrun] at h; cases h

theorem withEnv {g : ρ → ρ} (hp : Ensures (g env) s p Q) : Ensures env s (p.withEnv g) Q :=
  hp

theorem ask {Q : ρ → σ → Prop} (h : Q env s) : Ensures env s ask Q := by
  intro n input consumed a s' rest hp
  cases hp
  exact h

theorem getState {Q : σ → σ → Prop} (h : Q s s) : Ensures env s getState Q := by
  intro n input consumed a s' rest hp
  cases hp
  exact h

theorem modifyState {g : σ → σ} {Q : Unit → σ → Prop} (h : Q () (g s)) :
    Ensures env s (modifyState g) Q := by
  intro n input consumed a s' rest hp
  cases hp
  exact h

theorem bounded {p : Nat → Parsec ρ σ α} (h : ∀ k, Ensures env s (p k) Q) :
    Ensures env s (bounded p) Q :=
  fun n => h n n

theorem abort (message : String) : Ensures env s (abort message : Parsec ρ σ α) Q := by
  intro n input consumed a s' rest h
  cases h

theorem exhausted : Ensures env s (exhausted : Parsec ρ σ α) Q :=
  abort _

/-- A loop keeps what every turn keeps, of the values so far and the state. -/
theorem many_values {I : List α → σ → Prop} (hs : I [] s)
    (hp : ∀ as s, I as s → Ensures env s p fun a s' => I (as ++ [a]) s') :
    Ensures env s (Parsec.many p) I := by
  have hbounded : ∀ k as s, I as s →
      Ensures env s (manyBounded p k) fun as' s' => I (as ++ as') s' := by
    intro k
    induction k with
    | zero => exact fun _ s _ => exhausted
    | succ k ih =>
        intro as s hs
        refine orElse' ((hp as s hs).bind fun a s' ha => ?_) (Ensures.pure (by simpa using hs))
        refine (ih (as ++ [a]) s' ha).bind fun as' s'' has => Ensures.pure ?_
        simpa using has
  intro n input consumed as s' rest h
  simpa using hbounded n [] s hs n input consumed as s' rest h

/-- A loop keeps what every turn keeps. -/
theorem many {I : σ → Prop} {P : α → Prop} (hs : I s)
    (hp : ∀ s, I s → Ensures env s p fun a s' => I s' ∧ P a) :
    Ensures env s (Parsec.many p) fun as s' => I s' ∧ ∀ a ∈ as, P a := by
  refine many_values ⟨hs, by simp⟩ fun as s hI => (hp s hI.1).mono fun a s' ha => ⟨ha.1, ?_⟩
  intro a' ha'
  rcases List.mem_append.1 ha' with h | h
  · exact hI.2 a' h
  · obtain rfl := List.mem_singleton.1 h
    exact ha.2

end Ensures

/-! ## Parsers that leave the state alone -/

namespace Reads

variable {P : α → Prop} {P' : β → Prop}

theorem mono (h : Reads env s p P) {Q' : α → Prop} (hQ : ∀ a, P a → Q' a) : Reads env s p Q' :=
  Ensures.mono h fun a _ ha => ⟨ha.1, hQ a ha.2⟩

theorem pure {a : α} (h : P a) : Reads env s (pure a : Parsec ρ σ α) P :=
  Ensures.pure ⟨rfl, h⟩

theorem bind (hp : Reads env s p P) (hf : ∀ a, P a → Reads env s (f a) P') :
    Reads env s (p >>= f) P' := by
  refine Ensures.bind hp fun a s' ha => ?_
  obtain ⟨rfl, ha⟩ := ha
  exact hf a ha

theorem map {g : α → β} (hp : Reads env s p fun a => P' (g a)) : Reads env s (g <$> p) P' :=
  hp.bind fun _ h => pure h

theorem fail (message : String) : Reads env s (fail message : Parsec ρ σ α) P :=
  Ensures.fail message

theorem orElse (hp : Reads env s p P) (hq : Reads env s q P) : Reads env s (p <|> q) P :=
  Ensures.orElse' hp hq

theorem attempt (hp : Reads env s p P) : Reads env s p.attempt P :=
  Ensures.attempt hp

theorem lookAhead (hp : Reads env s p P) : Reads env s p.lookAhead P := by
  intro n input consumed a s' rest h
  unfold Parsec.lookAhead at h
  cases hrun : p n env s input with
  | ok c a₁ s₁ rest₁ =>
      rw [hrun] at h
      cases h
      exact ⟨rfl, (hp n input c a s₁ rest₁ hrun).2⟩
  | error | abort => rw [hrun] at h; cases h

theorem notFollowedBy : Reads env s p.notFollowedBy fun _ => True := by
  intro n input consumed a s' rest h
  unfold Parsec.notFollowedBy at h
  cases hrun : p n env s input with
  | ok | abort => rw [hrun] at h; cases h
  | error => rw [hrun] at h; cases h; exact ⟨rfl, trivial⟩

theorem ask {P : ρ → Prop} (h : P env) : Reads env s ask P :=
  Ensures.ask ⟨rfl, h⟩

theorem getState {P : σ → Prop} (h : P s) : Reads env s getState P :=
  Ensures.getState ⟨rfl, h⟩

theorem getInput : Reads env s getInput fun _ => True := by
  intro n input consumed a s' rest h
  cases h
  exact ⟨rfl, trivial⟩

theorem setInput {input : List Char} : Reads env s (setInput input) fun _ => True := by
  intro n input consumed a s' rest h
  cases h
  exact ⟨rfl, trivial⟩

theorem withEnv {g : ρ → ρ} (hp : Reads (g env) s p P) : Reads env s (p.withEnv g) P :=
  hp

theorem bounded {p : Nat → Parsec ρ σ α} (h : ∀ k, Reads env s (p k) P) :
    Reads env s (bounded p) P :=
  Ensures.bounded h

theorem satisfy {q : Char → Bool} : Reads env s (satisfy q) fun c => q c = true := by
  intro n input consumed c s' rest h
  cases input with
  | nil => cases h
  | cons c₁ input =>
      unfold Parsec.satisfy at h
      dsimp only at h
      split at h
      · next hc =>
          cases h
          exact ⟨rfl, hc⟩
      · cases h

theorem char {c : Char} : Reads env s (char c) fun _ => True :=
  satisfy.mono fun _ _ => trivial

theorem string {text : String} : Reads env s (string text) fun _ => True := by
  intro n input consumed c s' rest h
  unfold Parsec.string at h
  split at h
  · cases h
    exact ⟨rfl, trivial⟩
  · cases h

theorem eof : Reads env s eof fun _ => True := by
  intro n input consumed a s' rest h
  cases input with
  | nil => cases h; exact ⟨rfl, trivial⟩
  | cons => cases h

theorem option {a : α} (ha : P a) (hp : Reads env s p P) : Reads env s (option a p) P :=
  orElse hp (pure ha)

theorem optional (hp : Reads env s p P) :
    Reads env s p.optional fun o => ∀ a, o = some a → P a := by
  refine orElse (map (hp.mono fun a ha a' h => ?_)) (pure fun a h => ?_)
  · cases h
    exact ha
  · cases h

theorem many (hp : Reads env s p P) : Reads env s (many p) fun as => ∀ a ∈ as, P a := by
  have hturn : ∀ s', s' = s → Ensures env s' p fun a s'' => s'' = s ∧ P a := by
    rintro s' rfl
    exact hp
  exact Ensures.many rfl hturn

theorem many1 (hp : Reads env s p P) : Reads env s (many1 p) fun as => ∀ a ∈ as, P a :=
  hp.bind fun _ ha => hp.many.bind fun _ has => pure (List.forall_mem_cons.2 ⟨ha, has⟩)

theorem skipMany (hp : Reads env s p P) : Reads env s (skipMany p) fun _ => True :=
  hp.many.bind fun _ _ => pure trivial

theorem manyTill {finish : Parsec ρ σ β} (hp : Reads env s p P) (hfinish : Reads env s finish P') :
    Reads env s (manyTill p finish) fun as => ∀ a ∈ as, P a := by
  refine bounded fun k => ?_
  induction k with
  | zero => exact Ensures.exhausted
  | succ k ih =>
      refine orElse (hfinish.bind fun _ _ => pure (by simp)) (hp.bind fun a ha => ?_)
      exact Reads.bind ih fun as has => pure (List.forall_mem_cons.2 ⟨ha, has⟩)

theorem between {opening closing : Parsec ρ σ β} (ho : Reads env s opening P')
    (hc : Reads env s closing P') (hp : Reads env s p P) :
    Reads env s (between opening closing p) P :=
  ho.bind fun _ _ => hp.bind fun _ ha => hc.bind fun _ _ => pure ha

theorem sepBy1 {separator : Parsec ρ σ β} (hsep : Reads env s separator P')
    (hp : Reads env s p P) : Reads env s (sepBy1 p separator) fun as => ∀ a ∈ as, P a :=
  hp.bind fun _ ha => (hsep.bind fun _ _ => hp).many.bind fun _ has =>
    pure (List.forall_mem_cons.2 ⟨ha, has⟩)

theorem endBy {separator : Parsec ρ σ β} (hsep : Reads env s separator P') (hp : Reads env s p P) :
    Reads env s (endBy p separator) fun as => ∀ a ∈ as, P a :=
  many (hp.bind fun _ ha => hsep.bind fun _ _ => pure ha)

theorem sepEndBy1 {separator : Parsec ρ σ β} (hsep : Reads env s separator P')
    (hp : Reads env s p P) : Reads env s (sepEndBy1 p separator) fun as => ∀ a ∈ as, P a := by
  refine bounded fun k => ?_
  induction k with
  | zero => exact Ensures.exhausted
  | succ k ih =>
      refine hp.bind fun a ha => ?_
      have hmore : Reads env s (Parsec.option false (do let _ ← separator; return true))
          fun _ => True :=
        option trivial (hsep.bind fun _ _ => pure trivial)
      refine hmore.bind fun more _ => ?_
      have hsingle : ∀ a' ∈ [a], P a' := by simpa using ha
      cases more with
      | true =>
          refine (orElse ih (pure (by simp))).bind fun as has => ?_
          exact pure (List.forall_mem_cons.2 ⟨ha, has⟩)
      | false => exact pure hsingle

end Reads

end

end Parsec

end Bond.Lib

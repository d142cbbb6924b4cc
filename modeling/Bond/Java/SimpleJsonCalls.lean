import Bond.Java.SimpleJsonRoundTrip

set_option autoImplicit false

/-! # Nested calls of a Simple JSON reader in Java

What a `SimpleJsonReader` answers to the calls of a client that nests them as `TextProtocolReader` says,
on any tokens, and which tokens it takes for each call. -/

namespace Bond.Java.SimpleJson

open Bond.Cpp (BasicType)
open Bond.Managed

/-! ## Calls -/

inductive Call where
  | readStructBegin
  | readStructEnd
  | readFieldBegin
  | readFieldEnd
  | readContainerBegin
  | readContainerEnd
  | readContainerItemBegin
  | readContainerItemEnd
  /-- the method for a basic type -/
  | read (type : BasicType)
deriving DecidableEq, Repr

/-- What a call returns. -/
inductive Answer where
  | done
  | field (name : Option String)
  | item (more : Bool)
  | value (v : BasicValue)

/-- A call that returned, and what. -/
abbrev Entry := Call × Answer

/-! ## Clients -/

/-- What a client still has to do, for a value or a part of one. -/
inductive Goal where
  | value
  /-- fields, until there are no more -/
  | fields
  | fieldEnd
  | structEnd
  /-- items, until there are no more -/
  | items
  | itemEnd
  | containerEnd
deriving DecidableEq, Repr

/-- The tokens that are values by themselves. -/
def JsonToken.isScalar : JsonToken → Bool
  | .valueString _ | .valueNumberInt _ | .valueNumberFloat _ => true
  | .valueTrue | .valueFalse | .valueNull => true
  | _ => false

/-- The tokens that stand for a call and its answer. -/
inductive Consumes (jackson : Jackson) : Entry → List JsonToken → Prop
  | structBegin : Consumes jackson (.readStructBegin, .done) [.startObject]
  | structEnd : Consumes jackson (.readStructEnd, .done) []
  | field (name : String) :
      Consumes jackson (.readFieldBegin, .field (some name)) [.fieldName name]
  | noField : Consumes jackson (.readFieldBegin, .field none) [.endObject]
  | fieldEnd : Consumes jackson (.readFieldEnd, .done) []
  | containerBegin : Consumes jackson (.readContainerBegin, .done) [.startArray]
  | item (more : Bool) : Consumes jackson (.readContainerItemBegin, .item more) []
  | itemEnd : Consumes jackson (.readContainerItemEnd, .done) []
  | containerEnd : Consumes jackson (.readContainerEnd, .done) [.endArray]
  | scalar {type : BasicType} {token : JsonToken} {v : BasicValue} {reader : SimpleJsonReader} :
      token.isScalar = true → read jackson type (.ofTokens [token]) = .ok (v, reader) →
      Consumes jackson (.read type, .value v) [token]

/-- The tokens that stand for calls, in order. -/
inductive Accounts (jackson : Jackson) : List Entry → List JsonToken → Prop
  | nil : Accounts jackson [] []
  | snoc {log : List Entry} {entry : Entry} {tokens tokens' : List JsonToken} :
      Accounts jackson log tokens → Consumes jackson entry tokens' →
      Accounts jackson (log ++ [entry]) (tokens ++ tokens')

-- The calls for a value, for fields and for items, with the tokens they take.
mutual

inductive ReadsValue (jackson : Jackson) : List Entry → List JsonToken → Prop
  | scalar {type : BasicType} {token : JsonToken} {v : BasicValue} :
      Consumes jackson (.read type, .value v) [token] → token.isScalar = true →
      ReadsValue jackson [(.read type, .value v)] [token]
  | struct {log : List Entry} {tokens : List JsonToken} : ReadsFields jackson log tokens →
      ReadsValue jackson
        ((.readStructBegin, .done) :: log ++ [(.readFieldBegin, .field none), (.readStructEnd, .done)])
        (.startObject :: tokens ++ [.endObject])
  | container {log : List Entry} {tokens : List JsonToken} : ReadsItems jackson log tokens →
      ReadsValue jackson
        ((.readContainerBegin, .done) :: log ++
          [(.readContainerItemBegin, .item false), (.readContainerEnd, .done)])
        (.startArray :: tokens ++ [.endArray])

inductive ReadsFields (jackson : Jackson) : List Entry → List JsonToken → Prop
  | nil : ReadsFields jackson [] []
  | snoc {log log' : List Entry} {tokens tokens' : List JsonToken} (name : String) :
      ReadsFields jackson log tokens → ReadsValue jackson log' tokens' →
      ReadsFields jackson
        (log ++ (.readFieldBegin, .field (some name)) :: log' ++ [(.readFieldEnd, .done)])
        (tokens ++ .fieldName name :: tokens')

inductive ReadsItems (jackson : Jackson) : List Entry → List JsonToken → Prop
  | nil : ReadsItems jackson [] []
  | snoc {log log' : List Entry} {tokens tokens' : List JsonToken} :
      ReadsItems jackson log tokens → ReadsValue jackson log' tokens' →
      ReadsItems jackson
        (log ++ (.readContainerItemBegin, .item true) :: log' ++ [(.readContainerItemEnd, .done)])
        (tokens ++ tokens')

end

-- The tokens of complete values, of fields and of items.
mutual

inductive CompleteValue : List JsonToken → Prop
  | scalar {token : JsonToken} : token.isScalar = true → CompleteValue [token]
  | object {tokens : List JsonToken} : CompleteFields tokens →
      CompleteValue (.startObject :: tokens ++ [.endObject])
  | array {tokens : List JsonToken} : CompleteItems tokens →
      CompleteValue (.startArray :: tokens ++ [.endArray])

inductive CompleteFields : List JsonToken → Prop
  | nil : CompleteFields []
  | snoc {tokens tokens' : List JsonToken} (name : String) : CompleteFields tokens →
      CompleteValue tokens' → CompleteFields (tokens ++ .fieldName name :: tokens')

inductive CompleteItems : List JsonToken → Prop
  | nil : CompleteItems []
  | snoc {tokens tokens' : List JsonToken} : CompleteItems tokens → CompleteValue tokens' →
      CompleteItems (tokens ++ tokens')

end

/-- There are no more items exactly if the next token is the end of the array that was begun for the
    container: what was read behind its beginning are complete items. -/
def ItemsEnd (jackson : Jackson) (stream : List JsonToken) (log : List Entry) : Prop :=
  ∀ before more after, log = before ++ (.readContainerItemBegin, .item more) :: after →
    ∃ outer inner tokens tokens' left, before = outer ++ (.readContainerBegin, .done) :: inner ∧
      stream = tokens ++ .startArray :: tokens' ++ left ∧ Accounts jackson outer tokens ∧
      ReadsItems jackson inner tokens' ∧ (more = false ↔ left.head? = some .endArray)

/-- The method takes one token, and what it returns or throws depends on that only. What it returns has
    the property. -/
def OneToken {α : Type} (op : TextReader α) (P : JsonToken → α → Prop) : Prop :=
  ∃ f, op = advanceParserToNextToken >>= f ∧
    ∀ token, (∃ a, f token = pure a ∧ P token a) ∨ ∃ e, f token = throwText e

section

variable {α β : Type} {op : TextReader α} {P : JsonToken → α → Prop}

theorem OneToken.map (h : OneToken op P) (g : α → β) :
    OneToken (g <$> op) fun token b => ∃ a, P token a ∧ g a = b := by
  obtain ⟨f, rfl, hf⟩ := h
  refine ⟨fun token => g <$> f token, map_bind _ _ _, fun token => ?_⟩
  rcases hf token with ⟨a, ha, hP⟩ | ⟨e, he⟩
  · refine .inl ⟨g a, ?_, a, hP, rfl⟩
    dsimp only
    rw [ha, map_pure]
  · refine .inr ⟨e, ?_⟩
    dsimp only
    rw [he]
    rfl

theorem OneToken.mono (h : OneToken op P) {Q : JsonToken → α → Prop}
    (hPQ : ∀ token a, P token a → Q token a) : OneToken op Q := by
  obtain ⟨f, rfl, hf⟩ := h
  refine ⟨f, rfl, fun token => ?_⟩
  rcases hf token with ⟨a, ha, hP⟩ | he
  · exact .inl ⟨a, ha, hPQ token a hP⟩
  · exact .inr he

/-- At the end of the input there is no token to take. -/
theorem exists_left_of_advance {reader reader' : SimpleJsonReader} {token : JsonToken}
    (h : advanceParserToNextToken reader = .ok (token, reader')) :
    reader.left = token :: reader'.left ∧ reader'.hasPeekedParserForNextToken = false := by
  obtain ⟨⟨tokens, currentToken⟩, hasPeeked⟩ := reader
  cases hasPeeked with
  | false =>
      cases tokens with
      | nil => cases h
      | cons token' tokens =>
          cases h
          exact ⟨rfl, rfl⟩
  | true =>
      cases currentToken with
      | none => cases h
      | some token' =>
          cases h
          exact ⟨rfl, rfl⟩

/-- What a method returns that takes one token. -/
theorem OneToken.of_ok (h : OneToken op P) {reader reader' : SimpleJsonReader} {a : α}
    (hop : op reader = .ok (a, reader')) :
    ∃ token, reader.left = token :: reader'.left ∧ reader'.hasPeekedParserForNextToken = false ∧
      P token a ∧ ∃ reader'', op (.ofTokens [token]) = .ok (a, reader'') := by
  obtain ⟨f, rfl, hf⟩ := h
  change (advanceParserToNextToken reader >>= fun r => f r.1 r.2) = _ at hop
  cases hadvance : advanceParserToNextToken reader with
  | error e =>
      rw [hadvance] at hop
      cases hop
  | ok r =>
      obtain ⟨token, reader₁⟩ := r
      rw [hadvance] at hop
      obtain ⟨hleft, hflag⟩ := exists_left_of_advance hadvance
      change f token reader₁ = _ at hop
      rcases hf token with ⟨a', ha, hP⟩ | ⟨e, he⟩
      · rw [ha] at hop
        cases hop
        refine ⟨token, hleft, hflag, hP, ⟨⟨[], some token⟩, false⟩, ?_⟩
        change f token ⟨⟨[], some token⟩, false⟩ = _
        rw [ha]
        rfl
      · rw [he] at hop
        cases hop

end

section

variable (jackson : Jackson)

end

/-! ## Complete values -/

/-- How many objects and arrays a token begins, or ends. -/
def JsonToken.nesting : JsonToken → Int
  | .startObject | .startArray => 1
  | .endObject | .endArray => -1
  | _ => 0

def nesting (tokens : List JsonToken) : Int :=
  (tokens.map JsonToken.nesting).sum

@[simp] theorem nesting_nil : nesting [] = 0 := rfl

@[simp] theorem nesting_cons (token : JsonToken) (tokens : List JsonToken) :
    nesting (token :: tokens) = token.nesting + nesting tokens := by
  simp [nesting]

@[simp] theorem nesting_append (tokens tokens' : List JsonToken) :
    nesting (tokens ++ tokens') = nesting tokens + nesting tokens' := by
  simp [nesting]

/-- All that is begun is ended, and not before. -/
def Balanced (tokens : List JsonToken) : Prop :=
  nesting tokens = 0 ∧ ∀ first second, tokens = first ++ second → 0 ≤ nesting first

/-- The first token begins what the last one ends. -/
def Enclosed (tokens : List JsonToken) : Prop :=
  nesting tokens = 0 ∧
    ∀ first second, tokens = first ++ second → first ≠ [] → second ≠ [] → 0 < nesting first

theorem Enclosed.balanced {tokens : List JsonToken} (h : Enclosed tokens) : Balanced tokens := by
  refine ⟨h.1, fun first second heq => ?_⟩
  by_cases hfirst : first = []
  · rw [hfirst, nesting_nil]
  · by_cases hsecond : second = []
    · rw [hsecond, List.append_nil] at heq
      rw [← heq, h.1]
    · exact Int.le_of_lt (h.2 first second heq hfirst hsecond)

theorem Balanced.append {tokens tokens' : List JsonToken} (h : Balanced tokens)
    (h' : Balanced tokens') : Balanced (tokens ++ tokens') := by
  refine ⟨by rw [nesting_append, h.1, h'.1, Int.add_zero], fun first second heq => ?_⟩
  rcases List.append_eq_append_iff.1 heq with ⟨middle, rfl, htokens'⟩ | ⟨middle, rfl, -⟩
  · rw [nesting_append, h.1, Int.zero_add]
    exact h'.2 middle second htokens'
  · exact h.2 first middle rfl

theorem enclosed_of_balanced {tokens : List JsonToken} (h : Balanced tokens)
    {opening closing : JsonToken} (hopening : opening.nesting = 1) (hclosing : closing.nesting = -1) :
    Enclosed (opening :: tokens ++ [closing]) := by
  refine ⟨?_, fun first second heq hfirst hsecond => ?_⟩
  · rw [List.cons_append, nesting_cons, nesting_append, nesting_cons, h.1, hopening, hclosing]
    rfl
  · obtain ⟨token, first, rfl⟩ := List.exists_cons_of_ne_nil hfirst
    rw [List.cons_append, List.cons_append] at heq
    obtain ⟨rfl, htail⟩ := List.cons.inj heq
    have hbegun : 0 ≤ nesting first := by
      rcases List.append_eq_append_iff.1 htail with ⟨middle, rfl, hlast⟩ | ⟨middle, htokens, -⟩
      · -- All that is left for the second part is the closing token.
        have hmiddle : middle = [] := by
          rcases List.singleton_eq_append_iff.1 hlast with ⟨hnil, -⟩ | ⟨-, hnil⟩
          · exact hnil
          · exact absurd hnil hsecond
        rw [hmiddle, List.append_nil, h.1]
      · exact h.2 first middle htokens
    rw [nesting_cons, hopening]
    omega

theorem enclosed_scalar {token : JsonToken} (h : token.isScalar = true) : Enclosed [token] := by
  refine ⟨?_, fun first second heq hfirst hsecond => ?_⟩
  · cases token <;> first | rfl | cases h
  · rcases List.singleton_eq_append_iff.1 heq with ⟨hnil, -⟩ | ⟨-, hnil⟩
    · exact absurd hnil hfirst
    · exact absurd hnil hsecond

theorem balanced_nil : Balanced [] :=
  ⟨rfl, fun first second heq => by simp [(List.nil_eq_append_iff.1 heq).1]⟩

theorem balanced_fieldName (name : String) : Balanced [.fieldName name] := by
  refine ⟨rfl, fun first second heq => ?_⟩
  rcases List.singleton_eq_append_iff.1 heq with ⟨rfl, -⟩ | ⟨rfl, -⟩
  · exact Int.le_refl 0
  · exact Int.le_refl 0

mutual

theorem CompleteValue.enclosed {tokens : List JsonToken} : CompleteValue tokens → Enclosed tokens
  | .scalar hscalar => enclosed_scalar hscalar
  | .object hfields => enclosed_of_balanced hfields.balanced rfl rfl
  | .array hitems => enclosed_of_balanced hitems.balanced rfl rfl

theorem CompleteFields.balanced {tokens : List JsonToken} : CompleteFields tokens → Balanced tokens
  | .nil => balanced_nil
  | .snoc name hfields hvalue =>
      hfields.balanced.append ((balanced_fieldName name).append hvalue.enclosed.balanced)

theorem CompleteItems.balanced {tokens : List JsonToken} : CompleteItems tokens → Balanced tokens
  | .nil => balanced_nil
  | .snoc hitems hvalue => hitems.balanced.append hvalue.enclosed.balanced

end

theorem CompleteValue.ne_nil {tokens : List JsonToken} (h : CompleteValue tokens) : tokens ≠ [] := by
  cases h with
  | scalar => exact List.cons_ne_nil _ _
  | object | array => exact List.cons_ne_nil _ _

section

variable {jackson : Jackson} {log log' : List Entry} {tokens tokens' : List JsonToken}
  {goals : List Goal}

theorem Accounts.append (h : Accounts jackson log tokens) (h' : Accounts jackson log' tokens') :
    Accounts jackson (log ++ log') (tokens ++ tokens') := by
  induction h' with
  | nil =>
      rw [List.append_nil, List.append_nil]
      exact h
  | snoc _ hentry ih =>
      rw [← List.append_assoc, ← List.append_assoc]
      exact .snoc ih hentry

theorem Accounts.single {entry : Entry} (h : Consumes jackson entry tokens) :
    Accounts jackson [entry] tokens :=
  .snoc .nil h

theorem Accounts.cons {entry : Entry} (h : Consumes jackson entry tokens)
    (h' : Accounts jackson log' tokens') : Accounts jackson (entry :: log') (tokens ++ tokens') :=
  (Accounts.single h).append h'

-- The calls take the tokens, and these are complete.
mutual

theorem ReadsValue.accounts {log : List Entry} {tokens : List JsonToken} :
    ReadsValue jackson log tokens → Accounts jackson log tokens
  | .scalar hscalar _ => .single hscalar
  | .struct hfields =>
      (Accounts.cons .structBegin hfields.accounts).append (.cons .noField (.single .structEnd))
  | .container hitems =>
      (Accounts.cons .containerBegin hitems.accounts).append
        (.cons (.item false) (.single .containerEnd))

theorem ReadsFields.accounts {log : List Entry} {tokens : List JsonToken} :
    ReadsFields jackson log tokens → Accounts jackson log tokens
  | .nil => .nil
  | .snoc name hfields hvalue => by
      have hfield := hfields.accounts.append (.cons (.field name) hvalue.accounts)
      have hall := hfield.append (.single .fieldEnd)
      rwa [List.append_nil] at hall

theorem ReadsItems.accounts {log : List Entry} {tokens : List JsonToken} :
    ReadsItems jackson log tokens → Accounts jackson log tokens
  | .nil => .nil
  | .snoc hitems hvalue => by
      have hitem := hitems.accounts.append (.cons (.item true) hvalue.accounts)
      have hall := hitem.append (.single .itemEnd)
      rwa [List.append_nil] at hall

end

mutual

theorem ReadsValue.complete {log : List Entry} {tokens : List JsonToken} :
    ReadsValue jackson log tokens → CompleteValue tokens
  | .scalar _ hscalar => .scalar hscalar
  | .struct hfields => .object hfields.complete
  | .container hitems => .array hitems.complete

theorem ReadsFields.complete {log : List Entry} {tokens : List JsonToken} :
    ReadsFields jackson log tokens → CompleteFields tokens
  | .nil => .nil
  | .snoc name hfields hvalue => .snoc name hfields.complete hvalue.complete

theorem ReadsItems.complete {log : List Entry} {tokens : List JsonToken} :
    ReadsItems jackson log tokens → CompleteItems tokens
  | .nil => .nil
  | .snoc hitems hvalue => .snoc hitems.complete hvalue.complete

end

/-- The calls of a client that has the goals left, and the tokens taken for them. -/
inductive Open (jackson : Jackson) : List Goal → List Entry → List JsonToken → Prop
  | start : Open jackson [.value] [] []
  | finished {log : List Entry} {tokens : List JsonToken} : ReadsValue jackson log tokens →
      Open jackson [] log tokens
  | fields {goals : List Goal} {log log' : List Entry} {tokens tokens' : List JsonToken} :
      Open jackson (.value :: goals) log tokens → ReadsFields jackson log' tokens' →
      Open jackson (.fields :: goals) (log ++ (.readStructBegin, .done) :: log')
        (tokens ++ .startObject :: tokens')
  | field {goals : List Goal} {log : List Entry} {tokens : List JsonToken} (name : String) :
      Open jackson (.fields :: goals) log tokens →
      Open jackson (.value :: .fieldEnd :: .fields :: goals)
        (log ++ [(.readFieldBegin, .field (some name))]) (tokens ++ [.fieldName name])
  | fieldEnd {goals : List Goal} {log log' : List Entry} {tokens tokens' : List JsonToken} :
      Open jackson (.value :: .fieldEnd :: goals) log tokens → ReadsValue jackson log' tokens' →
      Open jackson (.fieldEnd :: goals) (log ++ log') (tokens ++ tokens')
  | structEnd {goals : List Goal} {log : List Entry} {tokens : List JsonToken} :
      Open jackson (.fields :: goals) log tokens →
      Open jackson (.structEnd :: goals) (log ++ [(.readFieldBegin, .field none)])
        (tokens ++ [.endObject])
  | items {goals : List Goal} {log log' : List Entry} {tokens tokens' : List JsonToken} :
      Open jackson (.value :: goals) log tokens → ReadsItems jackson log' tokens' →
      Open jackson (.items :: goals) (log ++ (.readContainerBegin, .done) :: log')
        (tokens ++ .startArray :: tokens')
  | item {goals : List Goal} {log : List Entry} {tokens : List JsonToken} :
      Open jackson (.items :: goals) log tokens →
      Open jackson (.value :: .itemEnd :: .items :: goals)
        (log ++ [(.readContainerItemBegin, .item true)]) tokens
  | itemEnd {goals : List Goal} {log log' : List Entry} {tokens tokens' : List JsonToken} :
      Open jackson (.value :: .itemEnd :: goals) log tokens → ReadsValue jackson log' tokens' →
      Open jackson (.itemEnd :: goals) (log ++ log') (tokens ++ tokens')
  | containerEnd {goals : List Goal} {log : List Entry} {tokens : List JsonToken} :
      Open jackson (.items :: goals) log tokens →
      Open jackson (.containerEnd :: goals) (log ++ [(.readContainerItemBegin, .item false)]) tokens

theorem Open.accounts (h : Open jackson goals log tokens) : Accounts jackson log tokens := by
  induction h with
  | start => exact .nil
  | finished hvalue => exact hvalue.accounts
  | fields _ hfields ih => exact ih.append (.cons .structBegin hfields.accounts)
  | field name _ ih => exact ih.snoc (.field name)
  | fieldEnd _ hvalue ih => exact ih.append hvalue.accounts
  | structEnd _ ih => exact ih.snoc .noField
  | items _ hitems ih => exact ih.append (.cons .containerBegin hitems.accounts)
  | item _ ih =>
      have hall := ih.snoc (.item true)
      rwa [List.append_nil] at hall
  | itemEnd _ hvalue ih => exact ih.append hvalue.accounts
  | containerEnd _ ih =>
      have hall := ih.snoc (.item false)
      rwa [List.append_nil] at hall

/-- A value has been read. -/
theorem Open.value (h : Open jackson (.value :: goals) log tokens)
    (hvalue : ReadsValue jackson log' tokens') :
    Open jackson goals (log ++ log') (tokens ++ tokens') := by
  cases h with
  | start => exact .finished hvalue
  | field name hopen => exact .fieldEnd (.field name hopen) hvalue
  | item hopen => exact .itemEnd (.item hopen) hvalue

section

variable {reader reader' : SimpleJsonReader} {answer : Answer}

end

/-! ## Runs -/

/-- Nothing has to be shown but for the last call. -/
theorem ItemsEnd.snoc {stream : List JsonToken} {entry : Entry} (h : ItemsEnd jackson stream log)
    (hentry : ∀ more, entry = (.readContainerItemBegin, .item more) →
      ∃ outer inner tokens tokens' left, log = outer ++ (.readContainerBegin, .done) :: inner ∧
        stream = tokens ++ .startArray :: tokens' ++ left ∧ Accounts jackson outer tokens ∧
        ReadsItems jackson inner tokens' ∧ (more = false ↔ left.head? = some .endArray)) :
    ItemsEnd jackson stream (log ++ [entry]) := by
  intro before more after heq
  rcases List.eq_nil_or_concat after with rfl | ⟨after, last, rfl⟩
  · obtain ⟨rfl, hlast⟩ := List.append_inj' heq rfl
    exact hentry more (List.singleton_inj.1 hlast)
  · rw [List.concat_eq_append, ← List.cons_append, ← List.append_assoc] at heq
    exact h before more after (List.append_inj' heq rfl).1

end

end Bond.Java.SimpleJson

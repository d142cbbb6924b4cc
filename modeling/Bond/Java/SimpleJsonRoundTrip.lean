import Bond.Java.SimpleJsonWalk

set_option autoImplicit false

/-! # Round trips of Simple JSON in Java

A walk finds the structure of a value in the tokens that were written for it, unless a blob was
written, which is an array in an array, or a number as a string. -/

namespace Bond.Java.SimpleJson

open Bond.Cpp (BondDataType BasicType)
open Bond.Lib Bond.Managed

/-! ## Tokens left -/

/-- The tokens that are still to be read. One that was peeked at is among them, and none is left
    where the end of the input was. -/
def SimpleJsonReader.left (reader : SimpleJsonReader) : List JsonToken :=
  if reader.hasPeekedParserForNextToken then
    match reader.parser.currentToken with
    | some currentToken => currentToken :: reader.parser.tokens
    | none => []
  else
    reader.parser.tokens

/-- What a client has in front of it. -/
def Client.At (client : Client) (tokens : List JsonToken) (fieldTypes : List BondType) : Prop :=
  client.reader.left = tokens ∧ client.fieldTypes = fieldTypes

/-- On `tokens` a program of a client returns `a` if they are `good`, and fails if they are not,
    whatever comes behind them. -/
def Reads {α : Type} (op : Walk α) (tokens : List JsonToken) (fieldTypes : List BondType)
    (good : Prop) (a : α) : Prop :=
  ∀ client restTokens restTypes, client.At (tokens ++ restTokens) (fieldTypes ++ restTypes) →
    (good → ∃ client', op client = .ok (a, client') ∧ client'.At restTokens restTypes)
      ∧ (¬ good → ∃ e, op client = .error e)

/-- The same for the one token that a method of the reader takes. -/
def Takes {α : Type} (op : TextReader α) (token : JsonToken) (good : Prop) (a : α) : Prop :=
  ∀ reader rest, reader.left = token :: rest →
    (good → ∃ reader', op reader = .ok (a, reader') ∧ reader'.left = rest)
      ∧ (¬ good → ∃ e, op reader = .error e)

section

variable {α β : Type}

theorem advanceParserToNextToken_left {reader : SimpleJsonReader} {token : JsonToken}
    {rest : List JsonToken} (hleft : reader.left = token :: rest) :
    ∃ reader', advanceParserToNextToken reader = .ok (token, reader') ∧ reader'.left = rest := by
  obtain ⟨⟨tokens, currentToken⟩, hasPeeked⟩ := reader
  cases hasPeeked with
  | false =>
      obtain rfl : tokens = token :: rest := hleft
      exact ⟨_, rfl, rfl⟩
  | true =>
      cases currentToken with
      | none => cases hleft
      | some currentToken =>
          obtain ⟨rfl, rfl⟩ := List.cons.inj hleft
          exact ⟨_, rfl, rfl⟩

namespace Takes

variable {op : TextReader α} {token : JsonToken} {good : Prop} {a : α}

theorem advance {k : JsonToken → TextReader α} (hgood : good → k token = pure a)
    (hbad : ¬ good → ∃ e, k token = throwText e) :
    Takes (advanceParserToNextToken >>= k) token good a := by
  intro reader rest hleft
  obtain ⟨reader', hadvance, hrest⟩ := advanceParserToNextToken_left hleft
  have hrun : (advanceParserToNextToken >>= k) reader = k token reader' := by
    show (advanceParserToNextToken reader >>= fun r => k r.1 r.2) = _
    rw [hadvance]
    rfl
  rw [hrun]
  refine ⟨fun h => ?_, fun h => ?_⟩
  · rw [hgood h]
    exact ⟨reader', rfl, hrest⟩
  · obtain ⟨e, he⟩ := hbad h
    rw [he]
    exact ⟨e, rfl⟩

theorem map (h : Takes op token good a) (f : α → β) : Takes (f <$> op) token good (f a) := by
  intro reader rest hleft
  obtain ⟨hgood, hbad⟩ := h reader rest hleft
  have hrun : (f <$> op) reader = (op reader).map fun r => (f r.1, r.2) := rfl
  rw [hrun]
  refine ⟨fun hg => ?_, fun hg => ?_⟩
  · obtain ⟨reader', hop, hrest⟩ := hgood hg
    rw [hop]
    exact ⟨reader', rfl, hrest⟩
  · obtain ⟨e, he⟩ := hbad hg
    rw [he]
    exact ⟨e, rfl⟩

theorem of_true (h : Takes op token True a) {good : Prop} (hgood : good) :
    Takes op token good a :=
  (eq_true hgood) ▸ h

end Takes

namespace Reads

variable {op : Walk α} {f : α → Walk β} {tokens tokens' : List JsonToken}
  {fieldTypes fieldTypes' : List BondType} {good good' : Prop} {a : α} {b : β}

theorem pure (a : α) : Reads (Pure.pure a) [] [] True a := by
  intro client restTokens restTypes hat
  exact ⟨fun _ => ⟨client, rfl, hat⟩, fun h => absurd trivial h⟩

theorem bind (h : Reads op tokens fieldTypes good a)
    (hf : Reads (f a) tokens' fieldTypes' good' b) :
    Reads (op >>= f) (tokens ++ tokens') (fieldTypes ++ fieldTypes') (good ∧ good') b := by
  intro client restTokens restTypes hat
  rw [List.append_assoc, List.append_assoc] at hat
  obtain ⟨hgood, hbad⟩ := h client _ _ hat
  by_cases hg : good
  · obtain ⟨client', hop, hat'⟩ := hgood hg
    have hrun : (op >>= f) client = f a client' := by
      show (op client >>= fun r => f r.1 r.2) = _
      rw [hop]
      rfl
    rw [hrun]
    obtain ⟨hgood', hbad'⟩ := hf client' _ _ hat'
    exact ⟨fun hgs => hgood' hgs.2, fun hgs => hbad' fun hg' => hgs ⟨hg, hg'⟩⟩
  · obtain ⟨e, he⟩ := hbad hg
    have hrun : (op >>= f) client = .error e := by
      show (op client >>= fun r => f r.1 r.2) = _
      rw [he]
      rfl
    exact ⟨fun hgs => absurd hgs.1 hg, fun _ => ⟨e, hrun⟩⟩

theorem congr (h : Reads op tokens fieldTypes good a) (hgood : good ↔ good')
    (htokens : tokens = tokens') (htypes : fieldTypes = fieldTypes') :
    Reads op tokens' fieldTypes' good' a := by
  subst htokens htypes
  intro client restTokens restTypes hat
  rw [← hgood]
  exact h client restTokens restTypes hat

/-- What comes first only takes tokens. -/
theorem bind_of_true (h : Reads op tokens [] True a)
    (hf : Reads (f a) tokens' fieldTypes' good' b) :
    Reads (op >>= f) (tokens ++ tokens') fieldTypes' good' b :=
  (h.bind hf).congr (iff_of_eq (true_and good')) rfl rfl

theorem bind_return (h : Reads op tokens fieldTypes good a) (g : α → β) :
    Reads (op >>= fun a => Pure.pure (g a)) tokens fieldTypes good (g a) :=
  (h.bind (pure (g a))).congr (iff_of_eq (and_true good)) (List.append_nil _) (List.append_nil _)

theorem map (h : Reads op tokens fieldTypes good a) (g : α → β) :
    Reads (g <$> op) tokens fieldTypes good (g a) := by
  rw [map_eq_pure_bind]
  exact h.bind_return g

/-- Sequencing behind an item, the end of which takes no token. -/
theorem bind_itemEnd (h : Reads op tokens fieldTypes good a)
    (hf : Reads (f a) tokens' fieldTypes' good' b) :
    Reads (op >>= fun a => call readContainerItemEnd >>= fun _ => f a) (tokens ++ tokens')
      (fieldTypes ++ fieldTypes') (good ∧ good') b :=
  h.bind hf

theorem of_false (h : Reads op tokens fieldTypes False a) (b : α) :
    Reads op tokens fieldTypes False b := by
  intro client restTokens restTypes hat
  exact ⟨False.elim, (h client restTokens restTypes hat).2⟩

/-- A call that fails on its token, whatever comes behind it. -/
theorem of_takes_false {op : TextReader α} {token : JsonToken} (h : Takes op token False a)
    (tokens : List JsonToken) (fieldTypes : List BondType) :
    Reads (call op) (token :: tokens) fieldTypes False a := by
  intro client restTokens restTypes hat
  obtain ⟨e, he⟩ := (h client.reader (tokens ++ restTokens) hat.1).2 id
  exact ⟨False.elim, fun _ => ⟨e, by rw [call, he]⟩⟩

theorem of_takes {op : TextReader α} {token : JsonToken} (h : Takes op token good a) :
    Reads (call op) [token] [] good a := by
  intro client restTokens restTypes hat
  obtain ⟨hleft, htypes⟩ := hat
  obtain ⟨hgood, hbad⟩ := h client.reader restTokens hleft
  refine ⟨fun hg => ?_, fun hg => ?_⟩
  · obtain ⟨reader', hop, hrest⟩ := hgood hg
    exact ⟨{ client with reader := reader' }, by rw [call, hop], hrest, htypes⟩
  · obtain ⟨e, he⟩ := hbad hg
    exact ⟨e, by rw [call, he]⟩

end Reads

/-! ## Calls of the reader -/

theorem takes_readContainerBegin : Takes readContainerBegin .startArray True () :=
  .advance (fun _ => rfl) fun h => absurd trivial h

theorem takes_readStructBegin : Takes readStructBegin .startObject True () :=
  .advance (fun _ => rfl) fun h => absurd trivial h

theorem takes_readFieldBegin (name : String) :
    Takes readFieldBegin (.fieldName name) True (some name) :=
  .advance (fun _ => rfl) fun h => absurd trivial h

theorem takes_readFieldBegin_end : Takes readFieldBegin .endObject True none :=
  .advance (fun _ => rfl) fun h => absurd trivial h

theorem reads_nextFieldType (type : BondType) : Reads nextFieldType [] [type] True type := by
  intro client restTokens restTypes hat
  obtain ⟨hleft, htypes⟩ := hat
  refine ⟨fun _ => ⟨{ client with fieldTypes := restTypes }, ?_, hleft, rfl⟩,
    fun h => absurd trivial h⟩
  rw [nextFieldType, htypes]
  rfl

theorem takes_readNumberInt {accepts : NumberType → Int → Bool} {n : Int} {f : Int → α} {a : α}
    (h : accepts (getNumberType n) n = true) (ha : f n = a) :
    Takes (f <$> readNumberInt accepts) (.valueNumberInt n) True a := by
  have htake : Takes (readNumberInt accepts) (.valueNumberInt n) True n :=
    .advance (fun _ => if_pos h) fun h => absurd trivial h
  exact ha ▸ htake.map f

theorem takes_readNumberFloat {getValue : JsonToken → Option α} {text : FloatText} {a : α}
    (h : getValue (.valueNumberFloat text) = some a) :
    Takes (readNumberFloat getValue) (.valueNumberFloat text) True a := by
  refine .advance (fun _ => ?_) fun h => absurd trivial h
  simp only [h]

theorem takes_readNumberFloat_string {getValue : JsonToken → Option α} (chars : List UInt16)
    (a : α) : Takes (readNumberFloat getValue) (.valueString chars) False a :=
  .advance False.elim fun _ => ⟨_, rfl⟩

end

/-! ## Values of basic types -/

theorem getNumberType_int {n : Int} (hmin : -2 ^ 31 ≤ n) (hmax : n < 2 ^ 31) :
    getNumberType n = .int :=
  if_pos ⟨hmin, hmax⟩

/-- An integer that is not too small is not found to be a `BigInteger` for that. -/
theorem getNumberType_cases {n : Int} (hmin : -2 ^ 63 ≤ n) :
    getNumberType n = .int ∧ n < 2 ^ 31 ∨ getNumberType n = .long ∧ n < 2 ^ 63
      ∨ getNumberType n = .bigInteger ∧ 2 ^ 63 ≤ n := by
  unfold getNumberType
  split
  · next h => exact .inl ⟨rfl, h.2⟩
  · split
    · next h => exact .inr (.inl ⟨rfl, h.2⟩)
    · next h => exact .inr (.inr ⟨rfl, by omega⟩)

section

variable (jackson : Jackson)

theorem takes_readInt8 (v : Int8) : Takes readInt8 (.valueNumberInt v.toInt) True v := by
  have hmin := v.le_toInt
  have hmax := v.toInt_lt
  refine takes_readNumberInt ?_ (Int8.ofInt_toInt v)
  rw [getNumberType_int (by omega) (by omega)]
  simp
  omega

theorem takes_readInt16 (v : Int16) : Takes readInt16 (.valueNumberInt v.toInt) True v := by
  have hmin := v.le_toInt
  have hmax := v.toInt_lt
  refine takes_readNumberInt ?_ (Int16.ofInt_toInt v)
  rw [getNumberType_int (by omega) (by omega)]
  simp
  omega

theorem takes_readInt32 (v : Int32) : Takes readInt32 (.valueNumberInt v.toInt) True v := by
  refine takes_readNumberInt ?_ (Int32.ofInt_toInt v)
  rw [getNumberType_int v.le_toInt v.toInt_lt]
  rfl

theorem takes_readInt64 (v : Int64) : Takes readInt64 (.valueNumberInt v.toInt) True v := by
  have hmax := v.toInt_lt
  refine takes_readNumberInt ?_ (Int64.ofInt_toInt v)
  rcases getNumberType_cases v.le_toInt with ⟨htype, -⟩ | ⟨htype, -⟩ | ⟨-, hlarge⟩
  · rw [htype]
    rfl
  · rw [htype]
    rfl
  · omega

theorem takes_readUInt8 (v : UInt8) : Takes readUInt8 (.valueNumberInt v.toNat) True v := by
  have hmax := v.toNat_lt
  refine takes_readNumberInt ?_ (UInt8.ofNat_toNat)
  rw [getNumberType_int (by omega) (by omega)]
  simp
  omega

theorem takes_readUInt16 (v : UInt16) : Takes readUInt16 (.valueNumberInt v.toNat) True v := by
  have hmax := v.toNat_lt
  refine takes_readNumberInt ?_ (UInt16.ofNat_toNat)
  rw [getNumberType_int (by omega) (by omega)]
  simp
  omega

theorem takes_readUInt32 (v : UInt32) : Takes readUInt32 (.valueNumberInt v.toNat) True v := by
  have hmax := v.toNat_lt
  refine takes_readNumberInt ?_ (UInt32.ofNat_toNat)
  rcases getNumberType_cases (n := v.toNat) (by omega) with ⟨htype, -⟩ | ⟨htype, -⟩ | ⟨-, hlarge⟩
  · rw [htype]
    simp
  · rw [htype]
    simp
    omega
  · omega

theorem takes_readUInt64 (v : UInt64) : Takes readUInt64 (.valueNumberInt v.toNat) True v := by
  have hmax := v.toNat_lt
  refine takes_readNumberInt ?_ (UInt64.ofNat_toNat)
  rcases getNumberType_cases (n := v.toNat) (by omega) with ⟨htype, -⟩ | ⟨htype, -⟩ | ⟨htype, -⟩
  · rw [htype]
    simp
  · rw [htype]
    simp
  · rw [htype]
    simp
    omega

theorem takes_readFloat (bits : UInt32) :
    Takes (readFloat jackson) (writeFloat jackson bits)
      (quoted jackson (.float bits) = false) bits := by
  unfold writeFloat
  split
  · next hquoted =>
      have hbad : (quoted jackson (.float bits) = false) = False := by simp [quoted, hquoted]
      rw [hbad]
      exact takes_readNumberFloat_string _ bits
  · next hquoted =>
      have hgood : (quoted jackson (.float bits) = false) = True := by
        simpa [quoted] using hquoted
      rw [hgood]
      exact takes_readNumberFloat (jackson.getFloatValue_float bits)

theorem takes_readDouble (bits : UInt64) :
    Takes (readDouble jackson) (writeDouble jackson bits)
      (quoted jackson (.double bits) = false) bits := by
  unfold writeDouble
  split
  · next hquoted =>
      have hbad : (quoted jackson (.double bits) = false) = False := by simp [quoted, hquoted]
      rw [hbad]
      exact takes_readNumberFloat_string _ bits
  · next hquoted =>
      have hgood : (quoted jackson (.double bits) = false) = True := by
        simpa [quoted] using hquoted
      rw [hgood]
      exact takes_readNumberFloat (jackson.getDoubleValue_double bits)

theorem takes_readBool (v : Bool) : Takes readBool (writeBool v) True v := by
  cases v with
  | false => exact .advance (fun _ => rfl) fun h => absurd trivial h
  | true => exact .advance (fun _ => rfl) fun h => absurd trivial h

theorem takes_readString (chars : List UInt16) :
    Takes readString (.valueString chars) True chars :=
  .advance (fun _ => rfl) fun h => absurd trivial h

/-- A value is read unless it is a number that was written as a string. -/
theorem takes_read (v : BasicValue) :
    Takes (read jackson v.type) (write jackson v) (quoted jackson v = false) v := by
  cases v with
  | float bits => exact (takes_readFloat jackson bits).map BasicValue.float
  | double bits => exact (takes_readDouble jackson bits).map BasicValue.double
  | bool v => exact ((takes_readBool v).map BasicValue.bool).of_true rfl
  | uint8 v => exact ((takes_readUInt8 v).map BasicValue.uint8).of_true rfl
  | uint16 v => exact ((takes_readUInt16 v).map BasicValue.uint16).of_true rfl
  | uint32 v => exact ((takes_readUInt32 v).map BasicValue.uint32).of_true rfl
  | uint64 v => exact ((takes_readUInt64 v).map BasicValue.uint64).of_true rfl
  | int8 v => exact ((takes_readInt8 v).map BasicValue.int8).of_true rfl
  | int16 v => exact ((takes_readInt16 v).map BasicValue.int16).of_true rfl
  | int32 v => exact ((takes_readInt32 v).map BasicValue.int32).of_true rfl
  | int64 v => exact ((takes_readInt64 v).map BasicValue.int64).of_true rfl
  | string chars => exact ((takes_readString chars).map BasicValue.string).of_true rfl
  | wstring chars => exact ((takes_readString chars).map BasicValue.wstring).of_true rfl

end

/-! ## Loops -/

theorem call_readContainerItemBegin (client : Client) :
    ∃ reader, call readContainerItemBegin client
        = .ok (decide (client.reader.left.head? ≠ some .endArray), { client with reader })
      ∧ reader.left = client.reader.left ∧ reader.hasPeekedParserForNextToken = true := by
  obtain ⟨⟨⟨tokens, currentToken⟩, hasPeeked⟩, fieldTypes⟩ := client
  cases hasPeeked with
  | false => cases tokens <;> exact ⟨_, rfl, rfl, rfl⟩
  | true => cases currentToken <;> exact ⟨_, rfl, rfl, rfl⟩

/-- Tokens that do not begin with the end of an array. -/
def Item (tokens : List JsonToken) : Prop :=
  ∃ token rest, tokens = token :: rest ∧ token ≠ .endArray

theorem Item.append {tokens : List JsonToken} (h : Item tokens) (rest : List JsonToken) :
    Item (tokens ++ rest) := by
  obtain ⟨token, tail, rfl, htoken⟩ := h
  exact ⟨token, tail ++ rest, rfl, htoken⟩

theorem Item.length_pos {tokens : List JsonToken} (h : Item tokens) : 0 < tokens.length := by
  obtain ⟨token, rest, rfl, -⟩ := h
  exact Nat.succ_pos rest.length

namespace Reads

section

variable {β : Type} {f : Bool → Walk β} {tokens : List JsonToken} {fieldTypes : List BondType}
  {good : Prop} {b : β}

/-- Another item comes. -/
theorem item (hitem : Item tokens) (h : Reads (f true) tokens fieldTypes good b) :
    Reads (call readContainerItemBegin >>= f) tokens fieldTypes good b := by
  intro client restTokens restTypes hat
  obtain ⟨hleft, htypes⟩ := hat
  obtain ⟨token, rest, rfl, htoken⟩ := hitem
  obtain ⟨reader, hcall, hleft', -⟩ := call_readContainerItemBegin client
  have hmore : decide (client.reader.left.head? ≠ some .endArray) = true := by
    rw [hleft]
    exact decide_eq_true fun h => htoken (Option.some.inj h)
  have hrun : (call readContainerItemBegin >>= f) client = f true { client with reader } := by
    show (call readContainerItemBegin client >>= fun r => f r.1 r.2) = _
    rw [hcall, hmore]
    rfl
  rw [hrun]
  exact h _ restTokens restTypes ⟨hleft'.trans hleft, htypes⟩

/-- No item comes, and the array is closed. -/
theorem close (h : f false = call readContainerEnd >>= fun _ => Pure.pure b) :
    Reads (call readContainerItemBegin >>= f) [.endArray] [] True b := by
  intro client restTokens restTypes hat
  obtain ⟨hleft, htypes⟩ := hat
  obtain ⟨reader, hcall, hleft', hpeeked⟩ := call_readContainerItemBegin client
  have hmore : decide (client.reader.left.head? ≠ some .endArray) = false := by
    rw [hleft]
    rfl
  have hrun : (call readContainerItemBegin >>= f) client
      = .ok (b, { client with reader := ⟨reader.parser, false⟩ }) := by
    show (call readContainerItemBegin client >>= fun r => f r.1 r.2) = _
    rw [hcall, hmore]
    show f false { client with reader } = _
    rw [h]
    rfl
  refine ⟨fun _ => ⟨_, hrun, ?_, htypes⟩, fun h => absurd trivial h⟩
  -- the token that was peeked at is the end of the array
  have hleft := hleft'.trans hleft
  unfold SimpleJsonReader.left at hleft
  rw [if_pos hpeeked] at hleft
  split at hleft
  · exact (List.cons.inj hleft).2
  · cases hleft

end

section

variable {ι β : Type}

/-- The items of an array, and its end. -/
theorem items {walkItem : Walk Tree} {tokens : ι → List JsonToken} {fieldTypes : ι → List BondType}
    {good : ι → Prop} {tree : ι → Tree} (xs : List ι)
    (h : ∀ x ∈ xs, Item (tokens x) ∧ Reads walkItem (tokens x) (fieldTypes x) (good x) (tree x))
    {bound : Nat} (hbound : xs.length < bound) (g : List Tree → β) :
    Reads (walkItems walkItem bound >>= fun items =>
        call readContainerEnd >>= fun _ => Pure.pure (g items))
      (xs.flatMap tokens ++ [.endArray]) (xs.flatMap fieldTypes) (∀ x ∈ xs, good x)
      (g (xs.map tree)) := by
  induction xs generalizing bound g with
  | nil =>
      obtain ⟨bound, rfl⟩ := Nat.exists_eq_succ_of_ne_zero (Nat.ne_of_gt hbound)
      rw [walkItems, bind_assoc]
      exact (close rfl).congr (by simp) rfl rfl
  | cons x xs ih =>
      obtain ⟨bound, rfl⟩ := Nat.exists_eq_succ_of_ne_zero (Nat.ne_of_gt (Nat.zero_lt_of_lt hbound))
      obtain ⟨hitem, hx⟩ := h x List.mem_cons_self
      have hrest := ih (fun y hy => h y (List.mem_cons_of_mem x hy)) (Nat.lt_of_succ_lt_succ hbound)
        fun items => g (tree x :: items)
      rw [walkItems, bind_assoc, List.flatMap_cons, List.flatMap_cons, List.append_assoc]
      refine item (hitem.append _) ?_
      simp only [if_true, bind_assoc, pure_bind]
      exact (hx.bind_itemEnd hrest).congr List.forall_mem_cons.symm rfl rfl

/-- The keys and the values of an array, and its end. -/
theorem entries {walkKey walkValue : Walk Tree} {tokens tokens' : ι → List JsonToken}
    {fieldTypes fieldTypes' : ι → List BondType} {good good' : ι → Prop} {key value : ι → Tree}
    (xs : List ι)
    (h : ∀ x ∈ xs, Item (tokens x) ∧ Reads walkKey (tokens x) (fieldTypes x) (good x) (key x))
    (h' : ∀ x ∈ xs,
      Item (tokens' x) ∧ Reads walkValue (tokens' x) (fieldTypes' x) (good' x) (value x))
    {bound : Nat} (hbound : xs.length < bound) (g : List (Tree × Tree) → β) :
    Reads (walkEntries walkKey walkValue bound >>= fun entries =>
        call readContainerEnd >>= fun _ => Pure.pure (g entries))
      (xs.flatMap (fun x => tokens x ++ tokens' x) ++ [.endArray])
      (xs.flatMap fun x => fieldTypes x ++ fieldTypes' x) (∀ x ∈ xs, good x ∧ good' x)
      (g (xs.map fun x => (key x, value x))) := by
  induction xs generalizing bound g with
  | nil =>
      obtain ⟨bound, rfl⟩ := Nat.exists_eq_succ_of_ne_zero (Nat.ne_of_gt hbound)
      rw [walkEntries, bind_assoc]
      exact (close rfl).congr (by simp) rfl rfl
  | cons x xs ih =>
      obtain ⟨bound, rfl⟩ := Nat.exists_eq_succ_of_ne_zero (Nat.ne_of_gt (Nat.zero_lt_of_lt hbound))
      obtain ⟨hitem, hx⟩ := h x List.mem_cons_self
      obtain ⟨hitem', hx'⟩ := h' x List.mem_cons_self
      have hrest := ih (fun y hy => h y (List.mem_cons_of_mem x hy))
        (fun y hy => h' y (List.mem_cons_of_mem x hy)) (Nat.lt_of_succ_lt_succ hbound)
        fun entries => g ((key x, value x) :: entries)
      rw [walkEntries, bind_assoc, List.flatMap_cons, List.flatMap_cons, List.append_assoc,
        List.append_assoc, List.append_assoc]
      refine item (hitem.append _) ?_
      simp only [if_true, bind_assoc, pure_bind]
      have hgood : good x ∧ good' x ∧ (∀ y ∈ xs, good y ∧ good' y)
          ↔ ∀ y ∈ x :: xs, good y ∧ good' y := by
        rw [List.forall_mem_cons, and_assoc]
      refine (hx.bind_itemEnd (item (hitem'.append _) ?_)).congr hgood rfl rfl
      simp only [if_true, bind_assoc, pure_bind]
      exact hx'.bind_itemEnd hrest

end

/-- An array of items. -/
theorem array {ι : Type} {walkItem : Walk Tree} {tokens : ι → List JsonToken}
    {fieldTypes : ι → List BondType} {good : ι → Prop} {tree : ι → Tree} (xs : List ι)
    (h : ∀ x ∈ xs, Item (tokens x) ∧ Reads walkItem (tokens x) (fieldTypes x) (good x) (tree x))
    {bound : Nat} (hbound : xs.length < bound) :
    Reads (call readContainerBegin >>= fun _ => walkItems walkItem bound >>= fun items =>
        call readContainerEnd >>= fun _ => Pure.pure (Tree.array items))
      (writeContainerBegin ++ xs.flatMap tokens ++ writeContainerEnd) (xs.flatMap fieldTypes)
      (∀ x ∈ xs, good x) (.array (xs.map tree)) := by
  rw [List.append_assoc]
  exact (of_takes takes_readContainerBegin).bind_of_true (items xs h hbound Tree.array)

/-- The object goes on with a field. -/
theorem field {walkValue : BondType → Walk Tree} {bound : Nat} {name : String} {type : BondType}
    {tokens rest : List JsonToken} {fieldTypes fieldTypes' : List BondType} {good good' : Prop}
    {tree : Tree} {fields : List (String × Tree)}
    (hvalue : Reads (walkValue type) tokens fieldTypes good tree)
    (hrest : Reads (walkFields walkValue bound) rest fieldTypes' good' fields) :
    Reads (walkFields walkValue (bound + 1)) (writeFieldBegin name ++ tokens ++ rest)
      (type :: fieldTypes ++ fieldTypes') (good ∧ good') ((name, tree) :: fields) := by
  have hend : Reads (call readFieldEnd >>= fun _ => walkFields walkValue bound >>= fun fields =>
      Pure.pure ((name, tree) :: fields)) rest fieldTypes' good' ((name, tree) :: fields) :=
    hrest.bind_return ((name, tree) :: ·)
  rw [walkFields, writeFieldBegin, List.append_assoc]
  refine (of_takes (takes_readFieldBegin name)).bind_of_true ?_
  refine congr ((reads_nextFieldType type).bind (hvalue.bind hend))
    (iff_of_eq (true_and _)) rfl rfl

end Reads

/-! ## What is written -/

theorem ok_of_bind {α β : Type} {x : Except Exception α} {f : α → Except Exception β} {b : β}
    (h : x >>= f = .ok b) : ∃ a, x = .ok a ∧ f a = .ok b := by
  cases x with
  | error e => cases h
  | ok a => exact ⟨a, rfl, h⟩

/-- The tokens of a value that is serialized. -/
def written (serialized : Except Exception (List JsonToken)) : List JsonToken :=
  serialized.toOption.getD []

section

variable {jackson : Jackson} {types : Nat → List (List NamedField)}

theorem serializeElements_ok {ds : List Datum} {e : BondType} {tokens : List JsonToken}
    (h : serializeElements jackson types ds e = .ok tokens) :
    (∀ d ∈ ds, serializeValue jackson types d e = .ok (written (serializeValue jackson types d e)))
      ∧ tokens = ds.flatMap fun d => written (serializeValue jackson types d e) := by
  induction ds generalizing tokens with
  | nil =>
      rw [serializeElements] at h
      cases h
      exact ⟨by simp, rfl⟩
  | cons d ds ih =>
      rw [serializeElements] at h
      obtain ⟨dTokens, hd, h⟩ := ok_of_bind h
      obtain ⟨rest, hds, h⟩ := ok_of_bind h
      cases h
      obtain ⟨hall, rfl⟩ := ih hds
      have hself : written (serializeValue jackson types d e) = dTokens := by rw [hd]; rfl
      rw [List.flatMap_cons, hself]
      exact ⟨List.forall_mem_cons.2 ⟨by rw [hself, hd], hall⟩, rfl⟩

theorem serializeEntries_ok {entries : List (Datum × Datum)} {k e : BondType}
    {tokens : List JsonToken} (h : serializeEntries jackson types entries k e = .ok tokens) :
    (∀ kv ∈ entries,
      serializeValue jackson types kv.1 k = .ok (written (serializeValue jackson types kv.1 k))
        ∧ serializeValue jackson types kv.2 e = .ok (written (serializeValue jackson types kv.2 e)))
      ∧ tokens = entries.flatMap fun kv => written (serializeValue jackson types kv.1 k)
          ++ written (serializeValue jackson types kv.2 e) := by
  induction entries generalizing tokens with
  | nil =>
      rw [serializeEntries] at h
      cases h
      exact ⟨by simp, rfl⟩
  | cons kv entries ih =>
      obtain ⟨key, value⟩ := kv
      rw [serializeEntries] at h
      obtain ⟨keyTokens, hkey, h⟩ := ok_of_bind h
      obtain ⟨valueTokens, hvalue, h⟩ := ok_of_bind h
      obtain ⟨rest, hentries, h⟩ := ok_of_bind h
      cases h
      obtain ⟨hall, rfl⟩ := ih hentries
      have hself : written (serializeValue jackson types key k) = keyTokens := by rw [hkey]; rfl
      have hself' : written (serializeValue jackson types value e) = valueTokens := by
        rw [hvalue]; rfl
      rw [List.flatMap_cons, hself, hself']
      exact ⟨List.forall_mem_cons.2 ⟨⟨by rw [hself, hkey], by rw [hself', hvalue]⟩, hall⟩, rfl⟩

theorem serializeStructFields_cons {d : Datum} (hd : ∀ value, d ≠ .something value)
    (ds : List Datum) (field : NamedField) (fields : List NamedField) :
    serializeStructFields jackson types (d :: ds) (field :: fields)
      = (if field.isDefaultNothing then
          if field.isOptional then do
            let tokens ← serializeStructFields jackson types ds fields
            return writeFieldOmitted ++ tokens
          else .error .invalidBondData
        else do
          let tokens ← serializeField field d (serializeValue jackson types d field.fieldType)
          return tokens ++ (← serializeStructFields jackson types ds fields)) := by
  rw [serializeStructFields]
  exact hd

theorem mirrorFields_cons {d : Datum} (hd : ∀ value, d ≠ .something value) (ds : List Datum)
    (field : NamedField) (fields : List NamedField) :
    mirrorFields types (d :: ds) (field :: fields)
      = (if field.isDefaultNothing || field.omits d then []
          else [(field.name, mirror types d field.fieldType)]) ++ mirrorFields types ds fields := by
  rw [mirrorFields]
  exact hd

theorem fieldTypesInFields_cons {d : Datum} (hd : ∀ value, d ≠ .something value)
    (ds : List Datum) (field : NamedField) (fields : List NamedField) :
    fieldTypesInFields types (d :: ds) (field :: fields)
      = (if field.isDefaultNothing || field.omits d then []
          else field.fieldType :: fieldTypesIn types d field.fieldType)
        ++ fieldTypesInFields types ds fields := by
  rw [fieldTypesInFields]
  exact hd

theorem plainFields_cons {d : Datum} (hd : ∀ value, d ≠ .something value) (ds : List Datum)
    (field : NamedField) (fields : List NamedField) :
    plainFields jackson types (d :: ds) (field :: fields)
      = ((field.isDefaultNothing || field.omits d || plain jackson types d field.fieldType)
        && plainFields jackson types ds fields) := by
  rw [plainFields]
  exact hd

/-- A field is omitted, or written with its name. -/
theorem serializeField_ok {field : NamedField} {value : Datum}
    {serialized : Except Exception (List JsonToken)} {tokens : List JsonToken}
    (h : serializeField field value serialized = .ok tokens) :
    field.omits value = true ∧ tokens = []
      ∨ field.omits value = false ∧
        ∃ inner, serialized = .ok inner ∧ tokens = writeFieldBegin field.name ++ inner := by
  unfold serializeField at h
  split at h
  · cases h
  · split at h
    · next homits =>
        cases h
        exact .inl ⟨homits, rfl⟩
    · next homits =>
        obtain ⟨inner, hinner, h⟩ := ok_of_bind h
        cases h
        exact .inr ⟨Bool.eq_false_iff.2 homits, inner, hinner, rfl⟩

/-! ## Structs -/

variable (jackson types) in
/-- A walk reads what is written for a value of any type. -/
def Walked (d : Datum) : Prop :=
  ∀ type tokens, serializeValue jackson types d type = .ok tokens →
    Item tokens ∧ ∀ n, tokens.length < n → Reads (walkWithin jackson n type) tokens
      (fieldTypesIn types d type) (plain jackson types d type = true) (mirror types d type)

/-- A field, and those behind it. -/
theorem walked_field {n bound : Nat} {omitted : Bool} {field : NamedField} {d : Datum}
    {tokens rest : List JsonToken} {fieldTypes : List BondType} {good : Prop}
    {trees : List (String × Tree)} (hd : Walked jackson types d)
    (htokens : omitted = true ∧ tokens = [] ∨ omitted = false ∧ ∃ inner,
      serializeValue jackson types d field.fieldType = .ok inner
        ∧ tokens = writeFieldBegin field.name ++ inner)
    (hn : (tokens ++ rest).length < n) (hbound : (tokens ++ rest).length < bound)
    (hrest : ∀ bound, rest.length < bound →
      Reads (walkFields (walkWithin jackson n) bound) (rest ++ [.endObject]) fieldTypes good
        trees) :
    Reads (walkFields (walkWithin jackson n) bound) (tokens ++ rest ++ [.endObject])
      ((if omitted then [] else field.fieldType :: fieldTypesIn types d field.fieldType)
        ++ fieldTypes)
      ((omitted || plain jackson types d field.fieldType) = true ∧ good)
      ((if omitted then [] else [(field.name, mirror types d field.fieldType)]) ++ trees) := by
  rcases htokens with ⟨rfl, rfl⟩ | ⟨rfl, inner, hinner, rfl⟩
  · exact (hrest bound hbound).congr (by simp) rfl rfl
  · obtain ⟨bound, rfl⟩ := Nat.exists_eq_succ_of_ne_zero (Nat.ne_of_gt (Nat.zero_lt_of_lt hbound))
    have hlengths : (writeFieldBegin field.name ++ inner ++ rest).length
        = 1 + inner.length + rest.length := by
      simp [writeFieldBegin]
      omega
    have hvalue := (hd field.fieldType inner hinner).2 n (by omega)
    have htail := hrest bound (by omega)
    rw [List.append_assoc]
    exact hvalue.field htail

variable (jackson types) in
/-- Behind the last field nothing is written and nothing is expected. -/
theorem fields_end {ds : List Datum} {fields : List NamedField} (h : ds = [] ∨ fields = []) :
    serializeStructFields jackson types ds fields = .ok []
      ∧ fieldTypesInFields types ds fields = [] ∧ plainFields jackson types ds fields = true
      ∧ mirrorFields types ds fields = [] := by
  rcases h with rfl | rfl
  · refine ⟨?_, ?_, ?_, ?_⟩
    · simp [serializeStructFields]
    · simp [fieldTypesInFields]
    · simp [plainFields]
    · simp [mirrorFields]
  · refine ⟨?_, ?_, ?_, ?_⟩
    · simp [serializeStructFields]
    · simp [fieldTypesInFields]
    · simp [plainFields]
    · simp [mirrorFields]

theorem length_lt_of_append {tokens rest : List JsonToken} {n : Nat}
    (h : (tokens ++ rest).length < n) : rest.length < n := by
  rw [List.length_append] at h
  omega

theorem walked_fields_end {n bound : Nat} {ds : List Datum} {fields : List NamedField}
    {tokens : List JsonToken} (hend : ds = [] ∨ fields = [])
    (h : serializeStructFields jackson types ds fields = .ok tokens)
    (hbound : tokens.length < bound) :
    Reads (walkFields (walkWithin jackson n) bound) (tokens ++ [.endObject])
      (fieldTypesInFields types ds fields) (plainFields jackson types ds fields = true)
      (mirrorFields types ds fields) := by
  obtain ⟨bound, rfl⟩ := Nat.exists_eq_succ_of_ne_zero (Nat.ne_of_gt (Nat.zero_lt_of_lt hbound))
  obtain ⟨hserialize, htypes, hplain, hmirror⟩ := fields_end jackson types hend
  rw [hserialize] at h
  cases h
  rw [htypes, hmirror, walkFields]
  exact ((Reads.of_takes takes_readFieldBegin_end).bind_of_true (Reads.pure [])).congr
    (iff_of_true trivial hplain) rfl rfl

/-- The fields of a struct, and its end. -/
theorem walked_fields {n : Nat} {ds : List Datum} {fields : List NamedField}
    {tokens : List JsonToken}
    (hds : ∀ d ∈ ds, Walked jackson types d
      ∧ ∀ value, d = .something value → Walked jackson types value)
    (h : serializeStructFields jackson types ds fields = .ok tokens) (hn : tokens.length < n)
    {bound : Nat} (hbound : tokens.length < bound) :
    Reads (walkFields (walkWithin jackson n) bound) (tokens ++ [.endObject])
      (fieldTypesInFields types ds fields) (plainFields jackson types ds fields = true)
      (mirrorFields types ds fields) := by
  induction ds generalizing fields tokens bound with
  | nil => exact walked_fields_end (.inl rfl) h hbound
  | cons d ds ih =>
      cases fields with
      | nil => exact walked_fields_end (.inr rfl) h hbound
      | cons field fields =>
          have hrest {rest : List JsonToken}
              (hrest : serializeStructFields jackson types ds fields = .ok rest)
              (hn : rest.length < n) (bound : Nat) (hbound : rest.length < bound) :
              Reads (walkFields (walkWithin jackson n) bound) (rest ++ [.endObject])
                (fieldTypesInFields types ds fields)
                (plainFields jackson types ds fields = true) (mirrorFields types ds fields) :=
            ih (fun d' hd' => hds d' (List.mem_cons_of_mem d hd')) hrest hn hbound
          by_cases hsomething : ∃ value, d = .something value
          · obtain ⟨value, rfl⟩ := hsomething
            rw [serializeStructFields] at h
            obtain ⟨fieldTokens, hfield, h⟩ := ok_of_bind h
            obtain ⟨rest, hserialized, h⟩ := ok_of_bind h
            cases h
            rw [fieldTypesInFields, mirrorFields, plainFields, Bool.and_eq_true]
            exact walked_field ((hds _ List.mem_cons_self).2 value rfl) (serializeField_ok hfield)
              hn hbound (hrest hserialized (length_lt_of_append hn))
          · have hd : ∀ value, d ≠ .something value := fun value hv => hsomething ⟨value, hv⟩
            have hwalked := (hds d List.mem_cons_self).1
            rw [serializeStructFields_cons hd] at h
            rw [fieldTypesInFields_cons hd, mirrorFields_cons hd, plainFields_cons hd,
              Bool.and_eq_true]
            split at h
            · next hnothing =>
                split at h
                · obtain ⟨rest, hserialized, h⟩ := ok_of_bind h
                  cases h
                  rw [hnothing]
                  exact walked_field hwalked (.inl ⟨rfl, rfl⟩) hn hbound
                    (hrest hserialized hn)
                · cases h
            · next hnothing =>
                obtain ⟨fieldTokens, hfield, h⟩ := ok_of_bind h
                obtain ⟨rest, hserialized, h⟩ := ok_of_bind h
                cases h
                rw [Bool.eq_false_iff.2 hnothing, Bool.false_or]
                exact walked_field hwalked (serializeField_ok hfield) hn hbound
                  (hrest hserialized (length_lt_of_append hn))

/-! ## Values -/

theorem item_container (tokens : List JsonToken) :
    Item (writeContainerBegin ++ tokens ++ writeContainerEnd) :=
  ⟨.startArray, tokens ++ writeContainerEnd, rfl, by decide⟩

theorem length_container (tokens : List JsonToken) :
    (writeContainerBegin ++ tokens ++ writeContainerEnd).length = tokens.length + 2 := by
  simp [writeContainerBegin, writeContainerEnd]

theorem ok_of_nullable {serialize : BondType → Except Exception (List JsonToken)}
    {type : BondType} {tokens : List JsonToken}
    (h : serializeNullable serialize type = .ok tokens) :
    ∃ inner, serialize type.core = .ok inner := by
  induction type generalizing tokens with
  | nullable e ih =>
      obtain ⟨inner, hinner, -⟩ := ok_of_bind h
      exact ih hinner
  | _ => exact ⟨tokens, h⟩

/-- A nullable value that is not null is an array with the value itself in it. -/
theorem walked_nullable {serialize : BondType → Except Exception (List JsonToken)}
    {type : BondType} {tokens : List JsonToken} {fieldTypes : List BondType} {good : Prop}
    {tree : Tree} (h : serializeNullable serialize type = .ok tokens)
    (hcore : ∀ inner, serialize type.core = .ok inner → Item inner ∧ ∀ n, inner.length < n →
      Reads (walkWithin jackson n type.core) inner fieldTypes good tree) :
    Item tokens ∧ ∀ n, tokens.length < n →
      Reads (walkWithin jackson n type) tokens fieldTypes good (nest type tree) := by
  induction type generalizing tokens with
  | nullable e ih =>
      obtain ⟨inner, hinner, h⟩ := ok_of_bind h
      cases h
      obtain ⟨hitem, hwalk⟩ := ih hinner hcore
      refine ⟨item_container inner, fun n hn => ?_⟩
      obtain ⟨n, rfl⟩ := Nat.exists_eq_succ_of_ne_zero (Nat.ne_of_gt (Nat.zero_lt_of_lt hn))
      rw [length_container] at hn
      have harray := Reads.array [()] (fun _ _ => ⟨hitem, hwalk n (by omega)⟩)
        (show 1 < n by have := hitem.length_pos; omega)
      exact harray.congr (by simp) (by simp) (by simp)
  | _ => exact hcore tokens h

-- the equations are derived here, once for the lemmas below
attribute [local grind =] mirrorElements fieldTypesInElements plainElements

theorem mirrorElements_eq (ds : List Datum) (e : BondType) :
    mirrorElements types ds e = ds.map fun d => mirror types d e := by
  induction ds with
  | nil => rfl
  | cons d ds ih => rw [mirrorElements, ih, List.map_cons]

theorem fieldTypesInElements_eq (ds : List Datum) (e : BondType) :
    fieldTypesInElements types ds e = ds.flatMap fun d => fieldTypesIn types d e := by
  induction ds with
  | nil => rfl
  | cons d ds ih => rw [fieldTypesInElements, ih, List.flatMap_cons]

theorem plainElements_iff {ds : List Datum} {e : BondType} :
    plainElements jackson types ds e = true ↔ ∀ d ∈ ds, plain jackson types d e = true := by
  induction ds with
  | nil => simp [plainElements]
  | cons d ds ih => simp [plainElements, ih]

theorem mirrorEntries_eq (entries : List (Datum × Datum)) (k e : BondType) :
    mirrorEntries types entries k e
      = entries.map fun kv => (mirror types kv.1 k, mirror types kv.2 e) := by
  induction entries with
  | nil => rfl
  | cons kv entries ih => rw [mirrorEntries, ih, List.map_cons]

theorem fieldTypesInEntries_eq (entries : List (Datum × Datum)) (k e : BondType) :
    fieldTypesInEntries types entries k e
      = entries.flatMap fun kv => fieldTypesIn types kv.1 k ++ fieldTypesIn types kv.2 e := by
  induction entries with
  | nil => rfl
  | cons kv entries ih => rw [fieldTypesInEntries, ih, List.flatMap_cons]

theorem plainEntries_iff {entries : List (Datum × Datum)} {k e : BondType} :
    plainEntries jackson types entries k e = true ↔
      ∀ kv ∈ entries, plain jackson types kv.1 k = true ∧ plain jackson types kv.2 e = true := by
  induction entries with
  | nil => simp [plainEntries]
  | cons kv entries ih => simp [plainEntries, ih]

theorem length_le_flatMap {ι : Type} {tokens : ι → List JsonToken} (xs : List ι)
    (h : ∀ x ∈ xs, 0 < (tokens x).length) : xs.length ≤ (xs.flatMap tokens).length := by
  induction xs with
  | nil => exact Nat.le_refl 0
  | cons x xs ih =>
      have hx := h x List.mem_cons_self
      have hxs := ih fun y hy => h y (List.mem_cons_of_mem x hy)
      rw [List.flatMap_cons, List.length_cons, List.length_append]
      omega

theorem length_le_of_mem {ι : Type} (tokens : ι → List JsonToken) {xs : List ι} {x : ι}
    (h : x ∈ xs) : (tokens x).length ≤ (xs.flatMap tokens).length := by
  induction xs with
  | nil => cases h
  | cons y xs ih =>
      rw [List.flatMap_cons, List.length_append]
      rcases List.mem_cons.1 h with rfl | h
      · omega
      · have hxs := ih h
        omega

/-- The elements of a collection, whichever of its kinds it is. -/
theorem walked_elements {elements : List Datum} {e : BondType} {inner : List JsonToken}
    (ih : ∀ d ∈ elements, Walked jackson types d)
    (h : serializeElements jackson types elements e = .ok inner) {n : Nat}
    (hn : inner.length < n) :
    Reads (call readContainerBegin >>= fun _ => walkItems (walkWithin jackson n e) n >>=
        fun items => call readContainerEnd >>= fun _ => pure (Tree.array items))
      (writeContainerBegin ++ inner ++ writeContainerEnd) (fieldTypesInElements types elements e)
      (plainElements jackson types elements e = true)
      (.array (mirrorElements types elements e)) := by
  obtain ⟨hall, rfl⟩ := serializeElements_ok h
  have hwalked (d : Datum) (hd : d ∈ elements) := ih d hd e _ (hall d hd)
  have hcount := length_le_flatMap elements fun d hd => (hwalked d hd).1.length_pos
  have hlength (d : Datum) (hd : d ∈ elements) :
      (written (serializeValue jackson types d e)).length < n :=
    Nat.lt_of_le_of_lt
      (length_le_of_mem (fun d => written (serializeValue jackson types d e)) hd) hn
  have harray := Reads.array elements
    (fun d hd => ⟨(hwalked d hd).1, (hwalked d hd).2 n (hlength d hd)⟩)
    (Nat.lt_of_le_of_lt hcount hn)
  rw [mirrorElements_eq, fieldTypesInElements_eq]
  exact harray.congr plainElements_iff.symm rfl rfl

theorem walked_collection {elements : List Datum} {e type : BondType} {tokens : List JsonToken}
    (ih : ∀ d ∈ elements, Walked jackson types d)
    (htype : ∀ n, walkWithin jackson (n + 1) type =
      (call readContainerBegin >>= fun _ => walkItems (walkWithin jackson n e) n >>=
        fun items => call readContainerEnd >>= fun _ => pure (Tree.array items)))
    (h : (do
      let tokens ← serializeElements jackson types elements e
      return writeContainerBegin ++ tokens ++ writeContainerEnd) = Except.ok tokens) :
    Item tokens ∧ ∀ n, tokens.length < n → Reads (walkWithin jackson n type) tokens
      (fieldTypesInElements types elements e) (plainElements jackson types elements e = true)
      (.array (mirrorElements types elements e)) := by
  obtain ⟨inner, helements, h⟩ := ok_of_bind h
  cases h
  refine ⟨item_container inner, fun n hn => ?_⟩
  obtain ⟨n, rfl⟩ := Nat.exists_eq_succ_of_ne_zero (Nat.ne_of_gt (Nat.zero_lt_of_lt hn))
  rw [length_container] at hn
  rw [htype]
  exact walked_elements ih helements (by omega)

/-- An object, of a struct or of a `bonded`. -/
theorem walked_struct {ds : List Datum} {fields : List NamedField} {type : BondType}
    {tokens : List JsonToken}
    (ih : ∀ d ∈ ds, Walked jackson types d
      ∧ ∀ value, d = .something value → Walked jackson types value)
    (htype : ∀ n, walkWithin jackson (n + 1) type =
      (call readStructBegin >>= fun _ => walkFields (walkWithin jackson n) n >>=
        fun fields => call readStructEnd >>= fun _ => pure (Tree.struct fields)))
    (h : (do
      let tokens ← serializeStructFields jackson types ds fields
      return writeStructBegin ++ tokens ++ writeStructEnd) = Except.ok tokens) :
    Item tokens ∧ ∀ n, tokens.length < n → Reads (walkWithin jackson n type) tokens
      (fieldTypesInFields types ds fields) (plainFields jackson types ds fields = true)
      (.struct (mirrorFields types ds fields)) := by
  obtain ⟨inner, hfields, h⟩ := ok_of_bind h
  cases h
  refine ⟨⟨.startObject, inner ++ writeStructEnd, rfl, by decide⟩, fun n hn => ?_⟩
  obtain ⟨n, rfl⟩ := Nat.exists_eq_succ_of_ne_zero (Nat.ne_of_gt (Nat.zero_lt_of_lt hn))
  have hlength : (writeStructBegin ++ inner ++ writeStructEnd).length = inner.length + 2 := by
    simp [writeStructBegin, writeStructEnd]
  rw [hlength] at hn
  rw [htype, List.append_assoc]
  refine (Reads.of_takes takes_readStructBegin).bind_of_true ?_
  exact (walked_fields ih hfields (by omega) (by omega)).bind_return Tree.struct

theorem walked_entries {entries : List (Datum × Datum)} {k e : BondType} {inner : List JsonToken}
    (ih : ∀ kv ∈ entries, Walked jackson types kv.1 ∧ Walked jackson types kv.2)
    (h : serializeEntries jackson types entries k e = .ok inner) {n : Nat}
    (hn : inner.length < n) :
    Reads (call readContainerBegin >>= fun _ =>
        walkEntries (walkWithin jackson n k) (walkWithin jackson n e) n >>=
          fun entries => call readContainerEnd >>= fun _ => pure (Tree.map entries))
      (writeContainerBegin ++ inner ++ writeContainerEnd)
      (fieldTypesInEntries types entries k e)
      (plainEntries jackson types entries k e = true)
      (.map (mirrorEntries types entries k e)) := by
  obtain ⟨hall, rfl⟩ := serializeEntries_ok h
  have hkey (kv : Datum × Datum) (hkv : kv ∈ entries) := (ih kv hkv).1 k _ (hall kv hkv).1
  have hvalue (kv : Datum × Datum) (hkv : kv ∈ entries) := (ih kv hkv).2 e _ (hall kv hkv).2
  have hcount := length_le_flatMap entries fun kv hkv => ((hkey kv hkv).1.append
    (written (serializeValue jackson types kv.2 e))).length_pos
  have hlength (kv : Datum × Datum) (hkv : kv ∈ entries) :
      (written (serializeValue jackson types kv.1 k)).length
        + (written (serializeValue jackson types kv.2 e)).length < n := by
    rw [← List.length_append]
    exact Nat.lt_of_le_of_lt (length_le_of_mem (fun kv : Datum × Datum =>
      written (serializeValue jackson types kv.1 k)
        ++ written (serializeValue jackson types kv.2 e)) hkv) hn
  have hentries := Reads.entries entries
    (fun kv hkv => ⟨(hkey kv hkv).1, (hkey kv hkv).2 n (by have := hlength kv hkv; omega)⟩)
    (fun kv hkv => ⟨(hvalue kv hkv).1, (hvalue kv hkv).2 n (by have := hlength kv hkv; omega)⟩)
    (Nat.lt_of_le_of_lt hcount hn) Tree.map
  rw [mirrorEntries_eq, fieldTypesInEntries_eq, List.append_assoc]
  exact ((Reads.of_takes takes_readContainerBegin).bind_of_true hentries).congr
    plainEntries_iff.symm rfl rfl

theorem write_ne_endArray (v : BasicValue) : write jackson v ≠ .endArray := by
  cases v with
  | bool v => cases v <;> simp [write, writeBool]
  | float bits =>
      show writeFloat jackson bits ≠ .endArray
      unfold writeFloat
      split <;> simp
  | double bits =>
      show writeDouble jackson bits ≠ .endArray
      unfold writeDouble
      split <;> simp
  | _ => simp [write]

variable (jackson) in
theorem takes_readInt8_startArray (v : BasicValue) :
    Takes (read jackson .int8) .startArray False v := by
  have hnumber : Takes (readNumberInt fun numberType n =>
      numberType = .int && decide (-128 ≤ n) && decide (n ≤ 127)) .startArray False 0 :=
    .advance False.elim fun _ => ⟨_, rfl⟩
  intro reader rest hleft
  obtain ⟨e, he⟩ := ((hnumber.map Int8.ofInt).map BasicValue.int8 reader rest hleft).2 id
  exact ⟨False.elim, fun _ => ⟨e, he⟩⟩

/-- What is written for a blob is not read: behind the start of the array comes another one. -/
theorem reads_blob (data : List UInt8) {n : Nat} (hn : 1 < n) :
    Reads (call readContainerBegin >>= fun _ =>
        walkItems (Tree.scalar <$> call (read jackson .int8)) n >>= fun items =>
          call readContainerEnd >>= fun _ => pure (Tree.array items))
      (writeContainerBegin ++ writeBytes data ++ writeContainerEnd) [] False
      (.array (data.map fun b => .scalar (.int8 b.toInt8))) := by
  have hinner := (Reads.of_takes_false (takes_readInt8_startArray jackson (.int8 0))
    (data.map (fun b => .valueNumberInt b.toInt8.toInt) ++ [.endArray]) []).map Tree.scalar
  have harray := Reads.array [()] (fun _ _ => ⟨⟨_, _, rfl, by decide⟩, hinner⟩) hn
  exact (harray.congr (by simp) (by simp [writeBytes]) rfl).of_false _

/-- A value is walked: by induction over it, each level of a struct or a container being read by the
    rule for its loop. -/
theorem walked (d : Datum) : Walked jackson types d := by
  induction d using datum_induct with
  | null =>
      intro type tokens h
      rw [serializeValue] at h
      cases type with
      | nullable e =>
          cases h
          refine ⟨item_container [], fun n hn => ?_⟩
          obtain ⟨n, rfl⟩ := Nat.exists_eq_succ_of_ne_zero (Nat.ne_of_gt (Nat.zero_lt_of_lt hn))
          have hn : 2 < n + 1 := hn
          have hempty : serializeElements jackson types [] e = .ok [] := rfl
          exact walked_elements (fun d hd => absurd hd List.not_mem_nil) hempty
            (show 0 < n by omega)
      | _ => cases h
  | primitive v =>
      intro type tokens h
      rw [serializeValue] at h
      refine walked_nullable h fun inner hinner => ?_
      cases hcore : type.core with
      | primitive b =>
          rw [hcore] at hinner
          simp only at hinner
          split at hinner
          · next htype =>
              subst htype
              cases hinner
              refine ⟨⟨write jackson v, [], rfl, write_ne_endArray v⟩, fun n hn => ?_⟩
              obtain ⟨n, rfl⟩ := Nat.exists_eq_succ_of_ne_zero (Nat.ne_of_gt (Nat.zero_lt_of_lt hn))
              have hread := (Reads.of_takes (takes_read jackson v)).map Tree.scalar
              exact hread.congr (by simp [plain]) rfl rfl
          · cases hinner
      | _ =>
          rw [hcore] at hinner
          cases hinner
  | blob data =>
      intro type tokens h
      rw [serializeValue] at h
      refine walked_nullable h fun inner hinner => ?_
      cases hcore : type.core with
      | blob =>
          rw [hcore] at hinner
          cases hinner
          refine ⟨item_container _, fun n hn => ?_⟩
          obtain ⟨n, rfl⟩ := Nat.exists_eq_succ_of_ne_zero (Nat.ne_of_gt (Nat.zero_lt_of_lt hn))
          rw [length_container] at hn
          exact (reads_blob data (by omega)).congr (by simp [plain]) rfl rfl
      | _ =>
          rw [hcore] at hinner
          cases hinner
  | collection elements ih =>
      intro type tokens h
      rw [serializeValue] at h
      rw [mirror, fieldTypesIn, plain]
      cases hcore : type.core with
      | vector e =>
          refine walked_nullable h fun inner hinner => ?_
          rw [hcore] at hinner ⊢
          exact walked_collection ih (fun n => rfl) hinner
      | list e =>
          refine walked_nullable h fun inner hinner => ?_
          rw [hcore] at hinner ⊢
          exact walked_collection ih (fun n => rfl) hinner
      | set e =>
          refine walked_nullable h fun inner hinner => ?_
          rw [hcore] at hinner ⊢
          exact walked_collection ih (fun n => rfl) hinner
      | _ =>
          obtain ⟨inner, hinner⟩ := ok_of_nullable h
          rw [hcore] at hinner
          cases hinner
  | map entries ih =>
      intro type tokens h
      rw [serializeValue] at h
      rw [mirror, fieldTypesIn, plain]
      cases hcore : type.core with
      | map k e =>
          refine walked_nullable h fun inner hinner => ?_
          rw [hcore] at hinner ⊢
          obtain ⟨inner, hentries, hinner⟩ := ok_of_bind hinner
          cases hinner
          refine ⟨item_container inner, fun n hn => ?_⟩
          obtain ⟨n, rfl⟩ := Nat.exists_eq_succ_of_ne_zero (Nat.ne_of_gt (Nat.zero_lt_of_lt hn))
          rw [length_container] at hn
          exact walked_entries ih hentries (by omega)
      | _ =>
          obtain ⟨inner, hinner⟩ := ok_of_nullable h
          rw [hcore] at hinner
          cases hinner
  | something value ih =>
      intro type tokens h
      cases h
  | struct fields ih =>
      intro type tokens h
      rw [serializeValue] at h
      rw [mirror, fieldTypesIn, plain]
      cases hcore : type.core with
      | struct index =>
          refine walked_nullable h fun inner hinner => ?_
          rw [hcore] at hinner ⊢
          exact walked_struct ih (fun n => rfl) hinner
      | bonded index =>
          refine walked_nullable h fun inner hinner => ?_
          rw [hcore] at hinner ⊢
          exact walked_struct ih (fun n => rfl) hinner
      | _ =>
          obtain ⟨inner, hinner⟩ := ok_of_nullable h
          rw [hcore] at hinner
          cases hinner
  | bonded marshaled =>
      intro type tokens h
      cases h

end

/-! ## Round trips -/

/-- A walk over what is written for a value of any type finds the structure of the value, and
    reaches the end, if and only if no blob and no quoted number is written. -/
theorem walk_serializeValue_iff (jackson : Jackson) (types : Nat → List (List NamedField))
    (d : Datum) (type : BondType) (tokens : List JsonToken)
    (h : serializeValue jackson types d type = .ok tokens) :
    (∃ client, walk jackson type ⟨.ofTokens tokens, fieldTypesIn types d type⟩
        = .ok (mirror types d type, client) ∧ client.At [] [])
      ↔ plain jackson types d type = true := by
  have hwalked := (walked d type tokens h).2 (tokens.length + 1) (Nat.lt_succ_self _)
  have hat : Client.At ⟨.ofTokens tokens, fieldTypesIn types d type⟩ (tokens ++ [])
      (fieldTypesIn types d type ++ []) := by
    rw [List.append_nil, List.append_nil]
    exact ⟨rfl, rfl⟩
  obtain ⟨hgood, hbad⟩ := hwalked _ [] [] hat
  refine ⟨fun hread => ?_, hgood⟩
  by_contra hplain
  obtain ⟨client, hread, -⟩ := hread
  obtain ⟨e, he⟩ := hbad hplain
  exact absurd (hread.symm.trans he) (by simp)

/-- Jackson as it is set up. -/
def defaultJackson : Jackson where
  quoteNonNumericNumbers := true
  getFloatValue
    | .valueNumberFloat (.float bits) => some bits
    | _ => none
  getDoubleValue
    | .valueNumberFloat (.double bits) => some bits
    | _ => none
  getFloatValue_float _ := rfl
  getDoubleValue_double _ := rfl

/-- A base with a field `data` of type `blob`, and a derived struct with fields `counts` of type
    `map<int32, nullable<double>>` and `parts` of type `list<blob>`. -/
def exampleTypes (_ : Nat) : List (List NamedField) :=
  [[⟨⟨⟨.blob, 0, .optional⟩, .object⟩, "data"⟩],
    [⟨⟨⟨.map (.primitive .int32) (.nullable (.primitive .double)), 0, .optional⟩, .object⟩,
      "counts"⟩, ⟨⟨⟨.list .blob, 1, .optional⟩, .object⟩, "parts"⟩]]

/-- Two entries, one of them null, in a struct with an empty blob and an empty list. -/
theorem walk_serializeValue_iff_counts :
    ∃ client, walk defaultJackson (.struct 0)
      ⟨.ofTokens [.startObject, .fieldName "counts", .startArray, .valueNumberInt 7, .startArray,
          .valueNumberFloat (.double 0x3FF8000000000000), .endArray, .valueNumberInt (-1),
          .startArray, .endArray, .endArray, .endObject],
        [.map (.primitive .int32) (.nullable (.primitive .double))]⟩
      = .ok (.struct [("counts", .map
          [(.scalar (.int32 7), .array [.scalar (.double 0x3FF8000000000000)]),
            (.scalar (.int32 (-1)), .array [])])], client) ∧ client.At [] [] :=
  (walk_serializeValue_iff defaultJackson exampleTypes
    (.struct [.blob [], .map [(.primitive (.int32 7), .primitive (.double 0x3FF8000000000000)),
      (.primitive (.int32 (-1)), .null)], .collection []]) (.struct 0) _ rfl).2 (by decide)

/-- A blob of two bytes is an array in an array. -/
theorem serializeValue_blob :
    serializeValue defaultJackson exampleTypes (.blob [1, 2]) .blob
        = .ok [.startArray, .startArray, .valueNumberInt 1, .valueNumberInt 2, .endArray, .endArray]
      ∧ walk defaultJackson .blob ⟨.ofTokens [.startArray, .startArray, .valueNumberInt 1,
          .valueNumberInt 2, .endArray, .endArray], []⟩ = .error .invalidBondData
      ∧ mirror exampleTypes (.blob [1, 2]) .blob
        = .array [.scalar (.int8 1), .scalar (.int8 2)] := by
  refine ⟨rfl, rfl, rfl⟩

end Bond.Java.SimpleJson

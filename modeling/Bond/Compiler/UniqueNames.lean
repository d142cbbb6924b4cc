import Bond.Lib.Fresh

set_option autoImplicit false

/-! # Unique names

`uniqueName` and `uniqueNames` of `Language.Bond.Codegen.Util`
(compiler/src/Language/Bond/Codegen/Util.hs). A counter is appended to a name that is taken; the
names that are made are taken from then on. -/

namespace Bond.Compiler

/-! ## The functions -/

/-- `go` of `uniqueName`, for so many turns -/
def uniqueName.go (baseName : String) (taken : List String) : Nat → String → Nat → Option String
  | 0, _, _ => none
  | turns + 1, name, counter =>
      if name ∉ taken then
        some name
      else
        uniqueName.go baseName taken turns (baseName ++ counter.repr) (counter + 1)

/-- `uniqueName`. It makes a turn for each name that is taken at most, and one more. -/
def uniqueName (baseName : String) (taken : List String) : Option String :=
  uniqueName.go baseName taken (taken.length + 1) baseName 0

/-- `go` of `uniqueNames` -/
def uniqueNames.go : (names acc reservedAcc : List String) → Option (List String)
  | [], acc, _ => some acc
  | name :: remaining, acc, reservedAcc => do
      let newName ← uniqueName name reservedAcc
      uniqueNames.go remaining (newName :: acc) (newName :: reservedAcc)

/-- `uniqueNames` -/
def uniqueNames (names reservedInit : List String) : Option (List String) :=
  (uniqueNames.go names [] reservedInit).map List.reverse

/-! ## Candidates -/

/-- The name itself, then the name with `0`, `1`, … behind it. -/
def candidate (baseName : String) : Nat → String
  | 0 => baseName
  | counter + 1 => baseName ++ counter.repr

theorem repr_injective : Function.Injective Nat.repr := by
  intro m n h
  have hdigits : Nat.toDigits 10 m = Nat.toDigits 10 n := by
    rw [← Nat.toList_repr, ← Nat.toList_repr, h]
  have hvalue := congrArg (fun digits => Nat.ofDigitChars 10 digits 0) hdigits
  rwa [Nat.ofDigitChars_ten_toDigits, Nat.ofDigitChars_ten_toDigits] at hvalue

theorem append_repr_ne (baseName : String) (counter : Nat) : baseName ++ counter.repr ≠ baseName := by
  intro h
  have hlength := congrArg String.length h
  have hpos : 0 < counter.repr.length := Nat.length_repr_pos
  rw [String.length_append] at hlength
  omega

theorem candidate_injective (baseName : String) : Function.Injective (candidate baseName) := by
  intro i j h
  rcases i with _ | i <;> rcases j with _ | j
  · rfl
  · exact absurd h.symm (append_repr_ne baseName j)
  · exact absurd h (append_repr_ne baseName i)
  · rw [repr_injective ((String.append_right_inj baseName).1 h)]

theorem uniqueName_go_eq_search (baseName : String) (taken : List String) (turns k : Nat) :
    uniqueName.go baseName taken turns (candidate baseName k) k
      = Fresh.search (candidate baseName) taken turns k := by
  induction turns generalizing k with
  | zero => rfl
  | succ turns ih =>
      have hnext : uniqueName.go baseName taken turns (baseName ++ k.repr) (k + 1)
          = Fresh.search (candidate baseName) taken turns (k + 1) := ih (k + 1)
      rw [uniqueName.go, Fresh.search, ite_not, hnext]

/-! ## One name -/

/-- What `uniqueName` returns for a name. -/
structure UniqueFor (baseName : String) (taken : List String) (name : String) : Prop where
  notMem : name ∉ taken
  suffix : name = baseName ∨ ∃ counter : Nat, name = baseName ++ counter.repr
  unchanged : baseName ∉ taken → name = baseName

/-- The search for a free suffix comes to an end. -/
theorem exists_uniqueName (baseName : String) (taken : List String) :
    ∃ name, uniqueName baseName taken = some name ∧ UniqueFor baseName taken name := by
  have heq : uniqueName baseName taken
      = Fresh.search (candidate baseName) taken (taken.length + 1) 0 :=
    uniqueName_go_eq_search baseName taken (taken.length + 1) 0
  obtain ⟨name, hname⟩ := Fresh.exists_search_eq_some (k := 0) (candidate_injective baseName)
    (Nat.lt_succ_self taken.length)
  obtain ⟨hnotMem, i, -, rfl, hbefore⟩ := Fresh.search_eq_some hname
  refine ⟨_, heq.trans hname, hnotMem, ?_, fun hfree => ?_⟩
  · rcases i with _ | counter
    · exact .inl rfl
    · exact .inr ⟨counter, rfl⟩
  · have hfirst : Fresh.search (candidate baseName) taken (taken.length + 1) 0
        = some (candidate baseName 0) := Fresh.search_of_notMem hfree
    exact (Option.some.inj (hfirst.symm.trans hname)).symm

/-! ## Many names -/

/-- What `uniqueNames` returns: each name is made of its input when the reserved names and the names
    in front of it are taken. -/
inductive UniqueNames : (names taken results : List String) → Prop
  | nil (taken : List String) : UniqueNames [] taken []
  | cons {name : String} {names taken : List String} {result : String} {results : List String}
      (head : UniqueFor name taken result) (tail : UniqueNames names (result :: taken) results) :
      UniqueNames (name :: names) taken (result :: results)

theorem exists_uniqueNames_go (names acc reservedAcc : List String) :
    ∃ results, uniqueNames.go names acc reservedAcc = some (results.reverse ++ acc) ∧
      UniqueNames names reservedAcc results := by
  induction names generalizing acc reservedAcc with
  | nil => exact ⟨[], rfl, .nil reservedAcc⟩
  | cons name remaining ih =>
      obtain ⟨newName, hnew, hunique⟩ := exists_uniqueName name reservedAcc
      obtain ⟨results, hgo, hresults⟩ := ih (newName :: acc) (newName :: reservedAcc)
      refine ⟨newName :: results, ?_, .cons hunique hresults⟩
      rw [uniqueNames.go, hnew, List.reverse_cons, List.append_assoc]
      exact hgo

section

variable {names taken results : List String}

theorem UniqueNames.length_eq (h : UniqueNames names taken results) :
    results.length = names.length := by
  induction h with
  | nil => rfl
  | cons _ _ ih => exact congrArg Nat.succ ih

theorem UniqueNames.notMem (h : UniqueNames names taken results) :
    ∀ result ∈ results, result ∉ taken := by
  induction h with
  | nil => nofun
  | cons head _ ih =>
      intro result hresult
      rcases List.mem_cons.1 hresult with rfl | hresult
      · exact head.notMem
      · exact fun htaken => ih result hresult (List.mem_cons_of_mem _ htaken)

theorem UniqueNames.nodup (h : UniqueNames names taken results) : results.Nodup := by
  induction h with
  | nil => exact List.nodup_nil
  | cons _ tail ih =>
      refine List.nodup_cons.2 ⟨fun hmem => ?_, ih⟩
      exact tail.notMem _ hmem List.mem_cons_self

/-- The `i`-th name, when the names in front of it are taken as well. -/
theorem UniqueNames.get (h : UniqueNames names taken results) {i : Nat} {name result : String}
    (hname : names[i]? = some name) (hresult : results[i]? = some result) :
    UniqueFor name ((results.take i).reverse ++ taken) result := by
  induction h generalizing i with
  | nil => cases hname
  | cons head _ ih =>
      rcases i with _ | i
      · obtain rfl := Option.some.inj hname
        obtain rfl := Option.some.inj hresult
        exact head
      · have htail := ih hname hresult
        rwa [List.take_succ_cons, List.reverse_cons, List.append_assoc, List.singleton_append]

end

/-- `uniqueName` returns a free name. `uniqueNames` returns a name for each name, in order: they are
    different, none of them is reserved, and each is its input with at most one counter behind it,
    without one if the input is not reserved and not among the names in front. -/
theorem uniqueNames_unique (names reserved : List String) :
    (∀ name, ∃ result, uniqueName name reserved = some result ∧ UniqueFor name reserved result) ∧
    ∃ results, uniqueNames names reserved = some results ∧
      results.length = names.length ∧ results.Nodup ∧ (∀ result ∈ results, result ∉ reserved) ∧
      ∀ i name result, names[i]? = some name → results[i]? = some result →
        (result = name ∨ ∃ counter : Nat, result = name ++ counter.repr) ∧
          (name ∉ reserved → name ∉ results.take i → result = name) := by
  obtain ⟨results, hgo, hunique⟩ := exists_uniqueNames_go names [] reserved
  refine ⟨fun name => exists_uniqueName name reserved, results, ?_, hunique.length_eq,
    hunique.nodup, hunique.notMem, fun i name result hname hresult => ?_⟩
  · rw [uniqueNames, hgo, Option.map_some, List.append_nil, List.reverse_reverse]
  · have hget := hunique.get hname hresult
    refine ⟨hget.suffix, fun hreserved hfront => hget.unchanged fun htaken => ?_⟩
    rcases List.mem_append.1 htaken with htaken | htaken
    · exact hfront (List.mem_reverse.1 htaken)
    · exact hreserved htaken

example : uniqueNames ["a", "a", "a0", "b"] ["b"] = some ["a", "a0", "a00", "b0"] := by
  decide

end Bond.Compiler

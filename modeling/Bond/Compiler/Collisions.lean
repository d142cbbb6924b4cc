import Bond.Compiler.Redefinition

set_option autoImplicit false

/-! # Collisions with several symbols

`reconcile` takes more than one duplicate of a declaration for impossible. The symbols of the table
are never duplicates of one another, but a declaration in several namespaces may be a duplicate of
symbols that are not. When that happens. -/

namespace Bond.Compiler

open Bond.Lib
open Bond.Lib.Parsec

/-! ## Declarations one after the other -/

/-- The declarations of a compilation, struct heads among them, as they come to `updateSymbols`. -/
def updateAll : List Declaration → Parser Unit
  | [] => return ()
  | d :: ds => do
      updateSymbols d
      updateAll ds

/-- From an empty table, every declaration is added, known already or reported. -/
def NeverImpossible (ds : List Declaration) : Prop :=
  ∀ n env s input message, s.symbols = [] → updateAll ds n env s input ≠ .abort message

/-- The symbols that a declaration collides with collide with each other. -/
def CollidesOnce (table : List Declaration) (d : Declaration) : Prop :=
  ∀ x ∈ table, ∀ y ∈ table, duplicateDeclaration d x = true → duplicateDeclaration d y = true →
    duplicateDeclaration x y = true

/-- Every declaration of a run meets the table this way. -/
def CollideOnce : List Declaration → List Declaration → Prop
  | _, [] => True
  | table, d :: ds =>
      CollidesOnce table d ∧ ∀ table', updated d table = .symbols table' → CollideOnce table' ds

/-! ## One update -/

/-- No two symbols are duplicates. -/
def Apart (table : List Declaration) : Prop :=
  table.Pairwise fun x y => duplicateDeclaration x y = false

theorem duplicateDeclaration_self {x y : Declaration} (h : duplicateDeclaration x y = true) :
    duplicateDeclaration y y = true := by
  obtain ⟨-, ns, -, hns⟩ := duplicateDeclaration_iff.1 h
  exact duplicateDeclaration_iff.2 ⟨rfl, ns, hns, hns⟩

theorem Update.apart {d : Declaration} {table table' : List Declaration}
    (h : Update d table table') (htable : Apart table) : Apart table' := by
  cases h with
  | new hnone => exact List.pairwise_cons.2 ⟨hnone, htable⟩
  | replaced =>
      refine List.pairwise_cons.2 ⟨?_, htable.sublist List.filter_sublist⟩
      intro z hz
      simpa using (List.mem_filter.1 hz).2
  | repeated => exact htable

theorem reconcile_eq_none_iff (previous : List Declaration) (d : Declaration) :
    reconcile previous d = none ↔ 1 < previous.length := by
  rcases previous with _ | ⟨x, _ | ⟨y, previous⟩⟩
  · simp [reconcile]
  · cases x <;> cases d <;> simp [reconcile]
  · simp [reconcile]

theorem updated_eq_impossible_iff (d : Declaration) (table : List Declaration) :
    updated d table = .impossible ↔ 1 < (table.filter (duplicateDeclaration d)).length := by
  rw [← reconcile_eq_none_iff _ d]
  unfold updated
  dsimp only
  split
  · next h => simp [h]
  all_goals next h => simp [h]

/-- The error branch is out of reach as long as what collides with a declaration also collides with
    one another. -/
theorem updated_ne_impossible_iff {d : Declaration} {table : List Declaration}
    (htable : Apart table) : updated d table ≠ .impossible ↔ CollidesOnce table d := by
  have hmem : ∀ {x}, x ∈ table.filter (duplicateDeclaration d) ↔
      x ∈ table ∧ duplicateDeclaration d x = true := List.mem_filter
  have hapart := htable.sublist (List.filter_sublist (p := duplicateDeclaration d))
  rw [Ne, updated_eq_impossible_iff]
  rcases hprevious : table.filter (duplicateDeclaration d) with _ | ⟨x, _ | ⟨y, rest⟩⟩
  · refine ⟨fun _ x hx y _ hdup _ => ?_, fun _ => by simp⟩
    have hx' := hmem.2 ⟨hx, hdup⟩
    simp [hprevious] at hx'
  · refine ⟨fun _ a ha b hb hdupa hdupb => ?_, fun _ => by simp⟩
    have ha' := hmem.2 ⟨ha, hdupa⟩
    have hb' := hmem.2 ⟨hb, hdupb⟩
    rw [hprevious, List.mem_singleton] at ha' hb'
    subst ha' hb'
    exact duplicateDeclaration_self hdupa
  · -- the first two are apart
    rw [hprevious] at hapart hmem
    have hxy := (List.pairwise_cons.1 hapart).1 y List.mem_cons_self
    obtain ⟨hx, hdupx⟩ := hmem.1 (List.mem_cons_self (a := x))
    obtain ⟨hy, hdupy⟩ := hmem.1 (List.mem_cons_of_mem x (List.mem_cons_self (a := y)))
    refine ⟨fun h => absurd (by simp) h, fun h => ?_⟩
    rw [h x hx y hy hdupx hdupy] at hxy
    cases hxy

/-! ## Runs -/

section

variable (d : Declaration) (ds : List Declaration) (n : Nat) (env : Environment) (s : Symbols)
  (input : List Char)

theorem updateSymbols_run : updateSymbols d n env s input =
    match updated d s.symbols with
    | .symbols symbols => .ok false () { s with symbols } input
    | .rejected message => .error false message
    | .impossible => .abort "updateSymbols/reconcile: impossible happened." := by
  change Reply.after false _ = _
  dsimp only
  cases updated d s.symbols <;> rfl

theorem updateAll_cons : updateAll (d :: ds) n env s input =
    match updated d s.symbols with
    | .symbols symbols => (updateAll ds n env { s with symbols } input).after false
    | .rejected message => .error false message
    | .impossible => .abort "updateSymbols/reconcile: impossible happened." := by
  change andThen (updateSymbols d) (fun _ => updateAll ds) n env s input = _
  rw [andThen, updateSymbols_run]
  cases updated d s.symbols <;> rfl

end

theorem Reply.after_eq_abort_iff {σ α : Type} {consumed : Bool} {r : Reply σ α} {message : String} :
    r.after consumed = .abort message ↔ r = .abort message := by
  cases r <;> simp [Reply.after]

/-- Wherever a run starts and whatever it is in, it comes to the error branch or does not. -/
theorem updateAll_ne_abort_iff (n : Nat) (env : Environment) (s : Symbols) (input : List Char)
    (ds : List Declaration) (htable : Apart s.symbols) :
    (∀ message, updateAll ds n env s input ≠ .abort message) ↔ CollideOnce s.symbols ds := by
  induction ds generalizing s with
  | nil => exact ⟨fun _ => trivial, fun _ _ => by nofun⟩
  | cons d ds ih =>
      have hstep := updated_ne_impossible_iff (d := d) htable
      rw [CollideOnce, updateAll_cons]
      cases h : updated d s.symbols with
      | symbols table =>
          have hrest := ih { s with symbols := table } ((update_of_updated h).apart htable)
          have honce : CollidesOnce s.symbols d := hstep.1 (by simp [h])
          simpa [Reply.after_eq_abort_iff, honce] using hrest
      | rejected message =>
          have honce : CollidesOnce s.symbols d := hstep.1 (by simp [h])
          simp [honce]
      | impossible =>
          have honce : ¬CollidesOnce s.symbols d := fun honce => hstep.2 honce h
          simp [honce]

/-- The environment of a file, with its namespaces unread. -/
def fileEnvironment (file : String)
    (resolveImport : String → String → Except String (String × List Char)) : Environment :=
  ⟨[], [], file, resolveImport, asciiClasses, ⟨fun v => v, fun _ => .nan⟩⟩

theorem neverImpossible_iff_collideOnce (ds : List Declaration) :
    NeverImpossible ds ↔ CollideOnce [] ds := by
  constructor
  · intro h
    let env := fileEnvironment "" fun _ _ => .error ""
    exact (updateAll_ne_abort_iff 0 env ⟨[], []⟩ [] ds .nil).1 fun message => h 0 env _ [] message rfl
  · intro h n env s input message hs
    rw [← hs] at h
    exact (updateAll_ne_abort_iff n env s input ds (hs ▸ .nil)).2 h message

/-! ## Declarations in any order -/

/-- Declarations that collide with one declaration collide with each other. -/
def CollisionsTransitive (ds : List Declaration) : Prop :=
  ∀ x ∈ ds, ∀ y ∈ ds, ∀ z ∈ ds, duplicateDeclaration z x = true → duplicateDeclaration z y = true →
    duplicateDeclaration x y = true

theorem collideOnce_of_transitive {ds : List Declaration} (hds : CollisionsTransitive ds)
    {table ds' : List Declaration} (htable : ∀ x ∈ table, x ∈ ds) (hds' : ∀ d ∈ ds', d ∈ ds) :
    CollideOnce table ds' := by
  induction ds' generalizing table with
  | nil => trivial
  | cons d ds' ih =>
      obtain ⟨hd, hrest⟩ := List.forall_mem_cons.1 hds'
      refine ⟨fun x hx y hy => hds x (htable x hx) y (htable y hy) d hd, fun table' h => ?_⟩
      refine ih (fun x hx => ?_) hrest
      rcases (update_of_updated h).mem hx with rfl | hx
      · exact hd
      · exact htable x hx

theorem updated_new {d : Declaration} {table : List Declaration}
    (h : ∀ x ∈ table, duplicateDeclaration d x = false) : updated d table = .symbols (d :: table) := by
  have hprevious : table.filter (duplicateDeclaration d) = [] := by simpa using h
  have hothers : table.filter (fun x => !duplicateDeclaration d x) = table := by simpa using h
  simp [updated, hprevious, hothers, reconcile]

/-- Two declarations that do not collide, and one that collides with both. -/
theorem not_collideOnce {x y z : Declaration} (hxy : duplicateDeclaration x y = false)
    (hzx : duplicateDeclaration z x = true) (hzy : duplicateDeclaration z y = true) :
    ¬CollideOnce [] [x, y, z] := by
  have hyx : duplicateDeclaration y x = false := duplicateDeclaration_comm x y ▸ hxy
  rintro ⟨-, hx⟩
  obtain ⟨-, hy⟩ := hx [x] (updated_new (by simp))
  obtain ⟨hz, -⟩ := hy [y, x] (updated_new (by simpa using hyx))
  rw [hz x (by simp) y (by simp) hzx hzy] at hxy
  cases hxy

/-- The error branch is out of reach of a run of declarations exactly if what a declaration collides
    with in the table collides with each other, and of all runs of them exactly if collisions are
    transitive. -/
theorem neverImpossible_iff (ds : List Declaration) :
    (NeverImpossible ds ↔ CollideOnce [] ds) ∧
    ((∀ ds', (∀ d ∈ ds', d ∈ ds) → NeverImpossible ds') ↔ CollisionsTransitive ds) := by
  refine ⟨neverImpossible_iff_collideOnce ds, fun h x hx y hy z hz hzx hzy => ?_, fun h ds' hds' => ?_⟩
  · by_contra hxy
    have hmem : ∀ d ∈ [x, y, z], d ∈ ds := by simp [hx, hy, hz]
    have honce := (neverImpossible_iff_collideOnce _).1 (h _ hmem)
    exact not_collideOnce (by simpa using hxy) hzx hzy honce
  · exact (neverImpossible_iff_collideOnce ds').2 (collideOnce_of_transitive h (by simp) hds')

/-! ## Two files with a struct each -/

/-- A message the compiler ends with. -/
def abortMessage {σ α : Type} : Reply σ α → Option String
  | .abort message => some message
  | _ => none

/-- The files `a.bond` and `b.bond` have a struct of one name in two namespaces. -/
def resolveImport (_ : String) (path : String) : Except String (String × List Char) :=
  if path = "a.bond" then .ok (path, "namespace a struct S{}".toList)
  else if path = "b.bond" then .ok (path, "namespace b struct S{}".toList)
  else .error "no file"

set_option maxRecDepth 10000 in
/-- A file with both namespaces that imports them cannot report its own struct of that name. -/
theorem impossible_happens :
    (¬∀ ds, NeverImpossible ds) ∧
    abortMessage (parseBond asciiClasses ⟨fun v => v, fun _ => .nan⟩ resolveImport
      "import \"a.bond\" import \"b.bond\" namespace a namespace b struct S{}".toList "main.bond" 40) =
        some "updateSymbols/reconcile: impossible happened." := by
  refine ⟨fun h => ?_, ?_⟩
  case refine_2 =>
    rewrite [String.toList_ofList]
    decide +kernel
  refine not_collideOnce (x := .forward [⟨none, ["a"]⟩] "S" []) (y := .forward [⟨none, ["b"]⟩] "S" [])
    (z := .forward [⟨none, ["a"]⟩, ⟨none, ["b"]⟩] "S" []) ?_ ?_ ?_
    ((neverImpossible_iff_collideOnce _).1 (h _)) <;> decide +kernel

end Bond.Compiler

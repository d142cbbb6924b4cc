import Mathlib.Data.Fintype.Card
import Mathlib.Data.List.Infix
import Mathlib.Logic.Relation

set_option autoImplicit false

/-! # Tables of definitions that refer to one another

A table gets an entry for each thing that is needed: the entry is reserved under a name first, then
its definition is made, which may need more entries and refers to them by their places, and then it
is filled in. Something whose name is in the table already, filled in or not, is not defined again.
So the recursion comes to an end on cyclic references. -/

namespace Interning

variable {K N D A B C : Type}

/-- An entry, without its definition as long as that is being made. -/
structure Entry (N D : Type) where
  name : N
  definition : Option D

/-- A program that extends a table; it may run out of fuel. -/
abbrev TableM (N D : Type) := StateT (List (Entry N D)) Option

def names (table : List (Entry N D)) : List N :=
  table.map Entry.name

@[simp]
theorem names_append (table table' : List (Entry N D)) :
    names (table ++ table') = names table ++ names table' :=
  List.map_append

section

variable [DecidableEq N] (name : K → N)

/-- The place of what is needed, for which an entry is made if it has none; `define` makes the
    definition, given how to get the places of what it needs in turn. -/
def intern (define : (K → TableM N D Nat) → K → TableM N D D) : Nat → K → TableM N D Nat
  | 0, _ => fun _ => none
  | fuel + 1, x => do
      let table ← get
      let index := (names table).idxOf (name x)
      if index = table.length then
        set (table ++ [⟨name x, none⟩])
        let definition ← define (intern define fuel) x
        modify fun table => table.set index ⟨name x, some definition⟩
        return index
      else
        return index

/-! ## What is added to a table -/

variable (refs : K → List K) (describe : (K → Nat) → K → D)

def indexOf (ns : List N) (x : K) : Nat :=
  ns.idxOf (name x)

/-- The finished entry in a table with these names. -/
def entryOf (ns : List N) (x : K) : Entry N D :=
  ⟨name x, some (describe (indexOf name ns) x)⟩

/-- A definition depends on the places of what it refers to only. -/
def Local : Prop :=
  ∀ x (place place' : K → Nat), (∀ y ∈ refs x, place y = place' y) →
    describe place x = describe place' x

/-- What is needed for something, however indirectly. -/
def Needs : K → K → Prop :=
  Relation.ReflTransGen fun x y => y ∈ refs x

/-- The names are different, and each is the name of something. -/
structure Valid (table : List (Entry N D)) : Prop where
  nodup : (names table).Nodup
  range : ∀ n ∈ names table, ∃ x, name x = n

/-- Finished entries have been added for `new`, which is needed for `roots`; those have entries now,
    and so has everything that the new entries refer to. -/
structure Adds (table table' : List (Entry N D)) (new roots : List K) : Prop where
  eq : table' = table ++ new.map (entryOf name describe (names table'))
  valid : Valid name table'
  closed : ∀ y ∈ new, ∀ z ∈ refs y, name z ∈ names table'
  found : ∀ z ∈ roots, name z ∈ names table'
  needs : ∀ y ∈ new, ∃ z ∈ roots, Needs refs z y

/-- A way to get places that has fuel for all that is not in the table yet. -/
def Serves (count fuel : Nat) (get : K → TableM N D Nat) : Prop :=
  ∀ x table, Valid name table → count < fuel + table.length →
    ∃ new table', get x table = some (indexOf name (names table') x, table') ∧
      Adds name refs describe table table' new [x]

/-- A program that gets the places of `roots` and makes `value` of the places. -/
structure Collects (op : (K → TableM N D Nat) → TableM N D A) (roots : List K)
    (value : (K → Nat) → A) : Prop where
  adds : ∀ count fuel get table, Serves name refs describe count fuel get → Valid name table →
    count < fuel + table.length →
      ∃ new table', op get table = some (value (indexOf name (names table')), table') ∧
        Adds name refs describe table table' new roots
  congr : ∀ place place' : K → Nat, (∀ x ∈ roots, place x = place' x) → value place = value place'

end

section

variable [DecidableEq N] {name : K → N} {refs : K → List K} {describe : (K → Nat) → K → D}
  {table table' table'' : List (Entry N D)} {new new' roots roots' : List K}

/-- There are not more names than things. -/
theorem Valid.length_le [Fintype K] (h : Valid name table) : table.length ≤ Fintype.card K := by
  classical
  have hsub : (names table).toFinset ⊆ Finset.univ.image name := by
    intro n hn
    obtain ⟨x, rfl⟩ := h.range n (List.mem_toFinset.1 hn)
    exact Finset.mem_image_of_mem _ (Finset.mem_univ x)
  have hle := Finset.card_le_card hsub
  rw [List.toFinset_card_of_nodup h.nodup, names, List.length_map] at hle
  exact Nat.le_trans hle Finset.card_image_le

theorem names_map_entryOf (ns : List N) (xs : List K) :
    names (xs.map (entryOf name describe ns)) = xs.map name := by
  rw [names, List.map_map]
  rfl

theorem Adds.names_eq (h : Adds name refs describe table table' new roots) :
    names table' = names table ++ new.map name := by
  have heq := congrArg names h.eq
  rwa [names_append, names_map_entryOf] at heq

theorem Adds.isPrefix (h : Adds name refs describe table table' new roots) :
    names table <+: names table' := by
  rw [h.names_eq]
  exact List.prefix_append _ _

theorem Adds.length_le (h : Adds name refs describe table table' new roots) :
    table.length ≤ table'.length := by
  rw [h.eq, List.length_append]
  exact Nat.le_add_right _ _

theorem Adds.refl (h : Valid name table) : Adds name refs describe table table [] [] where
  eq := (List.append_nil table).symm
  valid := h
  closed := nofun
  found := nofun
  needs := nofun

/-- More names behind do not change what is found. -/
theorem indexOf_extend {ns ns' : List N} (h : ns <+: ns') {x : K} (hx : name x ∈ ns) :
    indexOf name ns' x = indexOf name ns x := by
  obtain ⟨more, rfl⟩ := h
  exact List.idxOf_append_of_mem hx

/-- The entries that have been added stay the same when more are added. -/
theorem map_entryOf_extend {ns ns' : List N} (h : ns <+: ns') (hlocal : Local refs describe)
    (hrefs : ∀ y ∈ new, ∀ z ∈ refs y, name z ∈ ns) :
    new.map (entryOf name describe ns') = new.map (entryOf name describe ns) := by
  refine List.map_congr_left fun y hy => ?_
  have hsame := hlocal y _ _ fun z hz => indexOf_extend h (hrefs y hy z hz)
  rw [entryOf, entryOf, hsame]

theorem Adds.trans (hlocal : Local refs describe)
    (h : Adds name refs describe table table' new roots)
    (h' : Adds name refs describe table' table'' new' roots') :
    Adds name refs describe table table'' (new ++ new') (roots ++ roots') := by
  have hfront := h'.isPrefix
  refine ⟨?_, h'.valid, fun y hy => ?_, fun z hz => ?_, fun y hy => ?_⟩
  · have hold := map_entryOf_extend hfront hlocal h.closed
    rw [List.map_append, hold, ← List.append_assoc, ← h.eq]
    exact h'.eq
  · rcases List.mem_append.1 hy with hy | hy
    · exact fun z hz => hfront.subset (h.closed y hy z hz)
    · exact h'.closed y hy
  · rcases List.mem_append.1 hz with hz | hz
    · exact hfront.subset (h.found z hz)
    · exact h'.found z hz
  · rcases List.mem_append.1 hy with hy | hy
    · obtain ⟨z, hz, hneeds⟩ := h.needs y hy
      exact ⟨z, List.mem_append_left _ hz, hneeds⟩
    · obtain ⟨z, hz, hneeds⟩ := h'.needs y hy
      exact ⟨z, List.mem_append_right _ hz, hneeds⟩

/-! ## Programs that collect -/

variable {op : (K → TableM N D Nat) → TableM N D A} {op' : (K → TableM N D Nat) → TableM N D B}
  {value : (K → Nat) → A} {value' : (K → Nat) → B}

theorem Collects.pure (a : A) :
    Collects name refs describe (fun _ => Pure.pure a) [] fun _ => a where
  adds _ _ _ table _ hvalid _ := ⟨[], table, rfl, .refl hvalid⟩
  congr _ _ _ := rfl

theorem Collects.get (x : K) :
    Collects name refs describe (fun get => get x) [x] fun place => place x where
  adds _ _ _ table hserves hvalid hfuel := hserves x table hvalid hfuel
  congr _ _ h := h x List.mem_cons_self

theorem Collects.map (h : Collects name refs describe op roots value) (f : A → B) :
    Collects name refs describe (fun get => do return f (← op get)) roots
      fun place => f (value place) where
  adds count fuel get table hserves hvalid hfuel := by
    obtain ⟨new, table', hop, hadds⟩ := h.adds count fuel get table hserves hvalid hfuel
    refine ⟨new, table', ?_, hadds⟩
    show (op get table).bind _ = _
    rw [hop]
    rfl
  congr place place' hplace := congrArg f (h.congr place place' hplace)

/-- One program after the other. -/
theorem Collects.bind (hlocal : Local refs describe)
    (h : Collects name refs describe op roots value)
    (h' : Collects name refs describe op' roots' value') (f : A → B → C) :
    Collects name refs describe (fun get => do return f (← op get) (← op' get)) (roots ++ roots')
      fun place => f (value place) (value' place) where
  adds count fuel get table hserves hvalid hfuel := by
    obtain ⟨new, table', hop, hadds⟩ := h.adds count fuel get table hserves hvalid hfuel
    have hlength := hadds.length_le
    obtain ⟨new', table'', hop', hadds'⟩ :=
      h'.adds count fuel get table' hserves hadds.valid (by omega)
    refine ⟨new ++ new', table'', ?_, hadds.trans hlocal hadds'⟩
    have hvalue : value (indexOf name (names table')) = value (indexOf name (names table'')) :=
      h.congr _ _ fun x hx => (indexOf_extend hadds'.isPrefix (hadds.found x hx)).symm
    show (op get table).bind _ = _
    rw [hop, Option.bind_some]
    show (op' get table').bind _ = _
    rw [hop', hvalue]
    rfl
  congr place place' hplace := by
    rw [h.congr place place' fun x hx => hplace x (List.mem_append_left _ hx),
      h'.congr place place' fun x hx => hplace x (List.mem_append_right _ hx)]

/-- A program for each of a list. -/
theorem Collects.mapM (hlocal : Local refs describe)
    {op : (K → TableM N D Nat) → B → TableM N D A} {roots : B → List K}
    {value : (K → Nat) → B → A} (bs : List B)
    (h : ∀ b ∈ bs, Collects name refs describe (fun get => op get b) (roots b)
      fun place => value place b) :
    Collects name refs describe (fun get => bs.mapM (op get)) (bs.flatMap roots)
      fun place => bs.map (value place) := by
  induction bs with
  | nil => exact .pure []
  | cons b bs ih =>
      have hhead := h b List.mem_cons_self
      have htail := ih fun b' hb' => h b' (List.mem_cons_of_mem b hb')
      simp only [List.mapM_cons]
      exact hhead.bind hlocal htail List.cons

/-! ## Entries for what is needed -/

variable {define : (K → TableM N D Nat) → K → TableM N D D}

theorem idxOf_lt_or_eq (table : List (Entry N D)) (n : N) :
    (names table).idxOf n < table.length ↔ n ∈ names table := by
  rw [← List.idxOf_lt_length_iff, names, List.length_map]

omit [DecidableEq N] in
/-- A name that is not in the table can be reserved. -/
theorem Valid.reserve (hvalid : Valid name table) {x : K} (hx : name x ∉ names table) :
    Valid name (table ++ [⟨name x, none⟩]) := by
  refine ⟨?_, fun n hn => ?_⟩
  · rw [names_append]
    refine List.nodup_append.2 ⟨hvalid.nodup, List.pairwise_singleton _ _, ?_⟩
    intro a ha b hb hab
    rw [hab, List.mem_singleton.1 hb] at ha
    exact hx ha
  · rw [names_append] at hn
    rcases List.mem_append.1 hn with hn | hn
    · exact hvalid.range n hn
    · exact ⟨x, (List.mem_singleton.1 hn).symm⟩

omit [DecidableEq N] in
theorem set_middle (before after : List (Entry N D)) (entry entry' : Entry N D) :
    (before ++ entry :: after).set before.length entry' = before ++ entry' :: after := by
  rw [List.set_append_right _ _ (Nat.le_refl _), Nat.sub_self, List.set_cons_zero]

/-- The place of the first name that is not in the table. -/
theorem idxOf_middle {before after : List (Entry N D)} {n : N} {definition : Option D}
    (h : n ∉ names before) :
    (names (before ++ ⟨n, definition⟩ :: after)).idxOf n = before.length := by
  rw [names_append, List.idxOf_append_of_notMem h]
  show (names before).length + (n :: names after).idxOf n = _
  rw [List.idxOf_cons_self, names, List.length_map, Nat.add_zero]

theorem intern_serves [Fintype K]
    (hdefine : ∀ x, Collects name refs describe (fun get => define get x) (refs x)
      fun place => describe place x) (fuel : Nat) :
    Serves name refs describe (Fintype.card K) fuel (intern name define fuel) := by
  induction fuel with
  | zero =>
      intro x table hvalid hfuel
      have hle := hvalid.length_le
      omega
  | succ fuel ih =>
      intro x table hvalid hfuel
      have hlt := idxOf_lt_or_eq table (name x)
      by_cases hx : name x ∈ names table
      · -- there is an entry, finished or not
        have hne : (names table).idxOf (name x) ≠ table.length := Nat.ne_of_lt (hlt.2 hx)
        refine ⟨[], table, ?_, (List.append_nil table).symm, hvalid, nofun, ?_, nofun⟩
        · show (if (names table).idxOf (name x) = table.length then _ else _ :
            TableM N D Nat) table = _
          rw [if_neg hne]
          rfl
        · intro z hz
          rw [List.mem_singleton.1 hz]
          exact hx
      · have hidx : (names table).idxOf (name x) = table.length := by
          rw [List.idxOf_eq_length hx, names, List.length_map]
        obtain ⟨new, table', hdef, hadds⟩ := (hdefine x).adds (Fintype.card K) fuel
          (intern name define fuel) (table ++ [⟨name x, none⟩]) ih (hvalid.reserve hx) (by
            rw [List.length_append, List.length_singleton]
            omega)
        have heq := hadds.eq
        rw [List.append_assoc, List.singleton_append] at heq
        set finished := table ++ entryOf name describe (names table') x ::
          new.map (entryOf name describe (names table')) with hfinished
        have hset : table'.set table.length (entryOf name describe (names table') x) = finished := by
          have hmiddle := set_middle table (new.map (entryOf name describe (names table')))
            ⟨name x, none⟩ (entryOf name describe (names table') x)
          rwa [← heq] at hmiddle
        have hsame : names finished = names table' := by
          have hnames := hadds.names_eq
          rw [names_append, List.append_assoc] at hnames
          rw [hnames, hfinished, names_append]
          exact congrArg (fun ns => names table ++ name x :: ns) (names_map_entryOf _ new)
        have hplace : (names table').idxOf (name x) = table.length := by
          rw [heq]
          exact idxOf_middle hx
        refine ⟨x :: new, finished, ?_, ?_, ?_, ?_, ?_, ?_⟩
        · show (if (names table).idxOf (name x) = table.length then _ else _ :
            TableM N D Nat) table = _
          rw [if_pos hidx]
          show ((define (intern name define fuel) x) (table ++ [⟨name x, none⟩])).bind _ = _
          rw [hdef, Option.bind_some]
          show some ((names table).idxOf (name x), table'.set ((names table).idxOf (name x)) _) = _
          rw [indexOf, hsame, hplace, hidx]
          exact congrArg (fun table => some (_, table)) hset
        · rw [hsame]
          rfl
        · exact ⟨hsame ▸ hadds.valid.nodup, hsame ▸ hadds.valid.range⟩
        · intro y hy z hz
          rw [hsame]
          rcases List.mem_cons.1 hy with rfl | hy
          · exact hadds.found z hz
          · exact hadds.closed y hy z hz
        · intro z hz
          rw [hsame, List.mem_singleton.1 hz]
          refine hadds.isPrefix.subset ?_
          rw [names_append]
          exact List.mem_append_right _ List.mem_cons_self
        · intro y hy
          refine ⟨x, List.mem_cons_self, ?_⟩
          rcases List.mem_cons.1 hy with rfl | hy
          · exact .refl
          · obtain ⟨z, hz, hneeds⟩ := hadds.needs y hy
            exact hneeds.head hz

/-- From an empty table the recursion comes to an end, with finished entries for all that is needed,
    one for each name. -/
theorem intern_empty [Fintype K]
    (hdefine : ∀ x, Collects name refs describe (fun get => define get x) (refs x)
      fun place => describe place x) (root : K) :
    ∃ new table, intern name define (Fintype.card K + 1) root [] =
        some (indexOf name (names table) root, table) ∧
      Adds name refs describe [] table new [root] :=
  intern_serves hdefine (Fintype.card K + 1) root []
    ⟨List.nodup_nil, nofun⟩ (by rw [List.length_nil]; omega)

/-- Where different things that are needed have different names, there is an entry for each of them,
    and for nothing else. -/
theorem Adds.mem_iff {x : K} (h : Adds name refs describe [] table new [x])
    (hname : ∀ y z, Needs refs x y → Needs refs x z → name y = name z → y = z) (y : K) :
    y ∈ new ↔ Needs refs x y := by
  have hnames : names table = new.map name := h.names_eq
  have hneeded {z : K} (hz : z ∈ new) : Needs refs x z := by
    obtain ⟨w, hw, hneeds⟩ := h.needs z hz
    rwa [List.mem_singleton.1 hw] at hneeds
  have hfound {z : K} (hz : name z ∈ names table) (hneeds : Needs refs x z) : z ∈ new := by
    rw [hnames] at hz
    obtain ⟨z', hz', heq⟩ := List.mem_map.1 hz
    rwa [← hname z' z (hneeded hz') hneeds heq]
  refine ⟨hneeded, fun hneeds => ?_⟩
  induction hneeds with
  | refl => exact hfound (h.found x List.mem_cons_self) .refl
  | tail hneeds hstep ih => exact hfound (h.closed _ ih _ hstep) (hneeds.tail hstep)

/-- The definitions of finished entries. -/
theorem mapM_definition (ns : List N) (xs : List K) :
    (xs.map (entryOf name describe ns)).mapM Entry.definition
      = some (xs.map (describe (indexOf name ns))) := by
  induction xs with
  | nil => rfl
  | cons x xs ih =>
      rw [List.map_cons, List.mapM_cons, ih]
      rfl

end

end Interning

import Mathlib.Algebra.Group.Defs
import Mathlib.Algebra.BigOperators.Group.List.Basic
import Mathlib.Algebra.FreeMonoid.Basic
import Mathlib.Algebra.Group.Prod
import Mathlib.Algebra.Group.Hom.Defs
import Mathlib.Tactic.Abel

set_option autoImplicit false

/-! # Writing in two passes

A format in which a struct begins with the length of what follows. A writer makes the same calls
twice: the first pass counts and records one length for each struct, the second pass writes and
takes one recorded length for each struct that it begins. -/

namespace Bond.Lib.TwoPass

/-- What a call is to the structs that have a length. -/
inductive Kind where
  | begins | ends | inside
deriving DecidableEq, Repr

/-- A format for calls `κ`, with lengths in `ℓ`: what the first pass counts for a call and for a
    length, and what the second pass writes for them. -/
structure Format (κ ℓ : Type) where
  kind : κ → Kind
  count : κ → ℓ
  lengthCount : ℓ → ℓ
  bytes : κ → List UInt8
  lengthBytes : ℓ → List UInt8

/-- Calls in which every struct that begins ends. -/
inductive Balanced {κ : Type} (kind : κ → Kind) : List κ → Prop
  | nil : Balanced kind []
  | call {c : κ} (h : kind c = .inside) : Balanced kind [c]
  | append {cs cs' : List κ} (h : Balanced kind cs) (h' : Balanced kind cs') :
      Balanced kind (cs ++ cs')
  | struct {o c : κ} {cs : List κ} (ho : kind o = .begins) (hc : kind c = .ends)
      (h : Balanced kind cs) : Balanced kind (o :: (cs ++ [c]))

/-- The calls for one struct. -/
inductive IsStruct {κ : Type} (kind : κ → Kind) : List κ → Prop
  | mk {o c : κ} {cs : List κ} (ho : kind o = .begins) (hc : kind c = .ends)
      (h : Balanced kind cs) : IsStruct kind (o :: (cs ++ [c]))

variable {κ ℓ : Type}

section

variable {kind : κ → Kind}

/-- The structs that begin in a sequence of calls. -/
def begins (kind : κ → Kind) (calls : List κ) : Nat :=
  calls.countP fun c => kind c = .begins

theorem begins_append (kind : κ → Kind) (calls calls' : List κ) :
    begins kind (calls ++ calls') = begins kind calls + begins kind calls' :=
  List.countP_append

theorem begins_cons_of_ne {c : κ} (calls : List κ) (h : kind c ≠ .begins) :
    begins kind (c :: calls) = begins kind calls := by
  rw [begins, List.countP_cons_of_neg (by simpa using h)]
  rfl

theorem begins_cons_of_begins {c : κ} (calls : List κ) (h : kind c = .begins) :
    begins kind (c :: calls) = begins kind calls + 1 := by
  rw [begins, List.countP_cons_of_pos (by simpa using h)]
  rfl

end

/-! ## First pass -/

/-- The structs that have begun, innermost first, each with the place of its length and what is
    counted for it so far; and the lengths. -/
structure Frames (ℓ : Type) where
  stack : List (Nat × ℓ)
  lengths : List ℓ
deriving DecidableEq, Repr

/-! ## Second pass -/

/-- What is written, and the lengths that are left. -/
structure Pass2 (ℓ : Type) where
  output : List UInt8
  lengths : List ℓ
deriving DecidableEq, Repr

/-- The passes over `calls` stay in step: the first records lengths, the second takes all of them,
    and at each struct it takes the length recorded for that struct. `agree` relates this length to
    the bytes that the second pass then writes for the struct. -/
def InStep (kind : κ → Kind) (first : List κ → Option (List ℓ))
    (second : Pass2 ℓ → κ → Option (Pass2 ℓ)) (lengthBytes : ℓ → List UInt8) (calls : List κ)
    (agree : ℓ → List UInt8 → Prop) : Prop :=
  ∃ lengths output, first calls = some lengths ∧
    calls.foldlM second ⟨[], lengths⟩ = some ⟨output, []⟩ ∧
    ∀ before body after, calls = before ++ body ++ after → IsStruct kind body →
      ∃ length rest written bytes rest',
        lengths[begins kind before]? = some length ∧
        before.foldlM second ⟨[], lengths⟩ = some ⟨written, length :: rest⟩ ∧
        body.foldlM second ⟨written, length :: rest⟩
          = some ⟨written ++ (lengthBytes length ++ bytes), rest'⟩ ∧
        agree length bytes

/-- A run of steps that another machine takes as well is a run of that machine. -/
theorem foldlM_of_step {σ : Type} {f g : σ → κ → Option σ}
    (h : ∀ st c st', f st c = some st' → g st c = some st') {calls : List κ} {st st' : σ}
    (hrun : calls.foldlM f st = some st') : calls.foldlM g st = some st' := by
  induction calls generalizing st with
  | nil => exact hrun
  | cons c calls ih =>
      rw [List.foldlM_cons] at hrun ⊢
      obtain ⟨mid, hmid, hrest⟩ := Option.bind_eq_some_iff.1 hrun
      rw [h st c mid hmid]
      exact ih hrest

namespace Format

variable (F : Format κ ℓ)

/-- A call on the second pass. -/
def second (st : Pass2 ℓ) (c : κ) : Option (Pass2 ℓ) :=
  match F.kind c with
  | .begins =>
      match st.lengths with
      | [] => none
      | length :: lengths => some ⟨st.output ++ F.lengthBytes length, lengths⟩
  | _ => some { st with output := st.output ++ F.bytes c }

variable {F}

theorem second_of_begins {o : κ} (ho : F.kind o = .begins) (output : List UInt8) (length : ℓ)
    (lengths : List ℓ) :
    F.second ⟨output, length :: lengths⟩ o = some ⟨output ++ F.lengthBytes length, lengths⟩ := by
  unfold second
  rw [ho]

theorem second_of_ne {c : κ} (hc : F.kind c ≠ .begins) (st : Pass2 ℓ) :
    F.second st c = some { st with output := st.output ++ F.bytes c } := by
  unfold second
  split
  · next h => exact absurd h hc
  · rfl

variable [AddMonoid ℓ]

variable (F) in
/-- A call on a first pass that keeps its counts on a stack and fills in a length when its struct
    ends. -/
def first (st : Frames ℓ) (c : κ) : Option (Frames ℓ) :=
  match F.kind c, st.stack with
  | .begins, stack => some ⟨(st.lengths.length, 0) :: stack, st.lengths ++ [0]⟩
  | .inside, (slot, n) :: stack => some { st with stack := (slot, n + F.count c) :: stack }
  | .ends, [(slot, n)] => some ⟨[], st.lengths.set slot (n + F.count c)⟩
  | .ends, (slot, n) :: (slot', n') :: stack =>
      let length := n + F.count c
      some ⟨(slot', n' + (F.lengthCount length + length)) :: stack, st.lengths.set slot length⟩
  | _, [] => none

/-- `Counts F calls n bytes structs`: in `calls` every struct that begins ends. `n` is what the
    first pass counts for them and `bytes` what the second pass writes; `structs` has the length of
    each struct and the bytes that follow it, in the order in which the structs begin. -/
inductive Counts (F : Format κ ℓ) : List κ → ℓ → List UInt8 → List (ℓ × List UInt8) → Prop
  | nil : Counts F [] 0 [] []
  | call {c : κ} (h : F.kind c = .inside) : Counts F [c] (F.count c) (F.bytes c) []
  | append {cs cs' n n' bytes bytes' structs structs'} (h : Counts F cs n bytes structs)
      (h' : Counts F cs' n' bytes' structs') :
      Counts F (cs ++ cs') (n + n') (bytes ++ bytes') (structs ++ structs')
  | struct {o c : κ} {cs n bytes structs} (ho : F.kind o = .begins) (hc : F.kind c = .ends)
      (h : Counts F cs n bytes structs) :
      Counts F (o :: (cs ++ [c])) (F.lengthCount (n + F.count c) + (n + F.count c))
        (F.lengthBytes (n + F.count c) ++ (bytes ++ F.bytes c))
        ((n + F.count c, bytes ++ F.bytes c) :: structs)

theorem counts_of_balanced {calls : List κ} (h : Balanced F.kind calls) :
    ∃ n bytes structs, Counts F calls n bytes structs := by
  induction h with
  | nil => exact ⟨_, _, _, .nil⟩
  | call h => exact ⟨_, _, _, .call h⟩
  | append _ _ ih ih' =>
      obtain ⟨_, _, _, h⟩ := ih
      obtain ⟨_, _, _, h'⟩ := ih'
      exact ⟨_, _, _, h.append h'⟩
  | struct ho hc _ ih =>
      obtain ⟨_, _, _, h⟩ := ih
      exact ⟨_, _, _, h.struct ho hc⟩

/-! ## What the passes do with balanced calls -/

theorem first_of_begins {o : κ} (ho : F.kind o = .begins) (st : Frames ℓ) :
    F.first st o = some ⟨(st.lengths.length, 0) :: st.stack, st.lengths ++ [0]⟩ := by
  unfold first
  rw [ho]

theorem first_of_inside {c : κ} (hc : F.kind c = .inside) (slot : Nat) (n : ℓ)
    (stack : List (Nat × ℓ)) (lengths : List ℓ) :
    F.first ⟨(slot, n) :: stack, lengths⟩ c
      = some ⟨(slot, n + F.count c) :: stack, lengths⟩ := by
  unfold first
  rw [hc]

theorem first_of_ends {c : κ} (hc : F.kind c = .ends) (slot slot' : Nat) (n n' : ℓ)
    (stack : List (Nat × ℓ)) (lengths : List ℓ) :
    F.first ⟨(slot, n) :: (slot', n') :: stack, lengths⟩ c
      = some ⟨(slot', n' + (F.lengthCount (n + F.count c) + (n + F.count c))) :: stack,
          lengths.set slot (n + F.count c)⟩ := by
  unfold first
  rw [hc]

theorem first_of_ends_last {c : κ} (hc : F.kind c = .ends) (slot : Nat) (n : ℓ)
    (lengths : List ℓ) :
    F.first ⟨[(slot, n)], lengths⟩ c = some ⟨[], lengths.set slot (n + F.count c)⟩ := by
  unfold first
  rw [hc]

/-- On the first pass balanced calls append their lengths and add to the count of the struct around
    them. -/
theorem Counts.first {calls : List κ} {n : ℓ} {bytes : List UInt8}
    {structs : List (ℓ × List UInt8)} (h : Counts F calls n bytes structs) (slot : Nat) (m : ℓ)
    (stack : List (Nat × ℓ)) (lengths : List ℓ) :
    calls.foldlM F.first ⟨(slot, m) :: stack, lengths⟩
      = some ⟨(slot, m + n) :: stack, lengths ++ structs.map Prod.fst⟩ := by
  induction h generalizing slot m stack lengths with
  | nil => simp
  | call h => simp [first_of_inside h]
  | append _ _ ih ih' =>
      rw [List.foldlM_append, ih, Option.bind_eq_bind, Option.bind_some, ih', add_assoc,
        List.map_append, List.append_assoc]
  | @struct o c cs n bytes structs ho hc _ ih =>
      -- the slot of the struct is the first one after the lengths so far
      have hset : (lengths ++ [0] ++ structs.map Prod.fst).set lengths.length (n + F.count c)
          = lengths ++ (n + F.count c) :: structs.map Prod.fst := by simp
      rw [List.foldlM_cons, first_of_begins ho, Option.bind_eq_bind, Option.bind_some,
        List.foldlM_append, ih, Option.bind_eq_bind, Option.bind_some, List.foldlM_cons,
        first_of_ends hc, zero_add, hset]
      rfl

/-- The first pass over a struct that is in no other. -/
theorem Counts.first_struct {o c : κ} {cs : List κ} {n : ℓ} {bytes : List UInt8}
    {structs : List (ℓ × List UInt8)} (ho : F.kind o = .begins) (hc : F.kind c = .ends)
    (h : Counts F cs n bytes structs) :
    (o :: (cs ++ [c])).foldlM F.first ⟨[], []⟩
      = some ⟨[], (n + F.count c) :: structs.map Prod.fst⟩ := by
  rw [List.foldlM_cons, first_of_begins ho, Option.bind_eq_bind, Option.bind_some,
    List.foldlM_append, h.first, Option.bind_eq_bind, Option.bind_some, List.foldlM_cons,
    first_of_ends_last hc, zero_add]
  rfl

/-- The first pass over a struct, with whatever is on the stack below it. -/
theorem Counts.first_struct_of_stack {o c : κ} {cs : List κ} {n : ℓ} {bytes : List UInt8}
    {structs : List (ℓ × List UInt8)} (ho : F.kind o = .begins) (hc : F.kind c = .ends)
    (h : Counts F cs n bytes structs) (stack : List (Nat × ℓ)) :
    ∃ stack', (o :: (cs ++ [c])).foldlM F.first ⟨stack, []⟩
      = some ⟨stack', (n + F.count c) :: structs.map Prod.fst⟩ := by
  cases stack with
  | nil => exact ⟨[], h.first_struct ho hc⟩
  | cons top stack =>
      refine ⟨(top.1, top.2 + (F.lengthCount (n + F.count c) + (n + F.count c))) :: stack, ?_⟩
      rw [List.foldlM_cons, first_of_begins ho, Option.bind_eq_bind, Option.bind_some,
        List.foldlM_append, h.first, Option.bind_eq_bind, Option.bind_some, List.foldlM_cons,
        first_of_ends hc, zero_add]
      rfl

/-- Without lengths the bytes are those of the calls. -/
theorem Counts.flatMap_bytes {calls : List κ} {n : ℓ} {bytes : List UInt8}
    {structs : List (ℓ × List UInt8)} (h : Counts F calls n bytes structs)
    (hlength : ∀ length, F.lengthBytes length = [])
    (hbegins : ∀ o, F.kind o = .begins → F.bytes o = []) :
    calls.flatMap F.bytes = bytes := by
  induction h with
  | nil => rfl
  | call h => simp
  | append _ _ ih ih' => rw [List.flatMap_append, ih, ih']
  | @struct o c cs n bytes structs ho hc _ ih =>
      rw [List.flatMap_cons, List.flatMap_append, ih, hbegins o ho, hlength, List.flatMap_singleton]

/-- On the second pass balanced calls write their bytes and take their lengths. -/
theorem Counts.second {calls : List κ} {n : ℓ} {bytes : List UInt8}
    {structs : List (ℓ × List UInt8)} (h : Counts F calls n bytes structs) (output : List UInt8)
    (lengths : List ℓ) :
    calls.foldlM F.second ⟨output, structs.map Prod.fst ++ lengths⟩
      = some ⟨output ++ bytes, lengths⟩ := by
  induction h generalizing output lengths with
  | nil => simp
  | call h => simp [second_of_ne (c := _) (by rw [h]; decide)]
  | append _ _ ih ih' =>
      rw [List.foldlM_append, List.map_append, List.append_assoc, ih, Option.bind_eq_bind,
        Option.bind_some, ih', List.append_assoc]
  | @struct o c cs n bytes structs ho hc _ ih =>
      rw [List.foldlM_cons, List.map_cons, List.cons_append, second_of_begins ho,
        Option.bind_eq_bind, Option.bind_some, List.foldlM_append, ih, Option.bind_eq_bind,
        Option.bind_some, List.foldlM_cons, second_of_ne (by rw [hc]; decide)]
      simp

/-! ## Which length belongs to which struct -/

/-- What calls leave of the first pass: `n` lengths are new, and among the old ones only those of
    the structs that had begun may have changed. -/
structure Extends (st st' : Frames ℓ) (n : Nat) : Prop where
  length_eq : st'.lengths.length = st.lengths.length + n
  stack : ∀ i ∈ st'.stack.map Prod.fst, i ∈ st.stack.map Prod.fst ∨ st.lengths.length ≤ i
  stack_lt : (∀ i ∈ st.stack.map Prod.fst, i < st.lengths.length) →
    ∀ i ∈ st'.stack.map Prod.fst, i < st'.lengths.length
  frame : ∀ i < st.lengths.length, i ∉ st.stack.map Prod.fst → st'.lengths[i]? = st.lengths[i]?

omit [AddMonoid ℓ] in
theorem Extends.trans {st st' st'' : Frames ℓ} {n n' : Nat} (h : Extends st st' n)
    (h' : Extends st' st'' n') : Extends st st'' (n + n') where
  length_eq := by rw [h'.length_eq, h.length_eq, Nat.add_assoc]
  stack i hi := by
    have hlen := h.length_eq
    rcases h'.stack i hi with hi' | hge
    · exact h.stack i hi'
    · exact Or.inr (by omega)
  stack_lt hlt := h'.stack_lt (h.stack_lt hlt)
  frame i hi hstack := by
    have hlen := h.length_eq
    have hstack' : i ∉ st'.stack.map Prod.fst := by
      intro hi'
      rcases h.stack i hi' with hmem | hge
      · exact hstack hmem
      · omega
    rw [h'.frame i (by omega) hstack', h.frame i hi hstack]

theorem first_extends {st st' : Frames ℓ} {c : κ} (h : F.first st c = some st') :
    Extends st st' (begins F.kind [c]) := by
  obtain ⟨stack, lengths⟩ := st
  unfold first at h
  split at h
  · next stack' hc =>
      simp only [Option.some.injEq] at h
      subst h
      rw [begins_cons_of_begins [] hc]
      refine ⟨by simp [begins], ?_, ?_, ?_⟩
      · intro i hi
        rcases List.mem_cons.1 hi with rfl | hi
        · exact Or.inr (Nat.le_refl _)
        · exact Or.inl hi
      · intro hlt i hi
        rw [List.length_append, List.length_singleton]
        rcases List.mem_cons.1 hi with rfl | hi
        · exact Nat.lt_succ_self _
        · exact Nat.lt_succ_of_lt (hlt i hi)
      · intro i hi _
        exact List.getElem?_append_left hi
  · next slot n stack' hc hstack =>
      simp only [Option.some.injEq] at h hstack
      subst h hstack
      rw [begins_cons_of_ne [] (by rw [hc]; decide)]
      exact ⟨rfl, fun i hi => Or.inl hi, fun h => h, fun i _ _ => rfl⟩
  · next slot n hc hstack =>
      simp only [Option.some.injEq] at h hstack
      subst h hstack
      rw [begins_cons_of_ne [] (by rw [hc]; decide)]
      refine ⟨by simp [begins], by simp, by simp, ?_⟩
      intro i _ hi
      exact List.getElem?_set_ne (by rintro rfl; simp at hi)
  · next slot n slot' n' stack' hc hstack =>
      simp only [Option.some.injEq] at h hstack
      subst h hstack
      rw [begins_cons_of_ne [] (by rw [hc]; decide)]
      refine ⟨by simp [begins], ?_, ?_, ?_⟩
      · intro i hi
        exact Or.inl (List.mem_cons_of_mem slot hi)
      · intro hlt i hi
        rw [List.length_set]
        exact hlt i (List.mem_cons_of_mem slot hi)
      · intro i _ hi
        exact List.getElem?_set_ne (by rintro rfl; simp at hi)
  · contradiction

theorem firsts_extends {st st' : Frames ℓ} {calls : List κ}
    (h : calls.foldlM F.first st = some st') : Extends st st' (begins F.kind calls) := by
  induction calls generalizing st with
  | nil =>
      simp only [List.foldlM_nil, Option.pure_def, Option.some.injEq] at h
      subst h
      exact ⟨rfl, fun i hi => Or.inl hi, fun h => h, fun i _ _ => rfl⟩
  | cons c calls ih =>
      rw [List.foldlM_cons] at h
      obtain ⟨mid, hmid, hrest⟩ := Option.bind_eq_some_iff.1 h
      have hboth := (first_extends hmid).trans (ih hrest)
      have hcount := begins_append F.kind [c] calls
      rw [List.singleton_append] at hcount
      rwa [hcount]

omit [AddMonoid ℓ] in
/-- The second pass takes one length for each struct that begins, in their order. -/
theorem seconds_lengths (F : Format κ ℓ) (calls : List κ) (output : List UInt8) (lengths : List ℓ)
    (h : begins F.kind calls ≤ lengths.length) :
    ∃ output', calls.foldlM F.second ⟨output, lengths⟩
      = some ⟨output', lengths.drop (begins F.kind calls)⟩ := by
  induction calls generalizing output lengths with
  | nil => exact ⟨output, rfl⟩
  | cons c calls ih =>
      rw [List.foldlM_cons]
      by_cases hc : F.kind c = .begins
      · rw [begins_cons_of_begins calls hc] at h ⊢
        cases lengths with
        | nil => simp at h
        | cons length lengths =>
            rw [second_of_begins hc]
            exact ih _ lengths (by simpa using h)
      · rw [begins_cons_of_ne calls hc] at h ⊢
        rw [second_of_ne hc]
        exact ih _ lengths h

omit [AddMonoid ℓ] in
theorem drop_eq_append {xs ys zs : List ℓ}
    (h : ∀ i, xs.length ≤ i → i < (xs ++ ys).length → zs[i]? = (xs ++ ys)[i]?) :
    zs.drop xs.length = ys ++ zs.drop (xs ++ ys).length := by
  apply List.ext_getElem?
  intro i
  rw [List.getElem?_drop]
  by_cases hi : i < ys.length
  · rw [h _ (Nat.le_add_right _ _) (by rw [List.length_append]; omega),
      List.getElem?_append_left hi, List.getElem?_append_right (Nat.le_add_right _ _),
      Nat.add_sub_cancel_left]
  · rw [List.getElem?_append_right (Nat.le_of_not_lt hi), List.getElem?_drop, List.length_append]
    congr 1
    omega

/-- The lengths for balanced calls in the midst of others come after those of the structs that
    begin before. -/
theorem Counts.drop_lengths {before calls after : List κ} {n n' : ℓ} {bytes bytes' : List UInt8}
    {structs structs' : List (ℓ × List UInt8)} (h : Counts F calls n bytes structs)
    (hall : Counts F (before ++ calls ++ after) n' bytes' structs') :
    ∃ rest, (structs'.map Prod.fst).drop (begins F.kind before)
      = structs.map Prod.fst ++ rest := by
  -- the calls are made within a struct around them, whose length is the first one
  have hrun := hall.first 0 0 [] [0]
  rw [List.foldlM_append, List.foldlM_append] at hrun
  obtain ⟨mid, hmid, hafter⟩ := Option.bind_eq_some_iff.1 hrun
  obtain ⟨⟨stack, lengths⟩, hbefore, hcalls⟩ := Option.bind_eq_some_iff.1 hmid
  have hstart := firsts_extends hbefore
  have hlength : lengths.length = 1 + begins F.kind before := hstart.length_eq
  have hstack : ∀ i ∈ stack.map Prod.fst, i < lengths.length :=
    hstart.stack_lt (by simp)
  cases stack with
  | nil =>
      -- the struct around them has not ended, for it is still there at the end
      have hrest := (firsts_extends hcalls).trans (firsts_extends hafter)
      rcases hrest.stack 0 (by simp) with hmem | hge
      · simp at hmem
      · have hzero : lengths.length ≤ 0 := hge
        omega
  | cons top stack =>
      obtain ⟨slot, m⟩ := top
      rw [h.first, Option.some.injEq] at hcalls
      subst hcalls
      have hframe := (firsts_extends hafter).frame
      have hdrop : (0 :: structs'.map Prod.fst).drop lengths.length
          = structs.map Prod.fst ++ _ :=
        drop_eq_append fun i hge hlt => hframe i hlt fun hi =>
          absurd (hstack i hi) (Nat.not_lt.2 hge)
      rw [hlength, Nat.add_comm, List.drop_succ_cons] at hdrop
      exact ⟨_, hdrop⟩

variable (F) in
/-- The format in which the first pass also counts the bytes themselves. -/
def withBytes : Format κ (ℓ × FreeAddMonoid UInt8) where
  kind := F.kind
  count c := (F.count c, FreeAddMonoid.ofList (F.bytes c))
  lengthCount length := (F.lengthCount length.1, FreeAddMonoid.ofList (F.lengthBytes length.1))
  bytes := F.bytes
  lengthBytes length := F.lengthBytes length.1

theorem Counts.withBytes {calls : List κ} {n : ℓ} {bytes : List UInt8}
    {structs : List (ℓ × List UInt8)} (h : Counts F calls n bytes structs) :
    Counts F.withBytes calls (n, FreeAddMonoid.ofList bytes) bytes
      (structs.map fun s => ((s.1, FreeAddMonoid.ofList s.2), s.2)) := by
  induction h with
  | nil => exact .nil
  | call h => exact .call h
  | append _ _ ih ih' =>
      rw [List.map_append]
      exact ih.append ih'
  | struct ho hc _ ih => exact Counts.struct (F := F.withBytes) ho hc ih

/-- The structs of balanced calls in the midst of others come after those that begin before. -/
theorem Counts.drop_structs {before calls after : List κ} {n n' : ℓ} {bytes bytes' : List UInt8}
    {structs structs' : List (ℓ × List UInt8)} (h : Counts F calls n bytes structs)
    (hall : Counts F (before ++ calls ++ after) n' bytes' structs') :
    ∃ rest, structs'.drop (begins F.kind before) = structs ++ rest := by
  obtain ⟨rest, hrest⟩ := h.withBytes.drop_lengths hall.withBytes
  have hmap (ss : List (ℓ × List UInt8)) :
      (ss.map fun s => ((s.1, FreeAddMonoid.ofList s.2), s.2)).map Prod.fst = ss := by
    rw [List.map_map]
    exact List.map_id ss
  rw [hmap, hmap] at hrest
  exact ⟨rest, hrest⟩

theorem Counts.balanced {calls : List κ} {n : ℓ} {bytes : List UInt8}
    {structs : List (ℓ × List UInt8)} (h : Counts F calls n bytes structs) :
    Balanced F.kind calls := by
  induction h with
  | nil => exact .nil
  | call h => exact .call h
  | append _ _ ih ih' => exact ih.append ih'
  | struct ho hc _ ih => exact .struct ho hc ih

theorem counts_of_isStruct {body : List κ} (h : IsStruct F.kind body) :
    ∃ n s ss, Counts F body n (F.lengthBytes s.1 ++ s.2) (s :: ss) := by
  cases h with
  | @mk o c cs ho hc h =>
      obtain ⟨n, bytes, structs, h⟩ := counts_of_balanced h
      exact ⟨_, (n + F.count c, bytes ++ F.bytes c), structs, h.struct ho hc⟩

/-- Each struct is that of calls in the midst of the others. -/
theorem Counts.occurs {calls : List κ} {n : ℓ} {bytes : List UInt8}
    {structs : List (ℓ × List UInt8)} (h : Counts F calls n bytes structs) :
    ∀ s ∈ structs, ∃ before body after m ss, calls = before ++ body ++ after ∧
      IsStruct F.kind body ∧ Counts F body m (F.lengthBytes s.1 ++ s.2) (s :: ss) := by
  induction h with
  | nil => intro s hs; simp at hs
  | call h => intro s hs; simp at hs
  | @append cs cs' _ _ _ _ _ _ _ _ ih ih' =>
      intro s hs
      rcases List.mem_append.1 hs with hs | hs
      · obtain ⟨before, body, after, m, ss, rfl, hbody, hcounts⟩ := ih s hs
        exact ⟨before, body, after ++ cs', m, ss, by rw [List.append_assoc], hbody, hcounts⟩
      · obtain ⟨before, body, after, m, ss, rfl, hbody, hcounts⟩ := ih' s hs
        exact ⟨cs ++ before, body, after, m, ss, by simp, hbody, hcounts⟩
  | @struct o c cs _ _ _ ho hc h ih =>
      intro s hs
      rcases List.mem_cons.1 hs with rfl | hs
      · exact ⟨[], _, [], _, _, by rw [List.nil_append, List.append_nil], .mk ho hc h.balanced,
          h.struct ho hc⟩
      · obtain ⟨before, body, after, m, ss, rfl, hbody, hcounts⟩ := ih s hs
        exact ⟨o :: before, body, after ++ [c], m, ss, by simp, hbody, hcounts⟩

/-- The passes stay in step if and only if the lengths agree with the bytes. -/
theorem Counts.inStep_iff_forall {calls : List κ} {n : ℓ} {bytes : List UInt8}
    {structs : List (ℓ × List UInt8)} (h : Counts F calls n bytes structs)
    {first : List κ → Option (List ℓ)} (hfirst : first calls = some (structs.map Prod.fst))
    (agree : ℓ → List UInt8 → Prop) :
    InStep F.kind first F.second F.lengthBytes calls agree ↔ ∀ s ∈ structs, agree s.1 s.2 := by
  constructor
  · rintro ⟨lengths, output, hlengths, _, hstructs⟩ s hs
    rw [hfirst, Option.some.injEq] at hlengths
    subst hlengths
    obtain ⟨before, body, after, m, ss, rfl, hbody, hcounts⟩ := h.occurs s hs
    obtain ⟨length, rest, written, bytes', rest', _, hbefore, hrun, hagree⟩ :=
      hstructs before body after rfl hbody
    obtain ⟨tail, hdrop⟩ := hcounts.drop_structs h
    obtain ⟨output', htaken⟩ := seconds_lengths F before [] (structs.map Prod.fst) (by
      rw [List.length_map]
      by_contra hlt
      rw [List.drop_eq_nil_of_le (by omega)] at hdrop
      simp at hdrop)
    -- the second pass comes to the struct with its length first
    rw [← List.map_drop, hdrop, hbefore, Option.some.injEq, Pass2.mk.injEq] at htaken
    obtain ⟨rfl, hlengths⟩ := htaken
    rw [hlengths, List.map_append, hcounts.second, Option.some.injEq, Pass2.mk.injEq] at hrun
    obtain ⟨rfl, rfl⟩ := List.cons.inj hlengths
    rw [← List.append_cancel_left (List.append_cancel_left hrun.1)] at hagree
    exact hagree
  · intro hagree
    have hsecond := h.second [] []
    rw [List.append_nil] at hsecond
    refine ⟨_, _, hfirst, hsecond, ?_⟩
    rintro before body after rfl hbody
    obtain ⟨m, s, ss, hcounts⟩ := counts_of_isStruct hbody
    obtain ⟨tail, hdrop⟩ := hcounts.drop_structs h
    have hlt : begins F.kind before < structs.length := by
      by_contra hlt
      rw [List.drop_eq_nil_of_le (by omega)] at hdrop
      simp at hdrop
    obtain ⟨written, htaken⟩ := seconds_lengths F before [] (structs.map Prod.fst)
      (by rw [List.length_map]; omega)
    rw [← List.map_drop, hdrop] at htaken
    refine ⟨s.1, ss.map Prod.fst ++ tail.map Prod.fst, written, s.2, tail.map Prod.fst, ?_, ?_, ?_,
      ?_⟩
    · rw [← Nat.add_zero (begins F.kind before), ← List.getElem?_drop, ← List.map_drop, hdrop]
      rfl
    · rw [htaken, List.map_append]
      rfl
    · exact hcounts.second written (tail.map Prod.fst)
    · have hmem : s ∈ structs.drop (begins F.kind before) := by
        rw [hdrop]
        exact List.mem_cons_self
      exact hagree s (List.mem_of_mem_drop hmem)

/-- A first pass counts one number. -/
theorem Counts.count_unique {calls : List κ} {n n' : ℓ} {bytes bytes' : List UInt8}
    {structs structs' : List (ℓ × List UInt8)} (h : Counts F calls n bytes structs)
    (h' : Counts F calls n' bytes' structs') : n = n' := by
  have hrun := h.first 0 0 [] []
  rw [h'.first, Option.some.injEq, Frames.mk.injEq] at hrun
  simpa using hrun.1.symm

/-- A second pass writes one sequence of bytes. -/
theorem Counts.bytes_unique {calls : List κ} {n n' : ℓ} {bytes bytes' : List UInt8}
    {structs structs' : List (ℓ × List UInt8)} (h : Counts F calls n bytes structs)
    (h' : Counts F calls n' bytes' structs') : bytes = bytes' := by
  have hfirst := h.first 0 0 [] []
  rw [h'.first, Option.some.injEq, Frames.mk.injEq] at hfirst
  have hlengths : structs'.map Prod.fst = structs.map Prod.fst := by simpa using hfirst.2
  have hrun := h.second [] []
  rw [← hlengths, h'.second, Option.some.injEq, Pass2.mk.injEq] at hrun
  simpa using hrun.1.symm

theorem Counts.length_le {calls : List κ} {n : ℓ} {bytes : List UInt8}
    {structs : List (ℓ × List UInt8)} (h : Counts F calls n bytes structs) :
    ∀ s ∈ structs, s.2.length ≤ bytes.length := by
  induction h with
  | nil => intro s hs; simp at hs
  | call h => intro s hs; simp at hs
  | append _ _ ih ih' =>
      intro s hs
      rw [List.length_append]
      rcases List.mem_append.1 hs with hs | hs
      · exact Nat.le_add_right_of_le (ih s hs)
      · exact Nat.le_add_left_of_le (ih' s hs)
  | struct ho hc _ ih =>
      intro s hs
      simp only [List.length_append]
      rcases List.mem_cons.1 hs with rfl | hs
      · simp only [List.length_append]
        omega
      · have hle := ih s hs
        omega

/-! ## Two formats for the same calls -/

/-- A format counts and writes what another one does, as long as its lengths do. -/
theorem Counts.map {ℓ' : Type} [AddMonoid ℓ'] {F : Format κ ℓ} {G : Format κ ℓ'}
    (φ : ℓ' →+ ℓ) {calls : List κ} {n : ℓ'} {bytes : List UInt8}
    {structs : List (ℓ' × List UInt8)} (h : Counts G calls n bytes structs)
    (hkind : F.kind = G.kind) (hcount : ∀ c ∈ calls, F.count c = φ (G.count c))
    (hbytes : F.bytes = G.bytes)
    (hstructs : ∀ s ∈ structs, F.lengthCount (φ s.1) = φ (G.lengthCount s.1) ∧
      F.lengthBytes (φ s.1) = G.lengthBytes s.1) :
    Counts F calls (φ n) bytes (structs.map fun s => (φ s.1, s.2)) := by
  induction h with
  | nil =>
      rw [map_zero]
      exact .nil
  | call h =>
      rw [← hcount _ List.mem_cons_self, ← hbytes]
      exact .call (by rw [hkind, h])
  | append _ _ ih ih' =>
      rw [map_add, List.map_append]
      exact (ih (fun c hc => hcount c (List.mem_append_left _ hc))
        fun s hs => hstructs s (List.mem_append_left _ hs)).append
          (ih' (fun c hc => hcount c (List.mem_append_right _ hc))
            fun s hs => hstructs s (List.mem_append_right _ hs))
  | @struct o c cs n bytes structs ho hc _ ih =>
      have hend : F.count c = φ (G.count c) := hcount c (by simp)
      have hbody := ih (fun d hd => hcount d (List.mem_cons_of_mem o (List.mem_append_left _ hd)))
        fun s hs => hstructs s (List.mem_cons_of_mem _ hs)
      have hthis := hbody.struct (o := o) (c := c) (by rw [hkind, ho]) (by rw [hkind, hc])
      obtain ⟨hlengthCount, hlengthBytes⟩ := hstructs _ List.mem_cons_self
      simp only [hend, ← map_add, hlengthCount, hlengthBytes, hbytes] at hthis
      exact hthis

/-- A format writes what another one does, as long as they agree about the calls. -/
theorem Counts.congr {F G : Format κ ℓ} {calls : List κ} {n : ℓ} {bytes : List UInt8}
    {structs : List (ℓ × List UInt8)} (h : Counts G calls n bytes structs)
    (hkind : F.kind = G.kind) (hlengthCount : F.lengthCount = G.lengthCount)
    (hlengthBytes : F.lengthBytes = G.lengthBytes)
    (hcalls : ∀ c ∈ calls, F.count c = G.count c ∧ F.bytes c = G.bytes c) :
    Counts F calls n bytes structs := by
  induction h with
  | nil => exact .nil
  | call h =>
      obtain ⟨hcount, hbytes⟩ := hcalls _ List.mem_cons_self
      rw [← hcount, ← hbytes]
      exact .call (by rw [hkind, h])
  | append _ _ ih ih' =>
      exact (ih fun c hc => hcalls c (List.mem_append_left _ hc)).append
        (ih' fun c hc => hcalls c (List.mem_append_right _ hc))
  | @struct o c cs n bytes structs ho hc _ ih =>
      obtain ⟨hcount, hbytes⟩ := hcalls c (by simp)
      have hbody := ih fun d hd => hcalls d (List.mem_cons_of_mem o (List.mem_append_left _ hd))
      have hstruct := hbody.struct (o := o) (c := c) (by rw [hkind, ho]) (by rw [hkind, hc])
      rwa [hcount, hbytes, hlengthCount, hlengthBytes] at hstruct

end Format

/-! ## How many bytes a first pass misses -/

namespace Format

variable [AddCommMonoid ℓ] {F : Format κ ℓ}

/-- `size` is a number of bytes as a length; for the call `c` the first pass counts `short c` bytes
    too few. -/
structure Short (F : Format κ ℓ) (size : ℕ →+ ℓ) (short : κ → ℕ) (c : κ) : Prop where
  begins : F.kind c = .begins → short c = 0
  count : F.kind c ≠ .begins → F.count c + size (short c) = size (F.bytes c).length

section

variable {size : ℕ →+ ℓ} {short : κ → ℕ}
  (hlength : ∀ length, F.lengthCount length = size (F.lengthBytes length).length)

include hlength

/-- Over balanced calls the first pass misses what it misses for each of them. -/
theorem Counts.add_short {calls : List κ} {n : ℓ} {bytes : List UInt8}
    {structs : List (ℓ × List UInt8)} (h : Counts F calls n bytes structs)
    (hcalls : ∀ c ∈ calls, Short F size short c) :
    n + size (calls.map short).sum = size bytes.length := by
  induction h with
  | nil => simp
  | call h => simpa using (hcalls _ List.mem_cons_self).count (by rw [h]; decide)
  | @append cs cs' n n' bytes bytes' _ _ _ _ ih ih' =>
      rw [List.map_append, List.sum_append, List.length_append, map_add, map_add,
        ← ih fun c hc => hcalls c (List.mem_append_left _ hc),
        ← ih' fun c hc => hcalls c (List.mem_append_right _ hc), add_add_add_comm]
  | @struct o c cs n bytes structs ho hc _ ih =>
      have hbegin := (hcalls o List.mem_cons_self).begins ho
      have hend := (hcalls c (by simp)).count (by rw [hc]; decide)
      have hbody := ih fun d hd => hcalls d (List.mem_cons_of_mem o (List.mem_append_left _ hd))
      simp only [List.map_cons, List.map_append, List.map_nil, List.sum_cons, List.sum_append,
        List.sum_nil, hbegin, zero_add, add_zero, List.length_append, map_add, ← hbody, ← hend,
        hlength]
      abel

/-- Where it misses nothing, each length is that of the bytes. -/
theorem Counts.structs_eq {calls : List κ} {n : ℓ} {bytes : List UInt8}
    {structs : List (ℓ × List UInt8)} (h : Counts F calls n bytes structs)
    (hcalls : ∀ c ∈ calls, Short F size (fun _ => 0) c) : ∀ s ∈ structs, s.1 = size s.2.length := by
  induction h with
  | nil => intro s hs; simp at hs
  | call h => intro s hs; simp at hs
  | append _ _ ih ih' =>
      intro s hs
      rcases List.mem_append.1 hs with hs | hs
      · exact ih (fun c hc => hcalls c (List.mem_append_left _ hc)) s hs
      · exact ih' (fun c hc => hcalls c (List.mem_append_right _ hc)) s hs
  | @struct o c cs n bytes structs ho hc h ih =>
      intro s hs
      have hinner : ∀ d ∈ cs, Short F size (fun _ => 0) d := fun d hd =>
        hcalls d (List.mem_cons_of_mem o (List.mem_append_left _ hd))
      rcases List.mem_cons.1 hs with rfl | hs
      · have hn := h.add_short hlength hinner
        have hend := (hcalls c (by simp)).count (by rw [hc]; decide)
        rw [map_zero, add_zero] at hend
        rw [List.sum_eq_zero (by simp), map_zero, add_zero] at hn
        rw [List.length_append, map_add, hn, hend]
      · exact ih hinner s hs

end

/-- What is missed is no more than what is written, if that holds for each call. -/
theorem Counts.sum_le {short : κ → ℕ} {calls : List κ} {n : ℓ} {bytes : List UInt8}
    {structs : List (ℓ × List UInt8)} (h : Counts F calls n bytes structs)
    (hcalls : ∀ c ∈ calls, short c ≤ if F.kind c = .begins then 0 else (F.bytes c).length) :
    (calls.map short).sum ≤ bytes.length := by
  induction h with
  | nil => simp
  | call h => simpa [h] using hcalls _ List.mem_cons_self
  | append _ _ ih ih' =>
      have hleft := ih fun c hc => hcalls c (List.mem_append_left _ hc)
      have hright := ih' fun c hc => hcalls c (List.mem_append_right _ hc)
      rw [List.map_append, List.sum_append, List.length_append]
      omega
  | @struct o c cs n bytes structs ho hc _ ih =>
      have hbegin := hcalls o List.mem_cons_self
      have hend := hcalls c (by simp)
      have hbody := ih fun d hd => hcalls d (List.mem_cons_of_mem o (List.mem_append_left _ hd))
      rw [if_pos ho] at hbegin
      rw [if_neg (by rw [hc]; decide)] at hend
      simp only [List.map_cons, List.map_append, List.map_nil, List.sum_cons, List.sum_append,
        List.sum_nil, List.length_append]
      omega

end Format

end Bond.Lib.TwoPass

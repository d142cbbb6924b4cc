import Bond.Compiler.ParserRuns
import Bond.Compiler.TypeMapping
import Mathlib.Algebra.Order.BigOperators.Group.List
import Mathlib.Algebra.Order.Ring.Nat

set_option autoImplicit false

/-! # Placeholders of alias mappings

A placeholder is an index into the arguments of an alias, and nothing compares it with the number of
these. When the name of a type can be made without an index that is out of range. -/

namespace Bond.Compiler

open Bond.Lib

/-! ## Sizes

The name of a type is made of names of smaller types: an alias is larger than its arguments and than
the type it stands for. -/

-- For parameters of the given sizes.
mutual

def BondType.sizeWith (ρ : TypeParam → Nat) : BondType → Nat
  | .basic _ | .intTypeArg _ => 0
  | .typeParam p => ρ p
  | .container _ t => t.sizeWith ρ + 1
  | .map k t => k.sizeWith ρ + t.sizeWith ρ + 1
  | .userDefined (.typeAlias _ _ params type) args =>
      type.sizeWith (argWeight params (sizesWith ρ args)) + (sizesWith ρ args).sum + 1
  | .userDefined _ args => (sizesWith ρ args).sum + 1

def sizesWith (ρ : TypeParam → Nat) : List BondType → List Nat
  | [] => []
  | t :: ts => t.sizeWith ρ :: sizesWith ρ ts

end

def BondType.size (t : BondType) : Nat :=
  t.sizeWith fun _ => 0

def sizes (ts : List BondType) : List Nat :=
  sizesWith (fun _ => 0) ts

theorem sizes_eq_map (ts : List BondType) : sizes ts = ts.map BondType.size := by
  induction ts with
  | nil => rfl
  | cons t ts ih => exact congrArg (t.size :: ·) ih

/-- A parameter has the size of its argument. -/
theorem size_resolveParam (params : List TypeParam) (args : List BondType) (p : TypeParam) :
    (resolveParam params args (.typeParam p)).size = argWeight params (sizes args) p := by
  rw [resolveParam, argWeight, sizes_eq_map, lookup_zip_map]
  cases (params.zip args).lookup p with
  | none => simp [BondType.size, BondType.sizeWith]
  | some t => simp

-- Parameters may be resolved, or given the sizes of their arguments.
mutual

theorem size_fmapType (params : List TypeParam) (args : List BondType) (t : BondType) :
    (t.fmapType (resolveParam params args)).size =
      t.sizeWith (argWeight params (sizes args)) := by
  cases t with
  | typeParam p =>
      rw [BondType.fmapType, size_resolveParam]
      simp [BondType.sizeWith]
  | container kind t =>
      have ht := size_fmapType params args t
      simp only [BondType.size] at ht
      simp only [BondType.fmapType, resolveParam, BondType.size, BondType.sizeWith, ht]
  | map k t =>
      have hk := size_fmapType params args k
      have ht := size_fmapType params args t
      simp only [BondType.size] at hk ht
      simp only [BondType.fmapType, resolveParam, BondType.size, BondType.sizeWith, hk, ht]
  | userDefined decl args' =>
      have hargs := sizes_fmapTypes params args args'
      simp only [sizes] at hargs
      cases decl with
      | typeAlias namespaces name params' type =>
          simp only [BondType.fmapType, resolveParam, BondType.size, BondType.sizeWith, hargs, sizes]
      | _ => simp [BondType.fmapType, resolveParam, BondType.size, BondType.sizeWith, hargs, sizes]
  | _ => simp [BondType.fmapType, resolveParam, BondType.size, BondType.sizeWith]

theorem sizes_fmapTypes (params : List TypeParam) (args ts : List BondType) :
    sizes (fmapTypes (resolveParam params args) ts) =
      sizesWith (argWeight params (sizes args)) ts := by
  cases ts with
  | nil => rfl
  | cons t ts =>
      have ht := size_fmapType params args t
      have hts := sizes_fmapTypes params args ts
      simp only [sizes, BondType.size] at ht hts
      simp only [fmapTypes, sizes, sizesWith, ht, hts]

end

/-! ## Components -/

/-- The types the names of which go into the name of a type. -/
inductive Component : BondType → BondType → Prop
  | element (kind : ContainerKind) (t : BondType) : Component (.container kind t) t
  | key (k t : BondType) : Component (.map k t) k
  | value (k t : BondType) : Component (.map k t) t
  | arg {decl : Declaration} {args : List BondType} {t : BondType} : t ∈ args →
      Component (.userDefined decl args) t
  | resolved (namespaces : List Namespace) (name : String) (params : List TypeParam)
      (type : BondType) (args : List BondType) :
      Component (.userDefined (.typeAlias namespaces name params type) args)
        (resolveAlias params type args)
  | maybe {t t' : BondType} : Component t t' →
      Component (.container .maybe t) (.container .maybe t')

theorem size_alias (namespaces : List Namespace) (name : String) (params : List TypeParam)
    (type : BondType) (args : List BondType) :
    (BondType.userDefined (.typeAlias namespaces name params type) args).size =
      (resolveAlias params type args).size + (sizes args).sum + 1 := by
  rw [resolveAlias, size_fmapType]
  simp only [BondType.size, BondType.sizeWith, sizes]

theorem size_le_sum {args : List BondType} {t : BondType} (h : t ∈ args) :
    t.size ≤ (sizes args).sum := by
  rw [sizes_eq_map]
  exact List.le_sum_of_mem (List.mem_map_of_mem h)

theorem Component.size_lt {t t' : BondType} (h : Component t t') : t'.size < t.size := by
  induction h with
  | element | key | value =>
      simp only [BondType.size, BondType.sizeWith]
      omega
  | @arg decl args t ht =>
      have hle := size_le_sum ht
      cases decl with
      | typeAlias =>
          rw [size_alias]
          omega
      | _ =>
          simp only [BondType.size, BondType.sizeWith, sizes] at hle ⊢
          omega
  | resolved =>
      rw [size_alias]
      omega
  | maybe _ ih =>
      simp only [BondType.size, BondType.sizeWith] at ih ⊢
      omega

theorem Component.accepted {params : List TypeParam} {t t' : BondType} (h : Component t t')
    (ht : t.Accepted params) : t'.Accepted params := by
  induction h with
  | element =>
      rcases ht with _ | ht
      exact ht
  | key | value =>
      rcases ht with _ | _ | ⟨hk, ht⟩
      first | exact hk | exact ht
  | arg hmem =>
      rcases ht with _ | _ | _ | _ | _ | ⟨-, -, -, hargs⟩
      exact hargs _ hmem
  | resolved => exact ht.resolveAlias
  | maybe _ ih =>
      rcases ht with _ | ht
      exact .container (ih ht)

/-! ## Builders of names -/

/-- A builder for a type: it is made of names of components, and no index is out of range. -/
structure MadeOf (t : BondType) (b : Builder) : Prop where
  nodes : ∀ n, .node n ∈ b → ∃ f m t', n = .type f m t' ∧ Component t t'
  index : .leaf (.failed .index) ∉ b

section

variable {t t' : BondType} {b b' : Builder}

theorem MadeOf.nil : MadeOf t [] :=
  ⟨by simp, by simp⟩

theorem MadeOf.text (s : String) : MadeOf t (text s) :=
  ⟨by simp [Compiler.text], by simp [Compiler.text]⟩

theorem MadeOf.append (h : MadeOf t b) (h' : MadeOf t b') : MadeOf t (b ++ b') := by
  constructor
  · intro n hn
    rcases List.mem_append.1 hn with hn | hn
    · exact h.nodes n hn
    · exact h'.nodes n hn
  · intro hmem
    rcases List.mem_append.1 hmem with hmem | hmem
    · exact h.index hmem
    · exact h'.index hmem

theorem MadeOf.call (c : MappingContext) (f : MapType) (h : Component t t') :
    MadeOf t (call c f t') := by
  constructor
  · intro n hn
    obtain rfl : n = .type f c.typeMapping t' := by simpa [Compiler.call] using hn
    exact ⟨_, _, _, rfl, h⟩
  · simp [Compiler.call]

theorem MadeOf.typeName (c : MappingContext) (h : Component t t') : MadeOf t (typeName c t') :=
  .call c _ h

theorem MadeOf.elementTypeName (c : MappingContext) (h : Component t t') :
    MadeOf t (elementTypeName c t') :=
  .call _ _ h

theorem MadeOf.between {before behind : String} (h : MadeOf t b) :
    MadeOf t (Compiler.text before ++ b ++ Compiler.text behind) :=
  ((MadeOf.text before).append h).append (.text behind)

theorem MadeOf.commaSepTypeNames (c : MappingContext) {ts : List BondType}
    (h : ∀ t' ∈ ts, Component t t') : MadeOf t (commaSepTypeNames c ts) := by
  induction ts with
  | nil => exact .nil
  | cons t' ts ih =>
      rw [List.forall_mem_cons] at h
      cases ts with
      | nil => exact .typeName c h.1
      | cons => exact ((MadeOf.typeName c h.1).append (.text ", ")).append (ih h.2)

theorem MadeOf.angled (h : MadeOf t b) : MadeOf t (angled b) := by
  unfold Compiler.angled
  split
  · exact .nil
  · exact h.between

theorem MadeOf.declQualifiedTypeName (c : MappingContext) (decl : Declaration) :
    MadeOf t (declQualifiedTypeName c decl) := by
  refine (MadeOf.text _).append ?_
  split
  · exact .text _
  · exact ⟨by simp [failed], by simp [failed]⟩

theorem MadeOf.declTypeName (c : MappingContext) (decl : Declaration) :
    MadeOf t (declTypeName c decl) := by
  unfold Compiler.declTypeName
  split
  · exact .text _
  · exact .declQualifiedTypeName c decl

/-- The names of the arguments in angle brackets -/
theorem MadeOf.args (c : MappingContext) (decl : Declaration) (args : List BondType) :
    MadeOf (.userDefined decl args) (Compiler.angled (Compiler.commaSepTypeNames c args)) :=
  (MadeOf.commaSepTypeNames c fun _ ht => .arg ht).angled

end

/-! ## The functions of the languages -/

section

variable (c : MappingContext) {t : BondType}

theorem madeOf_idlType (h : t.isAlias = false) : MadeOf t (idlType c t) := by
  cases t with
  | basic | intTypeArg | typeParam => exact .text _
  | container kind t =>
      have ht := MadeOf.elementTypeName c (Component.element kind t)
      cases kind with
      | maybe => exact ht
      | _ => exact ht.between
  | map k t =>
      have hk := MadeOf.elementTypeName c (Component.key k t)
      have ht := MadeOf.elementTypeName c (Component.value k t)
      exact (hk.between.append ht).append (.text _)
  | userDefined decl args =>
      cases decl with
      | typeAlias => cases h
      | _ => exact (MadeOf.declQualifiedTypeName c _).append (.args c _ args)

theorem madeOf_cppType : MadeOf t (cppType c t) := by
  cases t with
  | basic | intTypeArg | typeParam => exact .text _
  | container kind t =>
      have ht := MadeOf.elementTypeName c (Component.element kind t)
      cases kind <;> exact ht.between
  | map k t =>
      have hk := MadeOf.elementTypeName c (Component.key k t)
      have ht := MadeOf.elementTypeName c (Component.value k t)
      exact (hk.between.append ht).append (.text _)
  | userDefined decl args => exact (MadeOf.declQualifiedTypeName c _).append (.args c _ args)

theorem MadeOf.rebindAllocator {b : Builder} (useScoped : Bool) (alloc : String) (h : MadeOf t b) :
    MadeOf t (rebindAllocator useScoped alloc b) := by
  have hrebind : MadeOf t (rebindAlloc alloc b) :=
    ((((MadeOf.text _).append (.text _)).append (.text _)).append h).append (.text _)
  cases useScoped with
  | false => exact hrebind
  | true => exact hrebind.between

theorem madeOf_cppTypeCustomAlloc (useScoped : Bool) (alloc : String) :
    MadeOf t (cppTypeCustomAlloc c useScoped alloc t) := by
  have hchars (s : String) : MadeOf t (rebindAllocator useScoped alloc (text s)) :=
    .rebindAllocator useScoped alloc (.text s)
  cases t with
  | basic b =>
      cases b with
      | string | wstring | metaName | metaFullName => exact (hchars _).between
      | _ => exact .text _
  | container kind t =>
      have ht := MadeOf.elementTypeName c (Component.element kind t)
      have halloc := ht.rebindAllocator useScoped alloc
      cases kind with
      | list | vector => exact (ht.between.append halloc).append (.text _)
      | set =>
          have hcomparer : MadeOf _ (comparer c t) := ht.between
          exact ((((MadeOf.text _).append ht).append hcomparer).append halloc).append (.text _)
      | _ => exact madeOf_cppType c
  | map k t =>
      have hk := MadeOf.elementTypeName c (Component.key k t)
      have ht := MadeOf.elementTypeName c (Component.value k t)
      have hcomparer : MadeOf (.map k t) (comparer c k) := hk.between
      have hpair : MadeOf (.map k t) (pairAllocator c useScoped alloc k t) :=
        .rebindAllocator useScoped alloc ((hk.between.append ht).append (.text _))
      exact (((hk.between.append ht).append hcomparer).append hpair).append (.text _)
  | intTypeArg | typeParam | userDefined => exact madeOf_cppType c

theorem madeOf_csType (h : t.isAlias = false) : MadeOf t (csType c t) := by
  cases t with
  | basic | intTypeArg | typeParam => exact .text _
  | container kind t =>
      have hnullable : MadeOf (.container kind t) (csNullable c t) := by
        refine (MadeOf.typeName c (.element kind t)).append ?_
        split
        · exact .text _
        · exact .nil
      cases kind with
      | maybe | nullable => exact hnullable
      | bonded => exact (MadeOf.typeName c (.element _ t)).between
      | _ => exact (MadeOf.elementTypeName c (.element _ t)).between
  | map k t =>
      have hk := MadeOf.elementTypeName c (Component.key k t)
      have ht := MadeOf.elementTypeName c (Component.value k t)
      exact (hk.between.append ht).append (.text _)
  | userDefined decl args =>
      cases decl with
      | typeAlias => cases h
      | _ => exact (MadeOf.declTypeName c _).append (.args _ _ args)

theorem madeOf_csInterfaceType (h : t.isAlias = false) : MadeOf t (csInterfaceType c t) := by
  cases t with
  | container kind t =>
      cases kind with
      | list | vector | set => exact (MadeOf.elementTypeName c (.element _ t)).between
      | _ => exact madeOf_csType c h
  | map k t =>
      have hk := MadeOf.elementTypeName c (Component.key k t)
      have ht := MadeOf.elementTypeName c (Component.value k t)
      exact (hk.between.append ht).append (.text _)
  | userDefined decl args =>
      cases decl with
      | typeAlias => cases h
      | _ => exact madeOf_csType c h
  | basic | intTypeArg | typeParam => exact madeOf_csType c h

theorem madeOf_csTypeAnnotation {m : BondType → Builder} (h : t.isAlias = false)
    (hm : MadeOf t (m t)) : MadeOf t <| csTypeAnnotation c m t := by
  cases t with
  | basic b =>
      cases b with
      | wstring => exact .text _
      | _ => exact hm
  | container kind t =>
      cases kind with
      | nullable => exact (MadeOf.typeName c (.element _ t)).between
      | maybe =>
          unfold csTypeAnnotation
          split
          · next heq => cases heq
          · next heq => cases heq
          · next heq =>
              cases heq
              exact .typeName c (.element _ _)
          all_goals first | exact hm | next heq => cases heq
      | _ => exact hm
  | typeParam p =>
      obtain ⟨name, _ | ⟨⟨⟩⟩⟩ := p
      · exact .text _
      · exact .text _
  | userDefined decl args =>
      cases decl with
      | typeAlias => cases h
      | _ => exact (MadeOf.declTypeName c _).append (.args _ _ args)
  | map | intTypeArg => exact hm

theorem madeOf_javaType : MadeOf t (javaType c t) := by
  have hboxed {t t' : BondType} (h : Component t t') : MadeOf t (call c .javaBoxedType t') :=
    .call c _ h
  cases t with
  | basic | intTypeArg | typeParam => exact .text _
  | container kind t =>
      have ht := MadeOf.elementTypeName c (Component.element kind t)
      have hobject : MadeOf (.container .maybe t) (somethingObject c t) :=
        (hboxed (.element _ t)).between
      cases kind with
      | maybe =>
          cases t with
          | basic b =>
              unfold javaType
              dsimp only
              split
              · exact .text _
              · exact hobject
          | userDefined decl args =>
              cases decl with
              | typeAlias => exact .call c _ (.maybe (.resolved _ _ _ _ args))
              | _ => exact hobject
          | _ => exact hobject
      | nullable => exact hboxed (.element _ t)
      | bonded => exact (hboxed (.element _ t)).between
      | _ => exact ht.between
  | map k t =>
      have hk := MadeOf.elementTypeName c (Component.key k t)
      have ht := MadeOf.elementTypeName c (Component.value k t)
      exact (hk.between.append ht).append (.text _)
  | userDefined decl args =>
      cases decl with
      | typeAlias => exact .call c _ (.resolved _ _ _ _ args)
      | _ => exact (MadeOf.declQualifiedTypeName c _).append (.args _ _ args)

theorem madeOf_javaBoxedType (h : t.isAlias = false) : MadeOf t (javaBoxedType c t) := by
  cases t with
  | basic b =>
      unfold javaBoxedType
      dsimp only
      split
      · exact .text _
      · exact madeOf_javaType c
  | userDefined decl args =>
      cases decl with
      | typeAlias => cases h
      | _ => exact madeOf_javaType c
  | _ => exact madeOf_javaType c

/-- The name of a type that is no alias is made of the names of its components. -/
theorem madeOf_applyMapType (f : MapType) (h : t.isAlias = false) :
    MadeOf t (applyMapType c f t) := by
  induction f with
  | idlType => exact madeOf_idlType c h
  | cppType => exact madeOf_cppType c
  | cppTypeCustomAlloc useScoped alloc => exact madeOf_cppTypeCustomAlloc c useScoped alloc
  | cppTypeExpandAliases m ih =>
      unfold applyMapType cppTypeExpandAliases
      split
      · cases h
      · exact ih
  | csType => exact madeOf_csType c h
  | csInterfaceType => exact madeOf_csInterfaceType c h
  | csTypeAnnotation m ih => exact madeOf_csTypeAnnotation c h ih
  | javaType => exact madeOf_javaType c
  | javaBoxedType => exact madeOf_javaBoxedType c h

/-! ## Names of aliases -/

/-- Whether a function makes the name of an alias of the fragments of its mapping, if it has one. -/
def expands (a : Alias) (args : List BondType) : MapType → Bool
  | .idlType | .cppTypeExpandAliases _ | .csType | .csInterfaceType | .javaBoxedType => true
  | .cppType | .cppTypeCustomAlloc _ _ | .javaType => false
  | MapType.csTypeAnnotation m =>
      decide (a.aliasType ≠ .basic .blob) && (BondType.userDefined a.decl args).isContainer &&
        expands a args m

/-- The name of an alias is made of the fragments of its mapping, or else of its components. -/
theorem applyMapType_alias (f : MapType) (a : Alias) (args : List BondType) :
    if expands a args f then
      ∃ c', applyMapType c f (.userDefined a.decl args) =
        aliasName c a args (typeName c') (typeName c' (resolveAlias a.declParams a.aliasType args))
    else MadeOf (.userDefined a.decl args) (applyMapType c f (.userDefined a.decl args)) := by
  induction f with
  | idlType | csType | csInterfaceType | cppTypeExpandAliases => exact ⟨c, rfl⟩
  | javaBoxedType => exact ⟨localWith c .elementMapping, rfl⟩
  | cppType => exact madeOf_cppType c
  | cppTypeCustomAlloc useScoped alloc => exact madeOf_cppTypeCustomAlloc c useScoped alloc
  | javaType => exact madeOf_javaType c
  | csTypeAnnotation m ih =>
      obtain ⟨namespaces, name, params, type⟩ := a
      by_cases hblob : type = .basic .blob
      · subst hblob
        exact .text _
      have happly : applyMapType c ( MapType.csTypeAnnotation m)
          (.userDefined (.typeAlias namespaces name params type) args) =
          if (BondType.userDefined (.typeAlias namespaces name params type) args).isContainer then
            applyMapType c m (.userDefined (.typeAlias namespaces name params type) args)
          else typeName c (resolveAlias params type args) := by
        simp only [applyMapType, csTypeAnnotation]
      simp only [expands, Alias.decl, ne_eq, hblob, not_false_eq_true, decide_true, Bool.true_and,
        happly] at ih ⊢
      cases (BondType.userDefined (.typeAlias namespaces name params type) args).isContainer with
      | true => exact ih
      | false => exact .typeName c (.resolved _ _ _ _ args)

/-- Every placeholder of the mapping of an alias, if it has one, is the place of one of its parameters. -/
def PlaceholdersFit (a : Alias) : Prop :=
  ∀ mapping, findAliasMapping c a = some (some mapping) →
    ∀ i : Int64, .placeholder i ∈ mapping.aliasTemplate → 0 ≤ i.toInt ∧ i.toInt < a.declParams.length

theorem index_eq_none_iff {α : Type} (args : List α) (i : Int64) :
    index args i = none ↔ ¬ (0 ≤ i.toInt ∧ i.toInt < args.length) := by
  unfold index
  split
  · next h =>
      rw [Int64.lt_iff_toInt_lt] at h
      have hneg : i.toInt < 0 := h
      simp only [true_iff]
      omega
  · next h =>
      rw [Int64.lt_iff_toInt_lt] at h
      have hneg : ¬ i.toInt < 0 := h
      rw [List.getElem?_eq_none_iff]
      omega

theorem mem_of_index {α : Type} {args : List α} {i : Int64} {arg : α}
    (h : index args i = some arg) : arg ∈ args := by
  unfold index at h
  split at h
  · cases h
  · exact List.mem_of_getElem? h

/-- An index out of range comes from a placeholder. -/
theorem failed_mem_fragments_iff {α : Type} (template : List Fragment) {args : List α}
    {name : α → Builder} (hname : ∀ arg ∈ args, .leaf (.failed .index) ∉ name arg) :
    .leaf (.failed .index) ∈ fragments template args name ↔
      ∃ i : Int64, .placeholder i ∈ template ∧ ¬ (0 ≤ i.toInt ∧ i.toInt < args.length) := by
  unfold fragments
  rw [List.mem_flatMap]
  constructor
  · rintro ⟨fragment, hfragment, hmem⟩
    cases fragment with
    | fragment s => simp [text] at hmem
    | placeholder i =>
        refine ⟨i, hfragment, (index_eq_none_iff args i).1 ?_⟩
        dsimp only at hmem
        split at hmem
        · next arg harg => exact absurd hmem (hname arg (mem_of_index harg))
        · next hnone => exact hnone
  · rintro ⟨i, hfragment, hout⟩
    refine ⟨_, hfragment, ?_⟩
    dsimp only
    rw [(index_eq_none_iff args i).2 hout]
    exact List.mem_singleton_self _

theorem node_mem_fragments {α : Type} {template : List Fragment} {args : List α}
    {name : α → Builder} {n : TypeName} (h : .node n ∈ fragments template args name) :
    ∃ arg ∈ args, .node n ∈ name arg := by
  obtain ⟨fragment, -, hmem⟩ := List.mem_flatMap.1 h
  cases fragment with
  | fragment s => simp [text] at hmem
  | placeholder i =>
      dsimp only at hmem
      split at hmem
      · next arg harg => exact ⟨arg, mem_of_index harg, hmem⟩
      · simp [failed] at hmem

/-- The name of an alias has an index out of range where a placeholder does not fit. -/
theorem failed_mem_aliasName_iff {α : Type} {a : Alias} {args : List α} {name : α → Builder}
    {otherwise : Builder} (hlength : args.length = a.declParams.length)
    (hname : ∀ arg ∈ args, .leaf (.failed .index) ∉ name arg)
    (hotherwise : .leaf (.failed .index) ∉ otherwise) :
    .leaf (.failed .index) ∈ aliasName c a args name otherwise ↔ ¬ PlaceholdersFit c a := by
  unfold aliasName PlaceholdersFit
  split
  · next hfind =>
      rw [hfind]
      simp [failed]
  · next mapping hfind =>
      rw [hfind, failed_mem_fragments_iff _ hname, hlength]
      simp only [Option.some.injEq, forall_eq', not_forall, exists_prop]
  · next hfind =>
      rw [hfind]
      simpa using hotherwise

theorem node_mem_aliasName {α : Type} {a : Alias} {args : List α} {name : α → Builder}
    {otherwise : Builder} {n : TypeName} (h : .node n ∈ aliasName c a args name otherwise) :
    (∃ arg ∈ args, .node n ∈ name arg) ∨ .node n ∈ otherwise := by
  unfold aliasName at h
  split at h
  · simp [failed] at h
  · exact .inl (node_mem_fragments h)
  · exact .inr h

/-! ## Whole names -/

/-- A type, or an alias, as they are parsed. -/
def TypeName.Accepted : TypeName → Prop
  | .type _ _ t => ∃ params, t.Accepted params
  | .aliasDecl _ a => a.aliasType.Accepted a.declParams

def TypeName.size : TypeName → Nat
  | .type _ _ t => t.size
  | .aliasDecl _ a => a.aliasType.size + 1

/-- The alias that a name is the name of, where its mapping, if it has one, is used for it; and the type
    mapping for that. -/
def usedAlias : TypeName → Option (TypeMapping × Alias)
  | .type f m (.userDefined (.typeAlias namespaces name params type) args) =>
      if expands ⟨namespaces, name, params, type⟩ args f then
        some (m, ⟨namespaces, name, params, type⟩)
      else
        none
  | .type _ _ _ => none
  | .aliasDecl m a => some (m, a)

theorem usedAlias_type {f : MapType} {m : TypeMapping} (a : Alias) (args : List BondType) :
    usedAlias (.type f m (.userDefined a.decl args)) =
      if expands a args f then some (m, a) else none := rfl

theorem usedAlias_of_not_isAlias {f : MapType} {m : TypeMapping} (h : t.isAlias = false) :
    usedAlias (.type f m t) = none := by
  unfold usedAlias
  split
  · next heq =>
      cases heq
      cases h
  · rfl
  · next heq => cases heq

theorem isAlias_eq_true_iff : t.isAlias = true ↔
    ∃ (a : Alias) (args : List BondType), t = .userDefined a.decl args := by
  constructor
  · intro h
    cases t with
    | userDefined decl args =>
        cases decl with
        | typeAlias namespaces name params type =>
            exact ⟨⟨namespaces, name, params, type⟩, args, rfl⟩
        | _ => cases h
    | _ => cases h
  · rintro ⟨a, args, rfl⟩
    rfl

/-- The names in the builder for a type are those of components. -/
theorem node_mem_applyMapType {f : MapType} {n : TypeName} (h : .node n ∈ applyMapType c f t) :
    ∃ f' m' t', n = .type f' m' t' ∧ Component t t' := by
  cases halias : t.isAlias with
  | false => exact (madeOf_applyMapType c f halias).nodes n h
  | true =>
      obtain ⟨a, args, rfl⟩ := isAlias_eq_true_iff.1 halias
      have hshape := applyMapType_alias c f a args
      split at hshape
      · obtain ⟨c', hname⟩ := hshape
        rw [hname] at h
        rcases node_mem_aliasName c h with ⟨arg, harg, hmem⟩ | hmem
        · exact (MadeOf.typeName c' (.arg harg)).nodes n hmem
        · exact (MadeOf.typeName c' (.resolved _ _ _ _ args)).nodes n hmem
      · exact hshape.nodes n h

theorem node_mem_nameParts {n n' : TypeName} (h : .node n' ∈ nameParts c n) :
    n'.size < n.size ∧ (n.Accepted → n'.Accepted) := by
  cases n with
  | type f m t =>
      obtain ⟨f', m', t', rfl, hcomponent⟩ := node_mem_applyMapType _ h
      refine ⟨hcomponent.size_lt, ?_⟩
      rintro ⟨params, ht⟩
      exact ⟨params, hcomponent.accepted ht⟩
  | aliasDecl m a =>
      rcases node_mem_aliasName _ h with ⟨p, -, hmem⟩ | hmem
      · simp [text] at hmem
      · obtain rfl : n' = .type _ _ a.aliasType := by simpa [typeName, call] using hmem
        exact ⟨Nat.lt_succ_self _, fun ha => ⟨_, ha⟩⟩

/-- The expansion of a name to texts -/
def nameExpansion : Expansion TypeName Chunk where
  parts := nameParts c
  size := TypeName.size
  size_lt h := (node_mem_nameParts c h).1

/-- The index that is out of range is one of the placeholders of an alias the name of which is made by
    its mapping. -/
theorem failed_mem_nameParts_iff {n : TypeName} (h : n.Accepted) :
    .leaf (.failed .index) ∈ nameParts c n ↔
      ∃ m a, usedAlias n = some (m, a) ∧ ¬ PlaceholdersFit (localWith c fun _ => m) a := by
  have hiff {m : TypeMapping} {a : Alias} {b : Builder}
      (hb : .leaf (.failed .index) ∈ b ↔ ¬ PlaceholdersFit (localWith c fun _ => m) a) :
      .leaf (.failed .index) ∈ b ↔ ∃ m' a', some (m, a) = some (m', a') ∧
        ¬ PlaceholdersFit (localWith c fun _ => m') a' := by
    rw [hb]
    constructor
    · intro hfit
      exact ⟨m, a, rfl, hfit⟩
    · rintro ⟨m', a', heq, hfit⟩
      cases heq
      exact hfit
  have hnone {t : BondType} {b : Builder} (hb : MadeOf t b) :
      .leaf (.failed .index) ∈ b ↔ ∃ m' a', none = some (m', a') ∧
        ¬ PlaceholdersFit (localWith c fun _ => m') a' :=
    ⟨fun hmem => absurd hmem hb.index, by rintro ⟨_, _, ⟨⟩, -⟩⟩
  cases n with
  | aliasDecl m a =>
      exact hiff (failed_mem_aliasName_iff _ rfl (by simp [text]) (by simp [typeName, call]))
  | type f m t =>
      obtain ⟨params, ht⟩ := h
      cases halias : t.isAlias with
      | false =>
          rw [usedAlias_of_not_isAlias halias]
          exact hnone (madeOf_applyMapType _ f halias)
      | true =>
          obtain ⟨a, args, rfl⟩ := isAlias_eq_true_iff.1 halias
          have hlength : args.length = a.declParams.length := by
            rcases ht with _ | _ | _ | _ | _ | ⟨-, -, hcount, -⟩
            exact hcount
          have hshape := applyMapType_alias (localWith c fun _ => m) f a args
          rw [usedAlias_type]
          split at hshape
          · next hexpands =>
              obtain ⟨c', hname⟩ := hshape
              rw [if_pos hexpands, nameParts, hname]
              exact hiff (failed_mem_aliasName_iff _ hlength (by simp [typeName, call])
                (by simp [typeName, call]))
          · next hexpands =>
              rw [if_neg hexpands]
              exact hnone hshape

/-- No index is out of range in the name of an accepted type, or of what an alias declaration stands for,
    if and only if the placeholders of each mapping that is used for it fit. -/
theorem failed_notMem_expand_iff {n : TypeName} (h : n.Accepted) :
    .failed .index ∉ (nameExpansion c).expand n ↔
      ∀ n' m a, (nameExpansion c).Reaches n n' → usedAlias n' = some (m, a) →
        PlaceholdersFit (localWith c fun _ => m) a := by
  have haccepted {n'} (hreaches : (nameExpansion c).Reaches n n') : n'.Accepted :=
    hreaches.induct h fun hn hm => (node_mem_nameParts c hm).2 hn
  rw [Expansion.mem_expand_iff]
  constructor
  · intro hnone n' m a hreaches huses
    by_contra hfit
    exact hnone ⟨n', hreaches,
      (failed_mem_nameParts_iff c (haccepted hreaches)).2 ⟨m, a, huses, hfit⟩⟩
  · rintro hfits ⟨n', hreaches, hleaf⟩
    obtain ⟨m, a, huses, hfit⟩ := (failed_mem_nameParts_iff c (haccepted hreaches)).1 hleaf
    exact hfit (hfits n' m a hreaches huses)

end

/-! ## An alias with one parameter -/

/-- `using Ordered<T> = set<T>;` -/
def ordered : Alias :=
  ⟨[⟨none, ["n"]⟩], "Ordered", [⟨"T", none⟩], .container .set (.typeParam ⟨"T", none⟩)⟩

/-- `Ordered<int32>` in C# -/
def orderedName : TypeName :=
  .type .csType .cs (.userDefined ordered.decl [.basic .int32])

theorem accepted_orderedName : orderedName.Accepted := by
  refine ⟨[], .userDefined (.typeAlias (.container (.typeParam ?_))) rfl rfl ?_⟩
  · exact List.mem_singleton_self _
  · intro t ht
    obtain rfl := List.mem_singleton.1 ht
    exact .basic _

/-- A schema in one namespace, with one mapping for its aliases -/
def withMapping (mapping : AliasMapping) : MappingContext :=
  ⟨.cs, [mapping], [], [⟨none, ["n"]⟩]⟩

/-- `Ordered=SortedSet<{0}>` -/
def sortedSet : AliasMapping :=
  ⟨["Ordered"], [.fragment "SortedSet<", .placeholder 0, .fragment ">"]⟩

/-- `Ordered=Sorted<{0},{1}>` -/
def sorted : AliasMapping :=
  ⟨["Ordered"], [.fragment "Sorted<", .placeholder 0, .fragment ",", .placeholder 1, .fragment ">"]⟩

theorem failed_notMem_sortedSet :
    .failed .index ∉ (nameExpansion (withMapping sortedSet)).expand orderedName ↔
      ∀ n' m a, (nameExpansion (withMapping sortedSet)).Reaches orderedName n' →
        usedAlias n' = some (m, a) →
        PlaceholdersFit (localWith (withMapping sortedSet) fun _ => m) a :=
  failed_notMem_expand_iff _ accepted_orderedName

theorem failed_mem_sorted :
    .leaf (.failed .index) ∈ nameParts (withMapping sorted) orderedName := by
  refine (failed_mem_nameParts_iff _ accepted_orderedName).2 ⟨_, _, rfl, fun hfit => ?_⟩
  have hlt := (hfit sorted rfl 1 (by decide)).2
  exact absurd hlt (by decide)

set_option maxRecDepth 10000 in
/-- A mapping with a second placeholder is accepted. -/
theorem failed_mem_of_parseAliasMapping : ¬ ∀ (classes : CharClasses) (fuel : Nat) (s : String)
    (mapping : AliasMapping) (c : MappingContext) (n : TypeName),
    parseAliasMapping classes fuel s = .ok mapping → c.aliasMapping = [mapping] → n.Accepted →
    .failed .index ∉ (nameExpansion c).expand n := by
  intro h
  have hparse : parseAliasMapping asciiClasses 30 "Ordered=Sorted<\x7b0\x7d,\x7b1\x7d>" =
      .ok sorted := by
    decide +kernel
  exact h _ _ _ _ (withMapping sorted) orderedName hparse rfl accepted_orderedName
    (Expansion.mem_expand.2 (.inl failed_mem_sorted))

end Bond.Compiler

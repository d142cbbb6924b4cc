import Bond.Cpp.Variables
import Mathlib.Data.Fintype.Card
import Mathlib.Data.List.Infix
import Mathlib.Logic.Relation

set_option autoImplicit false

/-! # Runtime schemas of generated structs

`InitSchemaDef` (cpp/inc/bond/core/schema.h) makes the runtime schema of a C++ struct. The table of structs
grows while the fields of a struct that is already in it are visited. -/

namespace Bond.Cpp.InitSchemaDef

variable {m : Nat}

/-! ## The transform -/

/-- `StructDef`, with indices that are `uint16_t`. -/
structure StructDef where
  metadata : Metadata
  baseDef : Option (TypeDef 65536)
  fields : List (FieldDef 65536)

/-- `StructDef()` -/
def StructDef.default : StructDef := ⟨⟨"", "", .optional⟩, none, []⟩

/-- What is done to `_schema.structs`; the nesting of structs is bounded. -/
abbrev SchemaM := StateT (List StructDef) Option

section

variable (getStructDef : Fin m → SchemaM (Fin 65536))

/-- `GetTypeDef`, given `GetStructDef` -/
def getTypeDef : CppType m → SchemaM (TypeDef 65536)
  | .basic type => return .basic type
  | .struct index => do
      let i ← getStructDef index
      return .struct i false
  | .bonded index => do
      let i ← getStructDef index
      return .struct i true
  | .list element | .nullable element => do
      let type ← getTypeDef element
      return .list type
  | .blob => return .list (.basic .int8)
  | .set element => return .set (.basic element)
  | .map key element => do
      let type ← getTypeDef element
      return .map (.basic key) type

/-- `This()` is changed. -/
def modifyThis (structDef : Nat) (f : StructDef → StructDef) : SchemaM Unit :=
  modify fun structs => structs.modify structDef f

/-- `Base` -/
def base (structDef : Nat) : Option (Fin m) → SchemaM Unit
  | none => return ()
  | some y => do
      let type ← getTypeDef getStructDef (.struct y)
      modifyThis structDef fun this => { this with baseDef := some type }

/-- `Field` -/
def field (structDef : Nat) (f : CppField m) : SchemaM Unit := do
  let type ← getTypeDef getStructDef f.type
  modifyThis structDef fun this => { this with fields := this.fields ++ [⟨f.metadata, f.id, type⟩] }

end

/-- `AppendStructDef`: a new `InitSchemaDef` is applied to the struct. -/
def appendStructDef (G : Fin m → CppStruct m) (getStructDef : Fin m → SchemaM (Fin 65536))
    (x : Fin m) : SchemaM Unit := do
  let structs ← get
  let structDef := structs.length
  set (structs ++ [StructDef.default])
  modifyThis structDef fun this => { this with metadata := (G x).metadata }
  base getStructDef structDef (G x).base
  (G x).fields.forM (field getStructDef structDef)

/-- `GetStructDef`. The index that it returns is cast to `uint16_t`. -/
def getStructDef (G : Fin m → CppStruct m) : Nat → Fin m → SchemaM (Fin 65536)
  | 0, _ => fun _ => none
  | k + 1, x => do
      let structs ← get
      let index := structs.findIdx fun def_ =>
        def_.metadata.qualifiedName = (G x).metadata.qualifiedName
      if index = structs.length then
        appendStructDef G (getStructDef G k) x
      return Fin.ofNat 65536 index

/-- `SchemaCache<T>::Get`: the table of structs; the root is the first of them. -/
def get (G : Fin m → CppStruct m) (root : Fin m) : Option (List StructDef) :=
  ((appendStructDef G (getStructDef G m) root).run []).map Prod.snd

/-! ## What the table should be -/

/-- The structs that a type refers to. -/
def typeRefs : CppType m → List (Fin m)
  | .struct y | .bonded y => [y]
  | .list element | .nullable element | .map _ element => typeRefs element
  | .basic _ | .blob | .set _ => []

/-- The structs that a struct refers to. -/
def refs (T : CppStruct m) : List (Fin m) :=
  T.base.toList ++ T.fields.flatMap fun f => typeRefs f.type

/-- The structs that are needed for a struct. -/
def Needs (G : Fin m → CppStruct m) : Fin m → Fin m → Prop :=
  Relation.ReflTransGen fun x y => y ∈ refs (G x)

section

variable (G : Fin m → CppStruct m) (structs : List StructDef)

/-- The index is in range, and the `StructDef` at this place has the name of the struct. -/
def PointsAt (i : Fin 65536) (y : Fin m) : Prop :=
  ∃ def_, structs[i.val]? = some def_ ∧
    def_.metadata.qualifiedName = (G y).metadata.qualifiedName

/-- The `TypeDef` of a type. -/
def TypeDescribes : CppType m → TypeDef 65536 → Prop
  | .basic type, .basic type' => type' = type
  | .struct y, .struct i bondedType => PointsAt G structs i y ∧ bondedType = false
  | .bonded y, .struct i bondedType => PointsAt G structs i y ∧ bondedType = true
  | .list element, .list type | .nullable element, .list type => TypeDescribes element type
  | .blob, .list type => type = .basic .int8
  | .set element, .set type => type = .basic element
  | .map key element, .map key' type => key' = .basic key ∧ TypeDescribes element type
  | _, _ => False

/-- The `FieldDef` of a field. -/
structure FieldDescribes (f : CppField m) (def_ : FieldDef 65536) : Prop where
  metadata : def_.metadata = f.metadata
  id : def_.id = f.id
  type : TypeDescribes G structs f.type def_.type

/-- The `StructDef` of a struct. There is a `base_def` exactly if there is a base. -/
structure Describes (x : Fin m) (def_ : StructDef) : Prop where
  metadata : def_.metadata = (G x).metadata
  base_isSome : def_.baseDef.isSome = (G x).base.isSome
  base : ∀ y ∈ (G x).base, ∀ type ∈ def_.baseDef, TypeDescribes G structs (.struct y) type
  fields : List.Forall₂ (FieldDescribes G structs) (G x).fields def_.fields

/-- The table is the one of the struct `root`. -/
structure Complete (root : Fin m) : Prop where
  first : ∃ def_, structs[0]? = some def_ ∧ Describes G structs root def_
  each : ∀ def_ ∈ structs, ∃ x, Needs G root x ∧ Describes G structs x def_
  once : (structs.map fun def_ => def_.metadata.qualifiedName).Nodup
  /-- where structs with the same name refer to structs with the same names -/
  all : (∀ x y, (G x).metadata.qualifiedName = (G y).metadata.qualifiedName →
      ∀ z ∈ refs (G x), ∃ z' ∈ refs (G y),
        (G z).metadata.qualifiedName = (G z').metadata.qualifiedName) →
    ∀ x, Needs G root x →
      ∃ def_ ∈ structs, def_.metadata.qualifiedName = (G x).metadata.qualifiedName

end

/-! ## Definitions for a table of names -/

section

variable (G : Fin m → CppStruct m)

def name (x : Fin m) : String :=
  (G x).metadata.qualifiedName

def names (structs : List StructDef) : List String :=
  structs.map fun def_ => def_.metadata.qualifiedName

/-- The index of a struct in a table with these names. -/
def indexOf (ns : List String) (y : Fin m) : Fin 65536 :=
  Fin.ofNat 65536 (ns.idxOf (name G y))

def typeDefOf (ns : List String) : CppType m → TypeDef 65536
  | .basic type => .basic type
  | .struct y => .struct (indexOf G ns y) false
  | .bonded y => .struct (indexOf G ns y) true
  | .list element | .nullable element => .list (typeDefOf ns element)
  | .blob => .list (.basic .int8)
  | .set element => .set (.basic element)
  | .map key element => .map (.basic key) (typeDefOf ns element)

def fieldDefOf (ns : List String) (f : CppField m) : FieldDef 65536 :=
  ⟨f.metadata, f.id, typeDefOf G ns f.type⟩

def structDefOf (ns : List String) (x : Fin m) : StructDef :=
  ⟨(G x).metadata, (G x).base.map fun y => typeDefOf G ns (.struct y),
    (G x).fields.map (fieldDefOf G ns)⟩

end

section

variable {G : Fin m → CppStruct m} {ns ns' : List String} {structs : List StructDef}

theorem findIdx_eq_idxOf (structs : List StructDef) (n : String) :
    (structs.findIdx fun def_ => def_.metadata.qualifiedName = n) = (names structs).idxOf n := by
  rw [names, List.idxOf, List.findIdx_map]
  rfl

theorem names_append (structs structs' : List StructDef) :
    names (structs ++ structs') = names structs ++ names structs' :=
  List.map_append

theorem names_structDefOf (ns : List String) (xs : List (Fin m)) :
    names (xs.map (structDefOf G ns)) = xs.map (name G) := by
  rw [names, List.map_map]
  rfl

/-- More names behind do not change what is found. -/
theorem indexOf_extend (h : ns <+: ns') {y : Fin m} (hy : name G y ∈ ns) :
    indexOf G ns' y = indexOf G ns y := by
  obtain ⟨more, rfl⟩ := h
  rw [indexOf, indexOf, List.idxOf_append_of_mem hy]

theorem typeDefOf_extend (h : ns <+: ns') {t : CppType m}
    (ht : ∀ y ∈ typeRefs t, name G y ∈ ns) : typeDefOf G ns' t = typeDefOf G ns t := by
  induction t with
  | struct y => rw [typeDefOf, typeDefOf, indexOf_extend h (ht y List.mem_cons_self)]
  | bonded y => rw [typeDefOf, typeDefOf, indexOf_extend h (ht y List.mem_cons_self)]
  | list element ih => rw [typeDefOf, typeDefOf, ih ht]
  | nullable element ih => rw [typeDefOf, typeDefOf, ih ht]
  | map key element ih => rw [typeDefOf, typeDefOf, ih ht]
  | _ => rfl

theorem fieldDefOf_extend (h : ns <+: ns') {f : CppField m}
    (hf : ∀ y ∈ typeRefs f.type, name G y ∈ ns) : fieldDefOf G ns' f = fieldDefOf G ns f := by
  rw [fieldDefOf, fieldDefOf, typeDefOf_extend h hf]

theorem structDefOf_extend (h : ns <+: ns') {x : Fin m} (hx : ∀ y ∈ refs (G x), name G y ∈ ns) :
    structDefOf G ns' x = structDefOf G ns x := by
  have hbase : ((G x).base.map fun y => typeDefOf G ns' (.struct y)) =
      (G x).base.map fun y => typeDefOf G ns (.struct y) := by
    refine Option.map_congr fun y hy => typeDefOf_extend h fun z hz => ?_
    rw [List.mem_singleton.1 hz]
    exact hx y (List.mem_append_left _ (Option.mem_toList.2 hy))
  have hfields : (G x).fields.map (fieldDefOf G ns') = (G x).fields.map (fieldDefOf G ns) := by
    refine List.map_congr_left fun f hf => fieldDefOf_extend h fun y hy => ?_
    exact hx y (List.mem_append_right _ (List.mem_flatMap.2 ⟨f, hf, hy⟩))
  rw [structDefOf, structDefOf, hbase, hfields]

end

/-! ## What is added to the table -/

section

variable (G : Fin m → CppStruct m)

/-- The names are different, and each is the name of a struct. -/
structure Valid (structs : List StructDef) : Prop where
  nodup : (names structs).Nodup
  range : ∀ n ∈ names structs, ∃ y, name G y = n

/-- The definitions of the structs `new` have been added, which are needed for the structs `roots`; those can
    be found now. -/
structure Adds (structs structs' : List StructDef) (new roots : List (Fin m)) : Prop where
  eq : structs' = structs ++ new.map (structDefOf G (names structs'))
  valid : Valid G structs'
  refs : ∀ y ∈ new, ∀ z ∈ refs (G y), name G z ∈ names structs'
  found : ∀ z ∈ roots, name G z ∈ names structs'
  needs : ∀ y ∈ new, ∃ z ∈ roots, Needs G z y

/-- `GetStructDef` with enough fuel `k` for what is not in the table yet. -/
def Serves (k : Nat) (getStructDef : Fin m → SchemaM (Fin 65536)) : Prop :=
  ∀ x structs, Valid G structs → m < k + structs.length →
    ∃ new structs', getStructDef x structs = some (indexOf G (names structs') x, structs') ∧
      Adds G structs structs' new [x]

end

section

variable {G : Fin m → CppStruct m} {structs structs' structs'' : List StructDef}
  {new new' roots roots' : List (Fin m)} {k : Nat}

/-- There are not more names than structs. -/
theorem Valid.length_le (h : Valid G structs) : structs.length ≤ m := by
  have hsub : names structs ⊆ (List.finRange m).map (name G) := by
    intro n hn
    obtain ⟨y, rfl⟩ := h.range n hn
    exact List.mem_map_of_mem (List.mem_finRange y)
  have hle := (h.nodup.subperm hsub).length_le
  rwa [names, List.length_map, List.length_map, List.length_finRange] at hle

theorem Adds.names_eq (h : Adds G structs structs' new roots) :
    names structs' = names structs ++ new.map (name G) := by
  have heq := congrArg names h.eq
  rwa [names_append, names_structDefOf] at heq

theorem Adds.isPrefix (h : Adds G structs structs' new roots) : names structs <+: names structs' := by
  rw [h.names_eq]
  exact List.prefix_append _ _

theorem Adds.length_le (h : Adds G structs structs' new roots) :
    structs.length ≤ structs'.length := by
  rw [h.eq, List.length_append]
  exact Nat.le_add_right _ _

/-- What has been added stays the same when more is added. -/
theorem map_structDefOf_extend {ns ns' : List String} (h : ns <+: ns')
    (hrefs : ∀ y ∈ new, ∀ z ∈ refs (G y), name G z ∈ ns) :
    new.map (structDefOf G ns') = new.map (structDefOf G ns) :=
  List.map_congr_left fun y hy => structDefOf_extend h (hrefs y hy)

theorem Adds.refl (h : Valid G structs) : Adds G structs structs [] [] where
  eq := (List.append_nil structs).symm
  valid := h
  refs := nofun
  found := nofun
  needs := nofun

/-- `GetTypeDef` -/
theorem getTypeDef_adds {getStructDef : Fin m → SchemaM (Fin 65536)} (hserves : Serves G k getStructDef)
    (hvalid : Valid G structs) (hk : m < k + structs.length) (t : CppType m) :
    ∃ new structs', getTypeDef getStructDef t structs =
        some (typeDefOf G (names structs') t, structs') ∧
      Adds G structs structs' new (typeRefs t) := by
  induction t with
  | basic _ | blob | set _ => exact ⟨[], structs, rfl, .refl hvalid⟩
  | struct y =>
      obtain ⟨new, structs', hget, hadds⟩ := hserves y structs hvalid hk
      refine ⟨new, structs', ?_, hadds⟩
      show (getStructDef y structs).bind _ = _
      rw [hget]
      rfl
  | bonded y =>
      obtain ⟨new, structs', hget, hadds⟩ := hserves y structs hvalid hk
      refine ⟨new, structs', ?_, hadds⟩
      show (getStructDef y structs).bind _ = _
      rw [hget]
      rfl
  | list element ih =>
      obtain ⟨new, structs', hget, hadds⟩ := ih
      refine ⟨new, structs', ?_, hadds⟩
      show (getTypeDef getStructDef element structs).bind _ = _
      rw [hget]
      rfl
  | nullable element ih =>
      obtain ⟨new, structs', hget, hadds⟩ := ih
      refine ⟨new, structs', ?_, hadds⟩
      show (getTypeDef getStructDef element structs).bind _ = _
      rw [hget]
      rfl
  | map key element ih =>
      obtain ⟨new, structs', hget, hadds⟩ := ih
      refine ⟨new, structs', ?_, hadds⟩
      show (getTypeDef getStructDef element structs).bind _ = _
      rw [hget]
      rfl

/-- The struct `this`, which has the structs `before` before it and `after` behind it in the table, has become
    `this'`, and definitions have been added. -/
structure Fills (G : Fin m → CppStruct m) (before : List StructDef) (this' : List String → StructDef)
    (after structs' : List StructDef) (new roots : List (Fin m)) : Prop where
  eq : structs' = before ++ this' (names structs') ::
    (after ++ new.map (structDefOf G (names structs')))
  valid : Valid G structs'
  refs : ∀ y ∈ new, ∀ z ∈ refs (G y), name G z ∈ names structs'
  found : ∀ z ∈ roots, name G z ∈ names structs'
  needs : ∀ y ∈ new, ∃ z ∈ roots, Needs G z y

theorem modify_this (before after : List StructDef) (this : StructDef) (f : StructDef → StructDef) :
    (before ++ this :: after).modify before.length f = before ++ f this :: after := by
  induction before with
  | nil => rfl
  | cons d before ih => exact congrArg (d :: ·) ih

/-- One `GetTypeDef` whose result goes to the struct that is being filled. -/
theorem fills_type {getStructDef : Fin m → SchemaM (Fin 65536)} (hserves : Serves G k getStructDef)
    {before after : List StructDef} {this : StructDef}
    (hvalid : Valid G (before ++ this :: after)) (hk : m < k + (before ++ this :: after).length)
    (t : CppType m) (f : TypeDef 65536 → StructDef → StructDef)
    (hf : ∀ type, (f type this).metadata = this.metadata) :
    ∃ new structs',
      (do let type ← getTypeDef getStructDef t
          modifyThis before.length (f type) : SchemaM Unit) (before ++ this :: after) =
        some ((), structs') ∧
      Fills G before (fun ns => f (typeDefOf G ns t) this) after structs' new (typeRefs t) := by
  obtain ⟨new, structs', hget, hadds⟩ := getTypeDef_adds hserves hvalid hk t
  have heq := hadds.eq
  rw [List.append_assoc, List.cons_append] at heq
  set type := typeDefOf G (names structs') t with htype
  set defs := new.map (structDefOf G (names structs')) with hdefs
  have hnames : names (before ++ f type this :: (after ++ defs)) = names structs' := by
    rw [heq, names, names, List.map_append, List.map_append, List.map_cons, List.map_cons, hf]
  refine ⟨new, before ++ f type this :: (after ++ defs), ?_, ?_, ?_, ?_, ?_, hadds.needs⟩
  · show (getTypeDef getStructDef t (before ++ this :: after)).bind _ = _
    rw [hget, Option.bind_some]
    show some ((), structs'.modify before.length (f type)) = _
    rw [heq, modify_this]
  · rw [hnames]
  · exact ⟨hnames ▸ hadds.valid.nodup, hnames ▸ hadds.valid.range⟩
  · rw [hnames]
    exact hadds.refs
  · rw [hnames]
    exact hadds.found

theorem Fills.isPrefix {before after : List StructDef} {this' : List String → StructDef}
    (h : Fills G before this' after structs' new roots) {this : StructDef}
    (hthis : (this' (names structs')).metadata = this.metadata) :
    names (before ++ this :: after) <+: names structs' := by
  have heq := congrArg names h.eq
  rw [names_append] at heq
  refine ⟨new.map (name G), ?_⟩
  rw [heq, names_append, ← names_structDefOf (names structs'), List.append_assoc]
  congr 1
  show this.metadata.qualifiedName :: names after ++ _ = (this' _).metadata.qualifiedName ::
    names (after ++ _)
  rw [hthis, names_append]
  rfl

/-- First one part of the struct is filled, then another one. -/
theorem Fills.append {before after : List StructDef} {this₁ this₂ this : List String → StructDef}
    (h : Fills G before this₁ after structs' new roots)
    (h' : Fills G before this₂ (after ++ new.map (structDefOf G (names structs'))) structs'' new' roots')
    (hfront : names structs' <+: names structs'')
    (hthis : this₂ (names structs'') = this (names structs'')) :
    Fills G before this after structs'' (new ++ new') (roots ++ roots') := by
  refine ⟨?_, h'.valid, ?_, ?_, ?_⟩
  · have heq := h'.eq
    rw [← map_structDefOf_extend hfront h.refs, List.append_assoc, ← List.map_append, hthis] at heq
    exact heq
  · intro y hy
    rcases List.mem_append.1 hy with hy | hy
    · exact fun z hz => hfront.subset (h.refs y hy z hz)
    · exact h'.refs y hy
  · intro z hz
    rcases List.mem_append.1 hz with hz | hz
    · exact hfront.subset (h.found z hz)
    · exact h'.found z hz
  · intro y hy
    rcases List.mem_append.1 hy with hy | hy
    · obtain ⟨z, hz, hneeds⟩ := h.needs y hy
      exact ⟨z, List.mem_append_left _ hz, hneeds⟩
    · obtain ⟨z, hz, hneeds⟩ := h'.needs y hy
      exact ⟨z, List.mem_append_right _ hz, hneeds⟩

/-- All fields. -/
theorem fills_fields {getStructDef : Fin m → SchemaM (Fin 65536)} (hserves : Serves G k getStructDef)
    (fs : List (CppField m)) {before : List StructDef} (this : StructDef) (after : List StructDef)
    (hvalid : Valid G (before ++ this :: after)) (hk : m < k + before.length + 1) :
    ∃ new structs',
      fs.forM (field getStructDef before.length) (before ++ this :: after) = some ((), structs') ∧
      Fills G before
        (fun ns => { this with fields := this.fields ++ fs.map (fieldDefOf G ns) }) after structs' new
        (fs.flatMap fun f => typeRefs f.type) := by
  induction fs generalizing this after with
  | nil =>
      refine ⟨[], before ++ this :: after, rfl, ?_, hvalid, nofun, nofun, nofun⟩
      rw [List.map_nil, List.map_nil, List.append_nil, List.append_nil]
  | cons f fs ih =>
      have hlength : m < k + (before ++ this :: after).length := by
        rw [List.length_append, List.length_cons]
        omega
      obtain ⟨new, structs₁, hfield, hfills⟩ := fills_type hserves hvalid hlength f.type
        (fun type this => { this with fields := this.fields ++ [⟨f.metadata, f.id, type⟩] })
        fun _ => rfl
      set this₁ : StructDef :=
        { this with fields := this.fields ++ [fieldDefOf G (names structs₁) f] } with hthis₁
      have heq : structs₁ = before ++ this₁ :: (after ++ new.map (structDefOf G (names structs₁))) :=
        hfills.eq
      obtain ⟨new', structs₂, hrest, hfills'⟩ := ih this₁
        (after ++ new.map (structDefOf G (names structs₁))) (heq ▸ hfills.valid)
      have hfront : names (before ++ this₁ :: _) <+: names structs₂ := hfills'.isPrefix rfl
      rw [← heq] at hfront
      refine ⟨new ++ new', structs₂, ?_, hfills.append hfills' hfront ?_⟩
      · show (field getStructDef before.length f (before ++ this :: after)).bind _ = _
        have hfirst : field getStructDef before.length f (before ++ this :: after) =
          some ((), structs₁) := hfield
        rw [hfirst, Option.bind_some, heq]
        exact hrest
      · have hfield' : fieldDefOf G (names structs₂) f = fieldDefOf G (names structs₁) f :=
          fieldDefOf_extend hfront hfills.found
        rw [List.map_cons, hfield', hthis₁]
        simp

/-- The base of a struct without fields and without a base yet. -/
theorem fills_base {getStructDef : Fin m → SchemaM (Fin 65536)} (hserves : Serves G k getStructDef)
    (b : Option (Fin m)) {before : List StructDef} (this : StructDef) (hbase : this.baseDef = none)
    (hvalid : Valid G (before ++ [this])) (hk : m < k + before.length + 1) :
    ∃ new structs',
      base getStructDef before.length b (before ++ [this]) = some ((), structs') ∧
      Fills G before
        (fun ns => { this with baseDef := b.map fun y => typeDefOf G ns (.struct y) }) [] structs' new
        b.toList := by
  cases b with
  | none =>
      have hsame : ({ this with baseDef := none } : StructDef) = this := by rw [← hbase]
      refine ⟨[], before ++ [this], rfl, ?_, hvalid, nofun, nofun, nofun⟩
      show before ++ [this] = before ++ { this with baseDef := none } :: ([] ++ [])
      rw [hsame]
      rfl
  | some y =>
      have hlength : m < k + (before ++ [this]).length := by
        rw [List.length_append, List.length_singleton]
        omega
      exact fills_type hserves hvalid hlength (.struct y)
        (fun type this => { this with baseDef := some type }) fun _ => rfl

/-- `AppendStructDef` on a struct that is not in the table. -/
theorem appendStructDef_adds {getStructDef : Fin m → SchemaM (Fin 65536)}
    (hserves : Serves G k getStructDef) (hvalid : Valid G structs) {x : Fin m}
    (hx : name G x ∉ names structs) (hk : m < k + structs.length + 1) :
    ∃ new structs', appendStructDef G getStructDef x structs = some ((), structs') ∧
      Adds G structs structs' (x :: new) [x] := by
  set this : StructDef := ⟨(G x).metadata, none, []⟩ with hthis
  have hnames : names (structs ++ [this]) = names structs ++ [name G x] := names_append _ _
  have hvalid₀ : Valid G (structs ++ [this]) := by
    refine ⟨?_, fun n hn => ?_⟩
    · rw [hnames]
      refine List.nodup_append.2 ⟨hvalid.nodup, List.pairwise_singleton _ _, fun a ha b hb hab => ?_⟩
      rw [hab, List.mem_singleton.1 hb] at ha
      exact hx ha
    · rw [hnames] at hn
      rcases List.mem_append.1 hn with hn | hn
      · exact hvalid.range n hn
      · exact ⟨x, (List.mem_singleton.1 hn).symm⟩
  obtain ⟨new, structs₁, hbase, hfills⟩ := fills_base hserves (G x).base this rfl hvalid₀ hk
  set this₁ : StructDef :=
    { this with baseDef := (G x).base.map fun y => typeDefOf G (names structs₁) (.struct y) }
    with hthis₁
  have heq : structs₁ = structs ++ this₁ :: ([] ++ new.map (structDefOf G (names structs₁))) :=
    hfills.eq
  obtain ⟨new', structs₂, hfields, hfills'⟩ := fills_fields hserves (G x).fields this₁
    ([] ++ new.map (structDefOf G (names structs₁))) (heq ▸ hfills.valid) hk
  have hfront : names (structs ++ this₁ :: _) <+: names structs₂ := hfills'.isPrefix rfl
  rw [← heq] at hfront
  have hall : Fills G structs (fun ns => structDefOf G ns x) [] structs₂ (new ++ new')
      (refs (G x)) := by
    refine hfills.append hfills' hfront ?_
    have hbase' : ((G x).base.map fun y => typeDefOf G (names structs₂) (.struct y)) =
        (G x).base.map fun y => typeDefOf G (names structs₁) (.struct y) := by
      refine Option.map_congr fun y hy => typeDefOf_extend hfront fun z hz => ?_
      rw [List.mem_singleton.1 hz]
      exact hfills.found y (Option.mem_toList.2 hy)
    show _ = structDefOf G (names structs₂) x
    rw [structDefOf, hbase']
    rfl
  refine ⟨new ++ new', structs₂, ?_, ?_, hall.valid, ?_, ?_, ?_⟩
  · have hmodify : (structs ++ [StructDef.default]).modify structs.length
        (fun this => { this with metadata := (G x).metadata }) = structs ++ [this] :=
      modify_this structs [] _ _
    show (base getStructDef structs.length (G x).base ((structs ++ [StructDef.default]).modify
      structs.length fun this => { this with metadata := (G x).metadata })).bind _ = _
    rw [hmodify, hbase, Option.bind_some, heq]
    exact hfields
  · exact hall.eq
  · intro y hy
    rcases List.mem_cons.1 hy with rfl | hy
    · exact hall.found
    · exact hall.refs y hy
  · intro z hz
    rw [List.mem_singleton.1 hz, hall.eq, names_append]
    exact List.mem_append_right _ List.mem_cons_self
  · intro y hy
    refine ⟨x, List.mem_cons_self, ?_⟩
    rcases List.mem_cons.1 hy with rfl | hy
    · exact .refl
    · obtain ⟨z, hz, hneeds⟩ := hall.needs y hy
      exact hneeds.head hz

/-- `GetStructDef` with enough fuel. -/
theorem getStructDef_serves (G : Fin m → CppStruct m) (k : Nat) : Serves G k (getStructDef G k) := by
  induction k with
  | zero =>
      intro x structs hvalid hk
      have hle := hvalid.length_le
      omega
  | succ k ih =>
      intro x structs hvalid hk
      have hfind := findIdx_eq_idxOf structs (name G x)
      have hlength : (names structs).length = structs.length := List.length_map _
      by_cases hx : name G x ∈ names structs
      · have hlt := List.idxOf_lt_length_of_mem hx
        have hne : ¬ structs.findIdx (fun def_ => def_.metadata.qualifiedName = name G x) =
            structs.length := by omega
        refine ⟨[], structs, ?_, (List.append_nil structs).symm, hvalid, nofun, ?_, nofun⟩
        · show (if structs.findIdx (fun def_ => def_.metadata.qualifiedName = name G x) =
            structs.length then _ else _ : SchemaM (Fin 65536)) structs = _
          rw [if_neg hne]
          show some (Fin.ofNat 65536 (structs.findIdx fun def_ =>
            def_.metadata.qualifiedName = name G x), structs) = _
          rw [hfind]
          rfl
        · intro z hz
          rw [List.mem_singleton.1 hz]
          exact hx
      · have hidx := List.idxOf_eq_length hx
        have heq : structs.findIdx (fun def_ => def_.metadata.qualifiedName = name G x) =
            structs.length := by omega
        obtain ⟨new, structs', happend, hadds⟩ := appendStructDef_adds ih hvalid hx (by omega)
        refine ⟨x :: new, structs', ?_, hadds⟩
        show (if structs.findIdx (fun def_ => def_.metadata.qualifiedName = name G x) =
          structs.length then _ else _ : SchemaM (Fin 65536)) structs = _
        rw [if_pos heq]
        show ((appendStructDef G (getStructDef G k) x structs).bind _) = _
        rw [happend]
        show some (Fin.ofNat 65536 (structs.findIdx fun def_ =>
          def_.metadata.qualifiedName = name G x), structs') = _
        rw [hfind]
        have hsame : (names structs').idxOf (name G x) = (names structs).idxOf (name G x) := by
          rw [hadds.names_eq, List.map_cons, List.idxOf_append_of_notMem hx, List.idxOf_cons_self,
            hidx]
          rfl
        rw [indexOf, hsame]

end

/-! ## The table -/

section

variable {G : Fin m → CppStruct m} {structs : List StructDef}

/-- An index does not wrap in a table of no more than 65536 structs. -/
theorem pointsAt_indexOf (hlength : structs.length ≤ 65536) {y : Fin m}
    (hy : name G y ∈ names structs) : PointsAt G structs (indexOf G (names structs) y) y := by
  have hlt := List.idxOf_lt_length_of_mem hy
  have hlt' : (names structs).idxOf (name G y) < structs.length := by
    rwa [names, List.length_map] at hlt
  have hval : (indexOf G (names structs) y).val = (names structs).idxOf (name G y) :=
    Nat.mod_eq_of_lt (by omega)
  have hget := List.getElem_idxOf hlt
  refine ⟨structs[(names structs).idxOf (name G y)], ?_, ?_⟩
  · rw [hval]
    exact List.getElem?_eq_getElem hlt'
  · have hmap : (names structs)[(names structs).idxOf (name G y)] =
        structs[(names structs).idxOf (name G y)].metadata.qualifiedName := List.getElem_map _
    exact hmap.symm.trans hget

theorem typeDescribes_typeDefOf (hlength : structs.length ≤ 65536) {t : CppType m}
    (ht : ∀ y ∈ typeRefs t, name G y ∈ names structs) :
    TypeDescribes G structs t (typeDefOf G (names structs) t) := by
  induction t with
  | basic type => exact rfl
  | struct y => exact ⟨pointsAt_indexOf hlength (ht y List.mem_cons_self), rfl⟩
  | bonded y => exact ⟨pointsAt_indexOf hlength (ht y List.mem_cons_self), rfl⟩
  | list element ih => exact ih ht
  | nullable element ih => exact ih ht
  | blob => exact rfl
  | set element => exact rfl
  | map key element ih => exact ⟨rfl, ih ht⟩

theorem describes_structDefOf (hlength : structs.length ≤ 65536) {x : Fin m}
    (hx : ∀ y ∈ refs (G x), name G y ∈ names structs) :
    Describes G structs x (structDefOf G (names structs) x) := by
  refine ⟨rfl, Option.isSome_map, fun y hy type htype => ?_, ?_⟩
  · obtain ⟨y', hy', rfl⟩ := Option.map_eq_some_iff.1 htype
    obtain rfl := Option.some.inj (hy.symm.trans hy')
    refine typeDescribes_typeDefOf hlength fun z hz => ?_
    rw [List.mem_singleton.1 hz]
    exact hx y (List.mem_append_left _ (Option.mem_toList.2 hy))
  · refine List.forall₂_map_right_iff.2 (List.forall₂_same.2 fun f hf => ⟨rfl, rfl, ?_⟩)
    refine typeDescribes_typeDefOf hlength fun y hy => ?_
    exact hx y (List.mem_append_right _ (List.mem_flatMap.2 ⟨f, hf, hy⟩))

end

/-- For types with no more than 65536 names the recursion comes to an end, and the table is complete. -/
theorem get_complete (G : Fin m → CppStruct m) (root : Fin m)
    (hcount : (Finset.univ.image fun x => (G x).metadata.qualifiedName).card ≤ 65536) :
    ∃ structs, get G root = some structs ∧ Complete G structs root := by
  have hvalid : Valid G ([] : List StructDef) := ⟨List.nodup_nil, nofun⟩
  obtain ⟨new, structs, happend, hadds⟩ := appendStructDef_adds (getStructDef_serves G m) hvalid
    (List.not_mem_nil : name G root ∉ names []) (by rw [List.length_nil]; omega)
  have hget : get G root = some structs := by
    show (appendStructDef G (getStructDef G m) root []).map Prod.snd = _
    rw [happend]
    rfl
  have heq : structs = (root :: new).map (structDefOf G (names structs)) := hadds.eq
  have hlength : structs.length ≤ 65536 := by
    have hsub : (names structs).toFinset ⊆ Finset.univ.image fun x => (G x).metadata.qualifiedName := by
      intro n hn
      obtain ⟨y, rfl⟩ := hadds.valid.range n (List.mem_toFinset.1 hn)
      exact Finset.mem_image_of_mem _ (Finset.mem_univ y)
    have hle := Finset.card_le_card hsub
    rw [List.toFinset_card_of_nodup hadds.valid.nodup, names, List.length_map] at hle
    omega
  have hdescribes {x : Fin m} (hx : x ∈ root :: new) :
      Describes G structs x (structDefOf G (names structs) x) :=
    describes_structDefOf hlength (hadds.refs x hx)
  have hmem {def_ : StructDef} (hdef : def_ ∈ structs) :
      ∃ x ∈ root :: new, structDefOf G (names structs) x = def_ := by
    rw [heq] at hdef
    exact List.mem_map.1 hdef
  refine ⟨structs, hget, ⟨_, ?_, hdescribes List.mem_cons_self⟩, fun def_ hdef => ?_,
    hadds.valid.nodup, fun hsame x hx => ?_⟩
  · rw [heq, List.map_cons, List.getElem?_cons_zero, ← List.map_cons, ← heq]
  · obtain ⟨x, hx, rfl⟩ := hmem hdef
    obtain ⟨z, hz, hneeds⟩ := hadds.needs x hx
    rw [List.mem_singleton.1 hz] at hneeds
    exact ⟨x, hneeds, hdescribes hx⟩
  · have hnames : name G x ∈ names structs := by
      induction hx with
      | refl => exact hadds.found root List.mem_cons_self
      | tail _ hstep ih =>
          next y x _ =>
          obtain ⟨def_, hdef, hname⟩ := List.mem_map.1 ih
          obtain ⟨y', hy', rfl⟩ := hmem hdef
          obtain ⟨x', hx', hxname⟩ := hsame y y' hname.symm x hstep
          have hfound := hadds.refs y' hy' x' hx'
          rw [name, ← hxname] at hfound
          exact hfound
    exact List.mem_map.1 hnames

/-- A list of nodes that is a tree as well: a struct with a base that refers to itself and to it. -/
def sampleGraph : Fin 2 → CppStruct 2 := fun x =>
  if x = 0 then
    { metadata := ⟨"Node", "test.Node", .optional⟩
      base := some 1
      fields := [⟨⟨"next", "", .optional⟩, 0, .nullable (.struct 0)⟩,
        ⟨⟨"children", "", .optional⟩, 1, .map .string (.list (.bonded 1))⟩]
      increasing := by decide }
  else
    { metadata := ⟨"Item", "test.Item", .optional⟩
      base := none
      fields := [⟨⟨"parent", "", .optional⟩, 7, .list (.struct 0)⟩]
      increasing := by decide }

theorem get_complete_sample :
    ∃ structs, get sampleGraph 0 = some structs ∧ Complete sampleGraph structs 0 :=
  get_complete sampleGraph 0 (by decide)

/-! ## Too many structs -/

section

variable {G : Fin m → CppStruct m} {structs : List StructDef}

theorem TypeDescribes.pointsAt {t : CppType m} {type : TypeDef 65536}
    (h : TypeDescribes G structs t type) {y : Fin m} (hy : y ∈ typeRefs t) :
    ∃ i, PointsAt G structs i y := by
  induction t generalizing type with
  | struct x =>
      rw [List.mem_singleton.1 hy]
      cases type with
      | struct i bondedType => exact ⟨i, h.1⟩
      | _ => exact h.elim
  | bonded x =>
      rw [List.mem_singleton.1 hy]
      cases type with
      | struct i bondedType => exact ⟨i, h.1⟩
      | _ => exact h.elim
  | list element ih =>
      cases type with
      | list type => exact ih h hy
      | _ => exact h.elim
  | nullable element ih =>
      cases type with
      | list type => exact ih h hy
      | _ => exact h.elim
  | map key element ih =>
      cases type with
      | map key' type => exact ih h.2 hy
      | _ => exact h.elim
  | _ => cases hy

theorem Describes.pointsAt {x : Fin m} {def_ : StructDef} (h : Describes G structs x def_) {y : Fin m}
    (hy : y ∈ refs (G x)) : ∃ i, PointsAt G structs i y := by
  rcases List.mem_append.1 hy with hy | hy
  · have hbase := Option.mem_toList.1 hy
    have hsome := h.base_isSome
    rw [Option.mem_def.1 hbase, Option.isSome_some] at hsome
    obtain ⟨type, htype⟩ := Option.isSome_iff_exists.1 hsome
    exact (h.base y hbase type htype).pointsAt List.mem_cons_self
  · obtain ⟨f, hf, hy⟩ := List.mem_flatMap.1 hy
    obtain ⟨i, hi, rfl⟩ := List.mem_iff_getElem.1 hf
    have hlength := h.fields.length_eq
    have hfield := h.fields.get hi (by omega)
    exact hfield.type.pointsAt hy

/-- More structs than there are indices cannot all be pointed at. -/
theorem not_complete_of_many {root : Fin m} (hinj : Function.Injective (name G))
    (hall : ∀ x, Needs G root x) (hm : 65536 < m) : ¬ Complete G structs root := by
  intro h
  have hentry (x : Fin m) : ∃ def_ ∈ structs, Describes G structs x def_ := by
    obtain ⟨def_, hdef, hname⟩ := h.all
      (fun x y hxy z hz => ⟨z, by rw [← hinj hxy]; exact hz, rfl⟩) x (hall x)
    obtain ⟨x', -, hdescribes⟩ := h.each def_ hdef
    have hx : name G x' = name G x := by
      rw [name, ← hdescribes.metadata]
      exact hname
    exact ⟨def_, hdef, hinj hx ▸ hdescribes⟩
  have hpoints (x : Fin m) : ∃ i, PointsAt G structs i x := by
    rcases Relation.ReflTransGen.cases_tail (hall x) with rfl | ⟨y, -, hy⟩
    · obtain ⟨def_, hdef, hdescribes⟩ := h.first
      exact ⟨0, def_, hdef, congrArg Metadata.qualifiedName hdescribes.metadata⟩
    · obtain ⟨def_, -, hdescribes⟩ := hentry y
      exact hdescribes.pointsAt hy
  choose f hf using hpoints
  have hinjective : Function.Injective f := by
    intro x y hxy
    obtain ⟨def_, hdef, hx⟩ := hf x
    obtain ⟨def_', hdef', hy⟩ := hf y
    rw [hxy, hdef'] at hdef
    obtain rfl := Option.some.inj hdef
    exact hinj (hx.symm.trans hy)
  have hcard := Fintype.card_le_of_injective f hinjective
  rw [Fintype.card_fin, Fintype.card_fin] at hcard
  omega

end

/-- Structs each of which has a field of the next one. -/
def chain (m : Nat) (i : Fin m) : CppStruct m where
  metadata := ⟨"", .ofList (List.replicate i.val 'a'), .optional⟩
  base := none
  fields := if h : i.val + 1 < m then [⟨⟨"next", "", .optional⟩, 0, .struct ⟨i.val + 1, h⟩⟩] else []
  increasing := by
    split
    · exact List.pairwise_singleton _ _
    · exact .nil

theorem chain_injective (m : Nat) : Function.Injective (name (chain m)) := by
  intro x y hxy
  have hlist := congrArg String.toList hxy
  have hlength := congrArg List.length hlist
  simp only [name, chain, String.toList_ofList, List.length_replicate] at hlength
  exact Fin.ext hlength

theorem chain_needs {m : Nat} (h : 0 < m) (k : Nat) (hk : k < m) :
    Needs (chain m) ⟨0, h⟩ ⟨k, hk⟩ := by
  induction k with
  | zero => exact .refl
  | succ k ih =>
      refine (ih (by omega)).tail ?_
      have hfields : (chain m ⟨k, by omega⟩).fields =
          [⟨⟨"next", "", .optional⟩, 0, .struct ⟨k + 1, hk⟩⟩] := dif_pos hk
      rw [refs, hfields]
      exact List.mem_append_right _ List.mem_cons_self

/-- The indices of 65537 structs do not fit in 16 bits. -/
theorem not_get_complete :
    ¬ ∀ (m : Nat) (G : Fin m → CppStruct m) (root : Fin m),
      ∃ structs, get G root = some structs ∧ Complete G structs root := by
  intro h
  obtain ⟨structs, -, hcomplete⟩ := h 65537 (chain 65537) ⟨0, by decide⟩
  exact not_complete_of_many (chain_injective 65537) (fun x => chain_needs (by decide) x.val x.isLt)
    (by decide) hcomplete

end Bond.Cpp.InitSchemaDef

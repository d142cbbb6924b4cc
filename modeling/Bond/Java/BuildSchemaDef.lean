import Mathlib.Data.Set.Card
import Bond.Java.BondTypes
import Bond.Lib.Interning

set_option autoImplicit false

/-! # Runtime schemas of Java structs

`StructBondType.buildSchemaDef` (java/core/src/main/java/org/bondlib). The ordinals of structs are
`int`s that are cast to `short`s, which is how Java keeps the `uint16`s of a schema, and are used as
such by the readers: `structs.get(typeDef.struct_def)`. -/

namespace Bond.Java.BuildSchemaDef

open Bond.Cpp (BondDataType BasicType)
open Interning

/-! ## Type descriptors -/

/-- A type descriptor, over `m` descriptors of structs. Each specialization of a struct has one:
    `equals` compares the classes and the arguments of the specialization. -/
inductive BondType (m : Nat) where
  | primitive (type : BasicType)
  | enum
  | blob
  | vector (elementType : BondType m)
  | list (elementType : BondType m)
  | set (elementType : BondType m)
  | map (keyType valueType : BondType m)
  | nullable (valueType : BondType m)
  | struct (index : Fin m)
  | bonded (index : Fin m)

def BondType.getBondDataType {m : Nat} : BondType m → BondDataType
  | .primitive type => .basic type
  | .enum => .basic .int32
  | .blob | .vector _ | .list _ | .nullable _ => .list
  | .set _ => .set
  | .map _ _ => .map
  | .struct _ | .bonded _ => .struct

/-- What `getDefaultValue` returns. -/
inductive DefaultValue where
  | null
  | primitive (value : Managed.BasicValue)
  | enum (value : Int32)

structure StructField (m : Nat) where
  fieldType : BondType m
  id : UInt16
  name : String
  modifier : Modifier
  isDefaultNothing : Bool
  getDefaultValue : DefaultValue

/-- The descriptor of a struct; `baseStructType` and the types of fields may refer back to it. -/
structure StructBondType (m : Nat) where
  getName : String
  getFullName : String
  baseStructType : Option (Fin m)
  structFields : List (StructField m)

/-! ## Schemas -/

/-- `TypeDef` -/
inductive TypeDef where
  | mk (id : BondDataType) (structDef : Int16) (element key : Option TypeDef) (bondedType : Bool)

structure Variant where
  uintValue : Int64
  intValue : Int64
  doubleValue : UInt64
  stringValue : List UInt16
  wstringValue : List UInt16
  nothing : Bool

def Variant.default : Variant := ⟨0, 0, 0, [], [], false⟩

structure FieldDef where
  name : String
  modifier : Modifier
  defaultValue : Variant
  id : UInt16
  type : TypeDef

structure StructDef where
  name : String
  qualifiedName : String
  baseDef : Option TypeDef
  fields : List FieldDef

structure SchemaDef where
  structs : List StructDef
  root : TypeDef

/-! ## `buildSchemaDef` -/

/-- `initializeSchemaVariantWithDefaultValue`. Unsigned integers are kept in signed types, whose sign
    `longValue` extends. -/
def initializeSchemaVariantWithDefaultValue {m : Nat} (field : StructField m) : Variant :=
  let variant := Variant.default
  if field.isDefaultNothing then
    { variant with nothing := true }
  else
    match field.fieldType.getBondDataType, field.getDefaultValue with
    | .basic .uint8, .primitive (.uint8 v) => { variant with uintValue := v.toInt8.toInt64 }
    | .basic .uint16, .primitive (.uint16 v) => { variant with uintValue := v.toInt16.toInt64 }
    | .basic .uint32, .primitive (.uint32 v) => { variant with uintValue := v.toInt32.toInt64 }
    | .basic .uint64, .primitive (.uint64 v) => { variant with uintValue := v.toInt64 }
    | .basic .int8, .primitive (.int8 v) => { variant with intValue := v.toInt64 }
    | .basic .int16, .primitive (.int16 v) => { variant with intValue := v.toInt64 }
    | .basic .int64, .primitive (.int64 v) => { variant with intValue := v }
    | .basic .int32, .enum v => { variant with intValue := v.toInt64 }
    | .basic .int32, .primitive (.int32 v) => { variant with intValue := v.toInt64 }
    | .basic .bool, .primitive (.bool v) => { variant with intValue := if v then 1 else 0 }
    | .basic .float, .primitive (.float bits) =>
        { variant with doubleValue := (Float32.ofBits bits).toFloat.toBits }
    | .basic .double, .primitive (.double bits) => { variant with doubleValue := bits }
    | .basic .string, .primitive (.string v) => { variant with stringValue := v }
    | .basic .wstring, .primitive (.wstring v) => { variant with wstringValue := v }
    | _, _ => variant

variable {m : Nat}

/-- What is done to `structDefMap`, which is given by its entries in the order in which they were put
    into it: the ordinal of an entry, the size of the map in front of it, is its place. -/
abbrev SchemaM (m : Nat) := TableM (Fin m) StructDef

section

variable (ordinal : Fin m → SchemaM m Nat)

/-- `createSchemaTypeDef`, given how to get the ordinal of a struct -/
def createSchemaTypeDef : BondType m → SchemaM m TypeDef
  | .primitive type => return .mk (.basic type) 0 none none false
  | .enum => return .mk (.basic .int32) 0 none none false
  | .blob => return .mk .list 0 (some (.mk (.basic .int8) 0 none none false)) none false
  | .vector elementType | .list elementType | .nullable elementType => do
      return .mk .list 0 (some (← createSchemaTypeDef elementType)) none false
  | .set elementType => do
      return .mk .set 0 (some (← createSchemaTypeDef elementType)) none false
  | .map keyType valueType => do
      return (fun element key => .mk .map 0 (some element) (some key) false)
        (← createSchemaTypeDef valueType) (← createSchemaTypeDef keyType)
  | .struct index => do return .mk .struct (Int16.ofNat (← ordinal index)) none none false
  | .bonded index => do return .mk .struct (Int16.ofNat (← ordinal index)) none none true

/-- The `base_def` of a struct -/
def createBaseDef : Option (Fin m) → SchemaM m (Option TypeDef)
  | none => return none
  | some base => do return some (← createSchemaTypeDef ordinal (.struct base))

/-- What `initializeSchemaStructDef` adds to a struct for a field -/
def createFieldDef (field : StructField m) : SchemaM m FieldDef := do
  return (fun type => ⟨field.name, field.modifier, initializeSchemaVariantWithDefaultValue field,
    field.id, type⟩) (← createSchemaTypeDef ordinal field.fieldType)

/-- `initializeSchemaStructDef` -/
def initializeSchemaStructDef (type : StructBondType m) : SchemaM m StructDef := do
  return (fun baseDef fields => ⟨type.getName, type.getFullName, baseDef, fields⟩)
    (← createBaseDef ordinal type.baseStructType)
    (← type.structFields.mapM (createFieldDef ordinal))

end

/-- The ordinal of a struct in `createSchemaTypeDef` of its descriptor, which makes its `StructDef`
    if there is none yet. -/
def structDefOrdinal (G : Fin m → StructBondType m) : Nat → Fin m → SchemaM m Nat :=
  intern id fun ordinal x => initializeSchemaStructDef ordinal (G x)

/-- `buildSchemaDef`, where the nesting of calls is bounded -/
def buildSchemaDef (G : Fin m → StructBondType m) (root : Fin m) : Option SchemaDef := do
  let (typeDef, structDefMap) ←
    (createSchemaTypeDef (structDefOrdinal G (m + 1)) (.struct root)).run []
  let structs ← structDefMap.mapM Entry.definition
  return ⟨structs, typeDef⟩

/-! ## Closed schemas -/

/-- The structs that a type refers to. -/
def typeRefs : BondType m → List (Fin m)
  | .struct y | .bonded y => [y]
  | .vector elementType | .list elementType | .set elementType | .nullable elementType =>
      typeRefs elementType
  | .map keyType valueType => typeRefs valueType ++ typeRefs keyType
  | .primitive _ | .enum | .blob => []

/-- The structs that a struct refers to. -/
def refs (type : StructBondType m) : List (Fin m) :=
  type.baseStructType.toList ++ type.structFields.flatMap fun field => typeRefs field.fieldType

section

variable (types : List (Fin m))

/-- `structs.get(struct_def)` is the entry of the struct `y`, where the entries are those of
    `types`. -/
def Denotes (structDef : Int16) (y : Fin m) : Prop :=
  0 ≤ structDef.toInt ∧ types[structDef.toInt.toNat]? = some y

/-- The `TypeDef` of a type -/
def TypeDescribes : BondType m → TypeDef → Prop
  | .primitive type, .mk id _ none none _ => id = .basic type
  | .enum, .mk id _ none none _ => id = .basic .int32
  | .blob, .mk id _ (some (.mk elementId _ none none _)) none _ =>
      id = .list ∧ elementId = .basic .int8
  | .vector elementType, .mk id _ (some element) none _
  | .list elementType, .mk id _ (some element) none _
  | .nullable elementType, .mk id _ (some element) none _ =>
      id = .list ∧ TypeDescribes elementType element
  | .set elementType, .mk id _ (some element) none _ =>
      id = .set ∧ TypeDescribes elementType element
  | .map keyType valueType, .mk id _ (some element) (some key) _ =>
      id = .map ∧ TypeDescribes keyType key ∧ TypeDescribes valueType element
  | .struct y, .mk id structDef none none bondedType =>
      id = .struct ∧ Denotes types structDef y ∧ bondedType = false
  | .bonded y, .mk id structDef none none bondedType =>
      id = .struct ∧ Denotes types structDef y ∧ bondedType = true
  | _, _ => False

/-- The `FieldDef` of a field -/
structure FieldDescribes (field : StructField m) (fieldDef : FieldDef) : Prop where
  name : fieldDef.name = field.name
  modifier : fieldDef.modifier = field.modifier
  defaultValue : fieldDef.defaultValue = initializeSchemaVariantWithDefaultValue field
  id : fieldDef.id = field.id
  type : TypeDescribes types field.fieldType fieldDef.type

/-- The `StructDef` of a struct. There is a `base_def` exactly if there is a base. -/
structure Describes (type : StructBondType m) (structDef : StructDef) : Prop where
  name : structDef.name = type.getName
  qualifiedName : structDef.qualifiedName = type.getFullName
  base_isSome : structDef.baseDef.isSome = type.baseStructType.isSome
  base : ∀ y ∈ type.baseStructType, ∀ baseDef ∈ structDef.baseDef,
    TypeDescribes types (.struct y) baseDef
  fields : List.Forall₂ (FieldDescribes types) type.structFields structDef.fields

end

/-- A schema that has one entry for each struct that is needed for `root`, those of `types`, and in
    which all types are found. -/
structure ClosedWith (G : Fin m → StructBondType m) (root : Fin m) (schemaDef : SchemaDef)
    (types : List (Fin m)) : Prop where
  nodup : types.Nodup
  mem_iff : ∀ y, y ∈ types ↔ Needs (fun x => refs (G x)) root y
  structs : List.Forall₂ (fun y structDef => Describes types (G y) structDef) types
    schemaDef.structs
  root : TypeDescribes types (.struct root) schemaDef.root

def Closed (G : Fin m → StructBondType m) (root : Fin m) (schemaDef : SchemaDef) : Prop :=
  ∃ types, ClosedWith G root schemaDef types

/-! ## What is built, by the places of the structs -/

def typeDefOf (place : Fin m → Nat) : BondType m → TypeDef
  | .primitive type => .mk (.basic type) 0 none none false
  | .enum => .mk (.basic .int32) 0 none none false
  | .blob => .mk .list 0 (some (.mk (.basic .int8) 0 none none false)) none false
  | .vector elementType | .list elementType | .nullable elementType =>
      .mk .list 0 (some (typeDefOf place elementType)) none false
  | .set elementType => .mk .set 0 (some (typeDefOf place elementType)) none false
  | .map keyType valueType =>
      .mk .map 0 (some (typeDefOf place valueType)) (some (typeDefOf place keyType)) false
  | .struct y => .mk .struct (Int16.ofNat (place y)) none none false
  | .bonded y => .mk .struct (Int16.ofNat (place y)) none none true

def fieldDefOf (place : Fin m → Nat) (field : StructField m) : FieldDef :=
  ⟨field.name, field.modifier, initializeSchemaVariantWithDefaultValue field, field.id,
    typeDefOf place field.fieldType⟩

def structDefOf (place : Fin m → Nat) (type : StructBondType m) : StructDef :=
  ⟨type.getName, type.getFullName,
    type.baseStructType.map fun base => typeDefOf place (.struct base),
    type.structFields.map (fieldDefOf place)⟩

section

variable {G : Fin m → StructBondType m} {place place' : Fin m → Nat}

theorem typeDefOf_congr {type : BondType m} (h : ∀ y ∈ typeRefs type, place y = place' y) :
    typeDefOf place type = typeDefOf place' type := by
  induction type with
  | primitive _ | enum | blob => rfl
  | vector elementType ih => rw [typeDefOf, typeDefOf, ih h]
  | list elementType ih => rw [typeDefOf, typeDefOf, ih h]
  | set elementType ih => rw [typeDefOf, typeDefOf, ih h]
  | nullable elementType ih => rw [typeDefOf, typeDefOf, ih h]
  | map keyType valueType ihkey ihvalue =>
      rw [typeDefOf, typeDefOf, ihkey fun y hy => h y (List.mem_append_right _ hy),
        ihvalue fun y hy => h y (List.mem_append_left _ hy)]
  | struct y => rw [typeDefOf, typeDefOf, h y List.mem_cons_self]
  | bonded y => rw [typeDefOf, typeDefOf, h y List.mem_cons_self]

theorem structDefOf_local :
    Local (fun x => refs (G x)) fun place x => structDefOf place (G x) := by
  intro x place place' h
  have hbase : ((G x).baseStructType.map fun base => typeDefOf place (.struct base))
      = (G x).baseStructType.map fun base => typeDefOf place' (.struct base) := by
    refine Option.map_congr fun y hy => typeDefOf_congr fun z hz => ?_
    rw [List.mem_singleton.1 hz]
    exact h y (List.mem_append_left _ (Option.mem_toList.2 hy))
  have hfields : (G x).structFields.map (fieldDefOf place)
      = (G x).structFields.map (fieldDefOf place') := by
    refine List.map_congr_left fun field hfield => ?_
    have htype : typeDefOf place field.fieldType = typeDefOf place' field.fieldType :=
      typeDefOf_congr fun y hy =>
        h y (List.mem_append_right _ (List.mem_flatMap.2 ⟨field, hfield, hy⟩))
    rw [fieldDefOf, fieldDefOf, htype]
  show structDefOf place (G x) = structDefOf place' (G x)
  rw [structDefOf, structDefOf, hbase, hfields]

/-! ## Every part of it collects its references -/

/-- The programs that get ordinals. -/
abbrev Builds {A : Type} (G : Fin m → StructBondType m)
    (op : (Fin m → SchemaM m Nat) → SchemaM m A) (roots : List (Fin m))
    (value : (Fin m → Nat) → A) : Prop :=
  Collects id (fun x => refs (G x)) (fun place x => structDefOf place (G x)) op roots value

theorem builds_createSchemaTypeDef (type : BondType m) :
    Builds G (fun ordinal => createSchemaTypeDef ordinal type) (typeRefs type)
      fun place => typeDefOf place type := by
  induction type with
  | primitive _ | enum | blob => exact .pure _
  | vector elementType ih => exact ih.map _
  | list elementType ih => exact ih.map _
  | set elementType ih => exact ih.map _
  | nullable elementType ih => exact ih.map _
  | map keyType valueType ihkey ihvalue => exact ihvalue.bind structDefOf_local ihkey _
  | struct y => exact (Collects.get y).map _
  | bonded y => exact (Collects.get y).map _

theorem builds_createBaseDef (baseStructType : Option (Fin m)) :
    Builds G (fun ordinal => createBaseDef ordinal baseStructType) baseStructType.toList
      fun place => baseStructType.map fun base => typeDefOf place (.struct base) := by
  cases baseStructType with
  | none => exact .pure none
  | some base => exact (builds_createSchemaTypeDef (.struct base)).map some

theorem builds_initializeSchemaStructDef (type : StructBondType m) :
    Builds G (fun ordinal => initializeSchemaStructDef ordinal type) (refs type)
      fun place => structDefOf place type := by
  have hfields : Builds G (fun ordinal => type.structFields.mapM (createFieldDef ordinal))
      (type.structFields.flatMap fun field => typeRefs field.fieldType)
      fun place => type.structFields.map (fieldDefOf place) :=
    Collects.mapM structDefOf_local type.structFields
      fun field _ => (builds_createSchemaTypeDef field.fieldType).map _
  exact (builds_createBaseDef type.baseStructType).bind structDefOf_local hfields _

end

/-! ## The schema -/

section

variable {G : Fin m → StructBondType m} {root : Fin m}

/-- The recursion comes to an end: `types` are the structs that are needed, and each is described by
    their places. -/
theorem buildSchemaDef_eq (G : Fin m → StructBondType m) (root : Fin m) :
    ∃ types : List (Fin m), types.Nodup ∧
      (∀ y, y ∈ types ↔ Needs (fun x => refs (G x)) root y) ∧
      buildSchemaDef G root = some
        ⟨types.map fun x => structDefOf (fun y => types.idxOf y) (G x),
          typeDefOf (fun y => types.idxOf y) (.struct root)⟩ := by
  obtain ⟨types, structDefMap, hintern, hadds⟩ := intern_empty
    (fun x => builds_initializeSchemaStructDef (G := G) (G x)) root
  have hnames : names structDefMap = types := by
    rw [hadds.names_eq, List.map_id]
    rfl
  have heq := hadds.eq
  rw [hnames, List.nil_append] at heq
  refine ⟨types, ?_, hadds.mem_iff fun _ _ _ _ h => h, ?_⟩
  · rw [← hnames]
    exact hadds.valid.nodup
  · rw [Fintype.card_fin, hnames] at hintern
    have hroot : (createSchemaTypeDef (structDefOrdinal G (m + 1)) (.struct root)).run []
        = some (typeDefOf (fun y => types.idxOf y) (.struct root), structDefMap) := by
      show (structDefOrdinal G (m + 1) root []).bind _ = _
      rw [structDefOrdinal, hintern]
      rfl
    rw [buildSchemaDef, hroot]
    show (structDefMap.mapM Entry.definition).bind _ = _
    rw [heq, mapM_definition]
    rfl

/-- An ordinal denotes its struct as long as it is not negative as a `short`. -/
theorem denotes_idxOf {types : List (Fin m)} (hlength : types.length ≤ 2 ^ 15) {y : Fin m}
    (hy : y ∈ types) : Denotes types (Int16.ofNat (types.idxOf y)) y := by
  have hlt := List.idxOf_lt_length_of_mem hy
  have hvalue : (Int16.ofNat (types.idxOf y)).toInt = types.idxOf y :=
    Int16.toInt_ofNat_of_lt (by omega)
  refine ⟨by rw [hvalue]; exact Int.natCast_nonneg _, ?_⟩
  rw [hvalue, Int.toNat_natCast, List.getElem?_eq_getElem hlt, List.getElem_idxOf hlt]

theorem typeDescribes_typeDefOf {types : List (Fin m)} (hlength : types.length ≤ 2 ^ 15)
    {type : BondType m} (h : ∀ y ∈ typeRefs type, y ∈ types) :
    TypeDescribes types type (typeDefOf (fun y => types.idxOf y) type) := by
  induction type with
  | primitive _ | enum => exact rfl
  | blob => exact ⟨rfl, rfl⟩
  | vector elementType ih => exact ⟨rfl, ih h⟩
  | list elementType ih => exact ⟨rfl, ih h⟩
  | set elementType ih => exact ⟨rfl, ih h⟩
  | nullable elementType ih => exact ⟨rfl, ih h⟩
  | map keyType valueType ihkey ihvalue =>
      exact ⟨rfl, ihkey fun y hy => h y (List.mem_append_right _ hy),
        ihvalue fun y hy => h y (List.mem_append_left _ hy)⟩
  | struct y => exact ⟨rfl, denotes_idxOf hlength (h y List.mem_cons_self), rfl⟩
  | bonded y => exact ⟨rfl, denotes_idxOf hlength (h y List.mem_cons_self), rfl⟩

theorem describes_structDefOf {types : List (Fin m)} (hlength : types.length ≤ 2 ^ 15)
    {type : StructBondType m} (h : ∀ y ∈ refs type, y ∈ types) :
    Describes types type (structDefOf (fun y => types.idxOf y) type) := by
  refine ⟨rfl, rfl, Option.isSome_map, fun y hy baseDef hbase => ?_, ?_⟩
  · obtain ⟨y', hy', rfl⟩ := Option.map_eq_some_iff.1 hbase
    obtain rfl := Option.some.inj (hy.symm.trans hy')
    refine typeDescribes_typeDefOf hlength fun z hz => ?_
    rw [List.mem_singleton.1 hz]
    exact h y (List.mem_append_left _ (Option.mem_toList.2 hy))
  · refine List.forall₂_map_right_iff.2 (List.forall₂_same.2 fun field hfield => ?_)
    refine ⟨rfl, rfl, rfl, rfl, typeDescribes_typeDefOf hlength fun y hy => ?_⟩
    exact h y (List.mem_append_right _ (List.mem_flatMap.2 ⟨field, hfield, hy⟩))

/-- Up to 32768 structs. -/
theorem closedWith_of_length_le {types : List (Fin m)} (hlength : types.length ≤ 2 ^ 15)
    (hnodup : types.Nodup) (hmem : ∀ y, y ∈ types ↔ Needs (fun x => refs (G x)) root y) :
    ClosedWith G root ⟨types.map fun x => structDefOf (fun y => types.idxOf y) (G x),
      typeDefOf (fun y => types.idxOf y) (.struct root)⟩ types := by
  refine ⟨hnodup, hmem, ?_, typeDescribes_typeDefOf hlength fun y hy => ?_⟩
  · refine List.forall₂_map_right_iff.2 (List.forall₂_same.2 fun x hx => ?_)
    refine describes_structDefOf hlength fun y hy => ?_
    exact (hmem y).2 (((hmem x).1 hx).tail hy)
  · rw [List.mem_singleton.1 hy]
    exact (hmem root).2 .refl

/-! ## Too many structs -/

/-- What describes a collection describes its elements. -/
theorem TypeDescribes.element {types : List (Fin m)} {type elementType : BondType m}
    {typeDef : TypeDef} (htype : type = .vector elementType ∨ type = .list elementType ∨
      type = .set elementType ∨ type = .nullable elementType)
    (h : TypeDescribes types type typeDef) :
    ∃ element, TypeDescribes types elementType element := by
  obtain ⟨id, structDef, element, key, bondedType⟩ := typeDef
  rcases htype with rfl | rfl | rfl | rfl <;> rcases element with _ | element <;>
    rcases key with _ | key <;> first | exact h.elim | exact ⟨element, h.2⟩

theorem TypeDescribes.denotes {types : List (Fin m)} {type : BondType m} {typeDef : TypeDef}
    (h : TypeDescribes types type typeDef) {y : Fin m} (hy : y ∈ typeRefs type) :
    ∃ structDef, Denotes types structDef y := by
  induction type generalizing typeDef with
  | primitive _ | enum | blob => cases hy
  | vector elementType ih =>
      obtain ⟨element, helement⟩ := h.element (.inl rfl)
      exact ih helement hy
  | list elementType ih =>
      obtain ⟨element, helement⟩ := h.element (.inr (.inl rfl))
      exact ih helement hy
  | set elementType ih =>
      obtain ⟨element, helement⟩ := h.element (.inr (.inr (.inl rfl)))
      exact ih helement hy
  | nullable elementType ih =>
      obtain ⟨element, helement⟩ := h.element (.inr (.inr (.inr rfl)))
      exact ih helement hy
  | map keyType valueType ihkey ihvalue =>
      obtain ⟨id, structDef, element, key, bondedType⟩ := typeDef
      rcases element with _ | element
      · exact h.elim
      rcases key with _ | key
      · exact h.elim
      rcases List.mem_append.1 hy with hy | hy
      · exact ihvalue h.2.2 hy
      · exact ihkey h.2.1 hy
  | struct x =>
      obtain ⟨id, structDef, element, key, bondedType⟩ := typeDef
      rw [List.mem_singleton.1 hy]
      rcases element with _ | element <;> rcases key with _ | key <;>
        first | exact h.elim | exact ⟨structDef, h.2.1⟩
  | bonded x =>
      obtain ⟨id, structDef, element, key, bondedType⟩ := typeDef
      rw [List.mem_singleton.1 hy]
      rcases element with _ | element <;> rcases key with _ | key <;>
        first | exact h.elim | exact ⟨structDef, h.2.1⟩

theorem Describes.denotes {types : List (Fin m)} {type : StructBondType m} {structDef : StructDef}
    (h : Describes types type structDef) {y : Fin m} (hy : y ∈ refs type) :
    ∃ structDef, Denotes types structDef y := by
  rcases List.mem_append.1 hy with hy | hy
  · have hbase := Option.mem_toList.1 hy
    have hsome := h.base_isSome
    rw [Option.mem_def.1 hbase, Option.isSome_some] at hsome
    obtain ⟨baseDef, hdef⟩ := Option.isSome_iff_exists.1 hsome
    exact (h.base y hbase baseDef hdef).denotes List.mem_cons_self
  · obtain ⟨field, hfield, hy⟩ := List.mem_flatMap.1 hy
    obtain ⟨i, hi, rfl⟩ := List.mem_iff_getElem.1 hfield
    have hlength := h.fields.length_eq
    exact (h.fields.get hi (by omega)).type.denotes hy

/-- There are 32768 `short`s that are not negative. -/
theorem ClosedWith.length_le {schemaDef : SchemaDef} {types : List (Fin m)}
    (h : ClosedWith G root schemaDef types) : types.length ≤ 2 ^ 15 := by
  have hdenotes (y : Fin m) (hy : y ∈ types) : ∃ structDef, Denotes types structDef y := by
    rcases Relation.ReflTransGen.cases_tail ((h.mem_iff y).1 hy) with rfl | ⟨x, hx, hstep⟩
    · exact h.root.denotes List.mem_cons_self
    · obtain ⟨i, hi, rfl⟩ := List.mem_iff_getElem.1 ((h.mem_iff x).2 hx)
      have hlength := h.structs.length_eq
      exact (h.structs.get hi (by omega)).denotes hstep
  by_contra hlong
  -- the struct whose place is 2 ^ 15 has no `short` of its own
  have hlt : 2 ^ 15 < types.length := by omega
  obtain ⟨structDef, hpos, hget⟩ := hdenotes types[2 ^ 15] (List.getElem_mem hlt)
  obtain ⟨hi, heq⟩ := List.getElem?_eq_some_iff.1 hget
  have hplace := (@List.Nodup.getElem_inj_iff _ types h.nodup _ hi _ hlt).1 heq
  have hbound := structDef.toInt_lt
  omega

/-- The recursion comes to an end, and the schema is closed if and only if no more than 32768
    structs are needed. -/
theorem closed_buildSchemaDef_iff (G : Fin m → StructBondType m) (root : Fin m) :
    (∃ schemaDef, buildSchemaDef G root = some schemaDef ∧ Closed G root schemaDef) ↔
      {y | Needs (fun x => refs (G x)) root y}.ncard ≤ 2 ^ 15 := by
  obtain ⟨types, hnodup, hmem, hbuild⟩ := buildSchemaDef_eq G root
  have hcard (types : List (Fin m)) (hnodup : types.Nodup)
      (hmem : ∀ y, y ∈ types ↔ Needs (fun x => refs (G x)) root y) :
      {y | Needs (fun x => refs (G x)) root y}.ncard = types.length := by
    have hset : {y | Needs (fun x => refs (G x)) root y} = (types.toFinset : Set (Fin m)) := by
      ext y
      rw [Finset.mem_coe, List.mem_toFinset]
      exact (hmem y).symm
    rw [hset, Set.ncard_coe_finset, List.toFinset_card_of_nodup hnodup]
  constructor
  · rintro ⟨schemaDef, -, types', hclosed⟩
    rw [hcard types' hclosed.nodup hclosed.mem_iff]
    exact hclosed.length_le
  · intro hle
    rw [hcard types hnodup hmem] at hle
    exact ⟨_, hbuild, types, closedWith_of_length_le hle hnodup hmem⟩

/-! ## A chain of structs -/

/-- Structs each of which has a field of the next one. -/
def chain (m : Nat) (i : Fin m) : StructBondType m where
  getName := ""
  getFullName := ""
  baseStructType := none
  structFields :=
    if h : i.val + 1 < m then [⟨.struct ⟨i.val + 1, h⟩, 0, "next", .optional, false, .null⟩] else []

theorem chain_needs {m : Nat} (h : 0 < m) (k : Nat) (hk : k < m) :
    Needs (fun x => refs (chain m x)) ⟨0, h⟩ ⟨k, hk⟩ := by
  induction k with
  | zero => exact .refl
  | succ k ih =>
      refine (ih (by omega)).tail ?_
      have hfields : (chain m ⟨k, by omega⟩).structFields
          = [⟨.struct ⟨k + 1, hk⟩, 0, "next", .optional, false, .null⟩] := dif_pos hk
      show _ ∈ refs (chain m ⟨k, _⟩)
      rw [refs, hfields]
      exact List.mem_append_right _ List.mem_cons_self

/-- The last of 32769 structs has a negative ordinal. -/
theorem not_closed_buildSchemaDef :
    ¬ ∀ (m : Nat) (G : Fin m → StructBondType m) (root : Fin m),
      ∃ schemaDef, buildSchemaDef G root = some schemaDef ∧ Closed G root schemaDef := by
  intro h
  obtain ⟨schemaDef, -, types, hclosed⟩ := h 32769 (chain 32769) ⟨0, by decide⟩
  have hle := hclosed.length_le
  have hall (y : Fin 32769) : y ∈ types := (hclosed.mem_iff y).2 (chain_needs (by decide) y y.isLt)
  have hcard : 32769 ≤ types.length := by
    have hsub : List.finRange 32769 ⊆ types := fun y _ => hall y
    have hlength := ((List.nodup_finRange 32769).subperm hsub).length_le
    rwa [List.length_finRange] at hlength
  omega

end

end Bond.Java.BuildSchemaDef

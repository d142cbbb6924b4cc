import Mathlib.Data.Set.Card
import Bond.Cpp.Types
import Bond.Lib.Interning

set_option autoImplicit false

/-! # Runtime schemas of C# types

`Schema<T>.Cache` (cs/src/core/Schema.cs) makes the runtime schema of a C# type by reflection. Structs
are looked up by the qualified names of their schemas, and their indices are cast to `ushort`. -/

namespace Bond.Cs.Schema

open Bond.Cpp (BondDataType BasicType)
open Interning

/-! ## Types -/

/-- The type of a schema field (`GetSchemaType`), over `m` types with a schema; an `enum` is an
    `int32`. -/
inductive FieldType (m : Nat) where
  | basic (type : BasicType)
  | blob
  | nullable (valueType : FieldType m)
  | list (valueType : FieldType m)
  | set (valueType : FieldType m)
  | map (key value : FieldType m)
  | struct (index : Fin m)
  | bonded (valueType : FieldType m)

inductive Modifier where
  | optional
  | required
  | requiredOptional
deriving DecidableEq, Repr

/-- `Metadata`, of a struct or of a field -/
structure Metadata where
  name : String
  qualifiedName : String
  attributes : List (String × String)
  modifier : Modifier
deriving DecidableEq, Repr

/-- A declared field or property -/
structure Member (m : Nat) where
  isPublic : Bool
  idAttribute : Option UInt16
  name : String
  attributes : List (String × String)
  modifier : Modifier
  schemaType : FieldType m

/-- A type with a schema -/
structure CsType (m : Nat) where
  schemaName : String
  schemaFullName : String
  attributes : List (String × String)
  baseSchemaType : Option (Fin m)
  declaredFields : List (Member m)
  declaredProperties : List (Member m)

/-- `ISchemaField` -/
structure SchemaField (m : Nat) where
  id : UInt16
  member : Member m

/-! ## Schemas -/

/-- `TypeDef`, whose structs are given by indices `I` -/
inductive TypeDef (I : Type) where
  | mk (id : BondDataType) (structDef : I) (element key : Option (TypeDef I)) (bondedType : Bool)

structure FieldDef (I : Type) where
  metadata : Metadata
  id : UInt16
  type : TypeDef I

structure StructDef (I : Type) where
  metadata : Metadata
  baseDef : Option (TypeDef I)
  fields : List (FieldDef I)

structure SchemaDef where
  structs : List (StructDef UInt16)
  root : TypeDef UInt16

/-! ## `Cache` -/

variable {m : Nat}

/-- `Reflection.GetSchemaFields` -/
def getSchemaFields (type : CsType m) : List (SchemaField m) :=
  let fields := type.declaredFields.filter Member.isPublic
  let members := (fields ++ type.declaredProperties).filterMap fun member =>
    member.idAttribute.map fun id => ⟨id, member⟩
  members.mergeSort fun a b => a.id ≤ b.id

/-- `GetMetadata` -/
def getMetadata (type : CsType m) : Metadata :=
  ⟨type.schemaName, type.schemaFullName, type.attributes, .optional⟩

/-- `GetFields`, without the default values -/
def getFields (type : CsType m) : List Metadata :=
  (getSchemaFields type).map fun field =>
    ⟨field.member.name, "", field.member.attributes, field.member.modifier⟩

/-- What is done to `Schema.structs`. Of an entry that is being filled only the name is looked at. -/
abbrev SchemaM := TableM String (StructDef UInt16)

section

variable (findStructDef : Fin m → SchemaM Nat)

/-- `GetTypeDef`, given how to find the index of a struct -/
def getTypeDef : FieldType m → SchemaM (TypeDef UInt16)
  | .basic type => return .mk (.basic type) 0 none none false
  | .blob => return .mk .list 0 (some (.mk (.basic .int8) 0 none none false)) none false
  | .nullable valueType | .list valueType => do
      return .mk .list 0 (some (← getTypeDef valueType)) none false
  | .set valueType => do
      return .mk .set 0 (some (← getTypeDef valueType)) none false
  | .map key value => do
      return (fun key element => .mk .map 0 (some element) (some key) false)
        (← getTypeDef key) (← getTypeDef value)
  | .struct index => do
      return .mk .struct (UInt16.ofNat (← findStructDef index)) none none false
  | .bonded valueType => do
      return (fun | .mk id structDef element key _ => .mk id structDef element key true)
        (← getTypeDef valueType)

/-- The `base_def` of a struct -/
def getBaseDef : Option (Fin m) → SchemaM (Option (TypeDef UInt16))
  | none => return none
  | some baseType => do return some (← getTypeDef findStructDef (.struct baseType))

/-- A turn of the loop over the fields of a struct -/
def getFieldDef (field : SchemaField m × Metadata) : SchemaM (FieldDef UInt16) := do
  return ⟨field.2, field.1.id, ← getTypeDef findStructDef field.1.member.schemaType⟩

/-- What `GetStructDef` fills in -/
def fillStructDef (type : CsType m) : SchemaM (StructDef UInt16) := do
  return (fun baseDef fields => ⟨getMetadata type, baseDef, fields⟩)
    (← getBaseDef findStructDef type.baseSchemaType)
    (← ((getSchemaFields type).zip (getFields type)).mapM (getFieldDef findStructDef))

end

/-- The index that `FindIndex` finds by the name of the schema, or that of the struct that
    `GetStructDef` adds if there is none -/
def findStructDef (G : Fin m → CsType m) : Nat → Fin m → SchemaM Nat :=
  intern (fun x => (G x).schemaFullName) fun findStructDef x => fillStructDef findStructDef (G x)

/-- The schema of a type, where the nesting of calls is bounded -/
def schema (G : Fin m → CsType m) (root : Fin m) : Option SchemaDef := do
  let (index, table) ← (findStructDef G (m + 1) root).run []
  let structs ← table.mapM Entry.definition
  return ⟨structs, .mk .struct (UInt16.ofNat index) none none false⟩

/-! ## Closed schemas -/

/-- The types with a schema that a type refers to. -/
def typeRefs : FieldType m → List (Fin m)
  | .struct y => [y]
  | .nullable valueType | .list valueType | .set valueType | .bonded valueType =>
      typeRefs valueType
  | .map key value => typeRefs key ++ typeRefs value
  | .basic _ | .blob => []

def refs (type : CsType m) : List (Fin m) :=
  type.baseSchemaType.toList ++
    (getSchemaFields type).flatMap fun field => typeRefs field.member.schemaType

section

variable (types : List (Fin m))

/-- The entry with this index is that of the type `y`, where the entries are those of `types`. -/
def Denotes (structDef : UInt16) (y : Fin m) : Prop :=
  types[structDef.toNat]? = some y

/-- The `TypeDef` of a type; `bondedType` says whether it is in a `bonded`. -/
def TypeDescribes : Bool → FieldType m → TypeDef UInt16 → Prop
  | bonded, .basic type, .mk id _ none none bondedType => id = .basic type ∧ bondedType = bonded
  | bonded, .blob, .mk id _ (some (.mk elementId _ none none _)) none bondedType =>
      id = .list ∧ elementId = .basic .int8 ∧ bondedType = bonded
  | bonded, .nullable valueType, .mk id _ (some element) none bondedType
  | bonded, .list valueType, .mk id _ (some element) none bondedType =>
      id = .list ∧ TypeDescribes false valueType element ∧ bondedType = bonded
  | bonded, .set valueType, .mk id _ (some element) none bondedType =>
      id = .set ∧ TypeDescribes false valueType element ∧ bondedType = bonded
  | bonded, .map key value, .mk id _ (some element) (some key') bondedType =>
      id = .map ∧ TypeDescribes false key key' ∧ TypeDescribes false value element ∧
        bondedType = bonded
  | bonded, .struct y, .mk id structDef none none bondedType =>
      id = .struct ∧ Denotes types structDef y ∧ bondedType = bonded
  | _, .bonded valueType, typeDef => TypeDescribes true valueType typeDef
  | _, _, _ => False

/-- The `FieldDef` of a field -/
structure FieldDescribes (field : SchemaField m) (fieldDef : FieldDef UInt16) : Prop where
  metadata : fieldDef.metadata =
    ⟨field.member.name, "", field.member.attributes, field.member.modifier⟩
  id : fieldDef.id = field.id
  type : TypeDescribes types false field.member.schemaType fieldDef.type

/-- The `StructDef` of a type. -/
structure Describes (type : CsType m) (structDef : StructDef UInt16) : Prop where
  metadata : structDef.metadata = getMetadata type
  base_isSome : structDef.baseDef.isSome = type.baseSchemaType.isSome
  base : ∀ y ∈ type.baseSchemaType, ∀ baseDef ∈ structDef.baseDef,
    TypeDescribes types false (.struct y) baseDef
  fields : List.Forall₂ (FieldDescribes types) (getSchemaFields type) structDef.fields
  ordered : structDef.fields.Pairwise fun f g => f.id ≤ g.id

end

/-- A schema that has one entry for each type that is needed for `root`, those of `types`, and in
    which all types are found. -/
structure ClosedWith (G : Fin m → CsType m) (root : Fin m) (schemaDef : SchemaDef)
    (types : List (Fin m)) : Prop where
  nodup : types.Nodup
  mem_iff : ∀ y, y ∈ types ↔ Needs (fun x => refs (G x)) root y
  structs : List.Forall₂ (fun y structDef => Describes types (G y) structDef) types
    schemaDef.structs
  root : TypeDescribes types false (.struct root) schemaDef.root

def Closed (G : Fin m → CsType m) (root : Fin m) (schemaDef : SchemaDef) : Prop :=
  ∃ types, ClosedWith G root schemaDef types

/-! ## What is made, by the places of the types -/

def TypeDef.asBonded : TypeDef UInt16 → TypeDef UInt16
  | .mk id structDef element key _ => .mk id structDef element key true

def typeDefOf (place : Fin m → Nat) : FieldType m → TypeDef UInt16
  | .basic type => .mk (.basic type) 0 none none false
  | .blob => .mk .list 0 (some (.mk (.basic .int8) 0 none none false)) none false
  | .nullable valueType | .list valueType =>
      .mk .list 0 (some (typeDefOf place valueType)) none false
  | .set valueType => .mk .set 0 (some (typeDefOf place valueType)) none false
  | .map key value =>
      .mk .map 0 (some (typeDefOf place value)) (some (typeDefOf place key)) false
  | .struct y => .mk .struct (UInt16.ofNat (place y)) none none false
  | .bonded valueType => (typeDefOf place valueType).asBonded

def fieldDefOf (place : Fin m → Nat) (field : SchemaField m × Metadata) : FieldDef UInt16 :=
  ⟨field.2, field.1.id, typeDefOf place field.1.member.schemaType⟩

def structDefOf (place : Fin m → Nat) (type : CsType m) : StructDef UInt16 :=
  ⟨getMetadata type, type.baseSchemaType.map fun baseType => typeDefOf place (.struct baseType),
    ((getSchemaFields type).zip (getFields type)).map (fieldDefOf place)⟩

section

variable {G : Fin m → CsType m} {place place' : Fin m → Nat}

theorem typeDefOf_congr {type : FieldType m} (h : ∀ y ∈ typeRefs type, place y = place' y) :
    typeDefOf place type = typeDefOf place' type := by
  induction type with
  | basic _ | blob => rfl
  | nullable valueType ih => rw [typeDefOf, typeDefOf, ih h]
  | list valueType ih => rw [typeDefOf, typeDefOf, ih h]
  | set valueType ih => rw [typeDefOf, typeDefOf, ih h]
  | bonded valueType ih => rw [typeDefOf, typeDefOf, ih h]
  | map key value ihkey ihvalue =>
      rw [typeDefOf, typeDefOf, ihkey fun y hy => h y (List.mem_append_left _ hy),
        ihvalue fun y hy => h y (List.mem_append_right _ hy)]
  | struct y => rw [typeDefOf, typeDefOf, h y List.mem_cons_self]

/-- The fields with what `GetFields` says of them. -/
theorem zip_getFields (type : CsType m) :
    (getSchemaFields type).zip (getFields type) = (getSchemaFields type).map fun field =>
      (field, ⟨field.member.name, "", field.member.attributes, field.member.modifier⟩) :=
  List.map_prod_left_eq_zip.symm

theorem structDefOf_local :
    Local (fun x => refs (G x)) fun place x => structDefOf place (G x) := by
  intro x place place' h
  have hbase : ((G x).baseSchemaType.map fun base => typeDefOf place (.struct base))
      = (G x).baseSchemaType.map fun base => typeDefOf place' (.struct base) := by
    refine Option.map_congr fun y hy => typeDefOf_congr fun z hz => ?_
    rw [List.mem_singleton.1 hz]
    exact h y (List.mem_append_left _ (Option.mem_toList.2 hy))
  have hfields : ((getSchemaFields (G x)).zip (getFields (G x))).map (fieldDefOf place)
      = ((getSchemaFields (G x)).zip (getFields (G x))).map (fieldDefOf place') := by
    refine List.map_congr_left fun field hfield => ?_
    have hmem := (List.of_mem_zip hfield).1
    have htype : typeDefOf place field.1.member.schemaType
        = typeDefOf place' field.1.member.schemaType :=
      typeDefOf_congr fun y hy =>
        h y (List.mem_append_right _ (List.mem_flatMap.2 ⟨field.1, hmem, hy⟩))
    rw [fieldDefOf, fieldDefOf, htype]
  show structDefOf place (G x) = structDefOf place' (G x)
  rw [structDefOf, structDefOf, hbase, hfields]

/-! ## Every part of it collects its references -/

def schemaFullName (G : Fin m → CsType m) (x : Fin m) : String :=
  (G x).schemaFullName

/-- The programs that find indices. -/
abbrev Builds {A : Type} (G : Fin m → CsType m) (op : (Fin m → SchemaM Nat) → SchemaM A)
    (roots : List (Fin m)) (value : (Fin m → Nat) → A) : Prop :=
  Collects (schemaFullName G) (fun x => refs (G x)) (fun place x => structDefOf place (G x)) op
    roots value

theorem builds_getTypeDef (type : FieldType m) :
    Builds G (fun findStructDef => getTypeDef findStructDef type) (typeRefs type)
      fun place => typeDefOf place type := by
  induction type with
  | basic _ | blob => exact .pure _
  | nullable valueType ih => exact ih.map _
  | list valueType ih => exact ih.map _
  | set valueType ih => exact ih.map _
  | bonded valueType ih => exact ih.map _
  | map key value ihkey ihvalue => exact ihkey.bind structDefOf_local ihvalue _
  | struct y => exact (Collects.get y).map _

theorem builds_getBaseDef (baseSchemaType : Option (Fin m)) :
    Builds G (fun findStructDef => getBaseDef findStructDef baseSchemaType) baseSchemaType.toList
      fun place => baseSchemaType.map fun baseType => typeDefOf place (.struct baseType) := by
  cases baseSchemaType with
  | none => exact .pure none
  | some baseType => exact (builds_getTypeDef (.struct baseType)).map some

theorem builds_fillStructDef (type : CsType m) :
    Builds G (fun findStructDef => fillStructDef findStructDef type) (refs type)
      fun place => structDefOf place type := by
  have hfields : Builds G
      (fun findStructDef =>
        ((getSchemaFields type).zip (getFields type)).mapM (getFieldDef findStructDef))
      (((getSchemaFields type).zip (getFields type)).flatMap fun field =>
        typeRefs field.1.member.schemaType)
      fun place => ((getSchemaFields type).zip (getFields type)).map (fieldDefOf place) :=
    Collects.mapM structDefOf_local ((getSchemaFields type).zip (getFields type))
      fun field _ => (builds_getTypeDef field.1.member.schemaType).map _
  have hrefs : ((getSchemaFields type).zip (getFields type)).flatMap
      (fun field => typeRefs field.1.member.schemaType)
      = (getSchemaFields type).flatMap fun field => typeRefs field.member.schemaType := by
    rw [zip_getFields, List.flatMap_map]
  rw [hrefs] at hfields
  exact (builds_getBaseDef type.baseSchemaType).bind structDefOf_local hfields _

/-! ## The schema -/

variable {root : Fin m}

/-- The recursion comes to an end. If the types that are needed have different names, `types` are
    these types, and each is described by their places. -/
theorem schema_eq (G : Fin m → CsType m) (root : Fin m)
    (hname : ∀ x y, Needs (fun x => refs (G x)) root x → Needs (fun x => refs (G x)) root y →
      (G x).schemaFullName = (G y).schemaFullName → x = y) :
    ∃ types : List (Fin m), types.Nodup ∧
      (∀ y, y ∈ types ↔ Needs (fun x => refs (G x)) root y) ∧
      schema G root = some
        ⟨types.map fun x => structDefOf
            (fun y => (types.map (schemaFullName G)).idxOf (schemaFullName G y)) (G x),
          .mk .struct (UInt16.ofNat ((types.map (schemaFullName G)).idxOf (schemaFullName G root)))
            none none false⟩ := by
  obtain ⟨types, table, hintern, hadds⟩ := intern_empty
    (fun x => builds_fillStructDef (G := G) (G x)) root
  have hnames : names table = types.map (schemaFullName G) := hadds.names_eq
  have heq := hadds.eq
  rw [hnames, List.nil_append] at heq
  refine ⟨types, ?_, hadds.mem_iff hname, ?_⟩
  · have hnodup := hadds.valid.nodup
    rw [hnames] at hnodup
    exact hnodup.of_map
  · rw [Fintype.card_fin, hnames] at hintern
    have hroot : (findStructDef G (m + 1) root).run []
        = some (indexOf (schemaFullName G) (types.map (schemaFullName G)) root, table) := hintern
    rw [schema, hroot]
    show (table.mapM Entry.definition).bind _ = _
    rw [heq, mapM_definition]
    rfl

/-- Where names differ, a type has the place of its name. -/
theorem idxOf_name {types : List (Fin m)}
    (hname : ∀ x ∈ types, ∀ y ∈ types, schemaFullName G x = schemaFullName G y → x = y) {y : Fin m}
    (hy : y ∈ types) :
    (types.map (schemaFullName G)).idxOf (schemaFullName G y) = types.idxOf y := by
  induction types with
  | nil => cases hy
  | cons x types ih =>
      rw [List.map_cons, List.idxOf_cons, List.idxOf_cons]
      by_cases hx : x = y
      · rw [hx, beq_self_eq_true, beq_self_eq_true, cond_true, cond_true]
      · have hne : schemaFullName G x ≠ schemaFullName G y :=
          fun heq => hx (hname x List.mem_cons_self y hy heq)
        rw [beq_false_of_ne hx, beq_false_of_ne hne, cond_false, cond_false,
          ih (fun x hx y hy => hname x (List.mem_cons_of_mem _ hx) y (List.mem_cons_of_mem _ hy))
            ((List.mem_cons.1 hy).resolve_left (Ne.symm hx))]

/-- An index denotes its type as long as it fits in a `ushort`. -/
theorem denotes_idxOf {types : List (Fin m)} (hlength : types.length ≤ 2 ^ 16) {y : Fin m}
    (hy : y ∈ types) : Denotes types (UInt16.ofNat (types.idxOf y)) y := by
  have hlt := List.idxOf_lt_length_of_mem hy
  have hvalue : (UInt16.ofNat (types.idxOf y)).toNat = types.idxOf y :=
    UInt16.toNat_ofNat_of_lt' (Nat.lt_of_lt_of_le hlt hlength)
  rw [Denotes, hvalue, List.getElem?_eq_getElem hlt, List.getElem_idxOf hlt]

theorem asBonded_asBonded (typeDef : TypeDef UInt16) :
    typeDef.asBonded.asBonded = typeDef.asBonded := by
  cases typeDef
  rfl

theorem typeDescribes_typeDefOf {types : List (Fin m)} (hlength : types.length ≤ 2 ^ 16)
    {type : FieldType m} (h : ∀ y ∈ typeRefs type, y ∈ types) :
    TypeDescribes types false type (typeDefOf (fun y => types.idxOf y) type) ∧
      TypeDescribes types true type (typeDefOf (fun y => types.idxOf y) type).asBonded := by
  induction type with
  | basic _ => exact ⟨⟨rfl, rfl⟩, rfl, rfl⟩
  | blob => exact ⟨⟨rfl, rfl, rfl⟩, rfl, rfl, rfl⟩
  | nullable valueType ih => exact ⟨⟨rfl, (ih h).1, rfl⟩, rfl, (ih h).1, rfl⟩
  | list valueType ih => exact ⟨⟨rfl, (ih h).1, rfl⟩, rfl, (ih h).1, rfl⟩
  | set valueType ih => exact ⟨⟨rfl, (ih h).1, rfl⟩, rfl, (ih h).1, rfl⟩
  | map key value ihkey ihvalue =>
      have hkey := ihkey fun y hy => h y (List.mem_append_left _ hy)
      have hvalue := ihvalue fun y hy => h y (List.mem_append_right _ hy)
      exact ⟨⟨rfl, hkey.1, hvalue.1, rfl⟩, rfl, hkey.1, hvalue.1, rfl⟩
  | struct y =>
      have hy := denotes_idxOf hlength (h y List.mem_cons_self)
      exact ⟨⟨rfl, hy, rfl⟩, rfl, hy, rfl⟩
  | bonded valueType ih =>
      have hvalue := (ih h).2
      rw [typeDefOf, asBonded_asBonded, TypeDescribes, TypeDescribes]
      exact ⟨hvalue, hvalue⟩

theorem pairwise_getSchemaFields (type : CsType m) :
    (getSchemaFields type).Pairwise fun f g => f.id ≤ g.id := by
  have hsorted := @List.pairwise_mergeSort (SchemaField m) (fun f g => decide (f.id ≤ g.id)) ?_ ?_
    (((type.declaredFields.filter Member.isPublic) ++ type.declaredProperties).filterMap
      fun member => member.idAttribute.map fun id => ⟨id, member⟩)
  · exact hsorted.imp fun h => of_decide_eq_true h
  · intro f g h hfg hgh
    exact decide_eq_true (UInt16.le_trans (of_decide_eq_true hfg) (of_decide_eq_true hgh))
  · intro f g
    rcases UInt16.le_total f.id g.id with h | h <;> simp [h]

theorem describes_structDefOf {types : List (Fin m)} (hlength : types.length ≤ 2 ^ 16)
    {type : CsType m} (h : ∀ y ∈ refs type, y ∈ types) :
    Describes types type (structDefOf (fun y => types.idxOf y) type) := by
  have hfields : (structDefOf (fun y => types.idxOf y) type).fields
      = (getSchemaFields type).map fun field => fieldDefOf (fun y => types.idxOf y)
        (field, ⟨field.member.name, "", field.member.attributes, field.member.modifier⟩) := by
    show ((getSchemaFields type).zip (getFields type)).map _ = _
    rw [zip_getFields, List.map_map]
    rfl
  refine ⟨rfl, Option.isSome_map, fun y hy baseDef hbase => ?_, ?_, ?_⟩
  · obtain ⟨y', hy', rfl⟩ := Option.map_eq_some_iff.1 hbase
    obtain rfl := Option.some.inj (hy.symm.trans hy')
    refine (typeDescribes_typeDefOf hlength fun z hz => ?_).1
    rw [List.mem_singleton.1 hz]
    exact h y (List.mem_append_left _ (Option.mem_toList.2 hy))
  · rw [hfields]
    refine List.forall₂_map_right_iff.2 (List.forall₂_same.2 fun field hfield => ?_)
    refine ⟨rfl, rfl, (typeDescribes_typeDefOf hlength fun y hy => ?_).1⟩
    exact h y (List.mem_append_right _ (List.mem_flatMap.2 ⟨field, hfield, hy⟩))
  · rw [hfields, List.pairwise_map]
    exact pairwise_getSchemaFields type

/-- For up to 65536 types with different names the recursion comes to an end, and the schema is
    closed. -/
theorem closed_schema (G : Fin m → CsType m) (root : Fin m)
    (hname : ∀ x y, Needs (fun x => refs (G x)) root x → Needs (fun x => refs (G x)) root y →
      (G x).schemaFullName = (G y).schemaFullName → x = y)
    (hcount : {y | Needs (fun x => refs (G x)) root y}.ncard ≤ 2 ^ 16) :
    ∃ schemaDef, schema G root = some schemaDef ∧ Closed G root schemaDef := by
  obtain ⟨types, hnodup, hmem, hschema⟩ := schema_eq G root hname
  have hset : {y | Needs (fun x => refs (G x)) root y} = (types.toFinset : Set (Fin m)) := by
    ext y
    rw [Finset.mem_coe, List.mem_toFinset]
    exact (hmem y).symm
  have hlength : types.length ≤ 2 ^ 16 := by
    rwa [hset, Set.ncard_coe_finset, List.toFinset_card_of_nodup hnodup] at hcount
  have hplace {y : Fin m} (hy : y ∈ types) :
      (types.map (schemaFullName G)).idxOf (schemaFullName G y) = types.idxOf y :=
    idxOf_name (fun x hx y hy => hname x y ((hmem x).1 hx) ((hmem y).1 hy)) hy
  have hroot : root ∈ types := (hmem root).2 .refl
  have hclosed {x y : Fin m} (hx : x ∈ types) (hy : y ∈ refs (G x)) : y ∈ types :=
    (hmem y).2 (((hmem x).1 hx).tail hy)
  refine ⟨_, hschema, types, hnodup, hmem, ?_, ?_⟩
  · refine List.forall₂_map_right_iff.2 (List.forall₂_same.2 fun x hx => ?_)
    have hlocal := structDefOf_local (G := G) x _ _ fun y hy => hplace (hclosed hx hy)
    have hdescribes := describes_structDefOf hlength fun y hy => hclosed hx hy
    exact (congrArg (Describes types (G x)) hlocal).mpr hdescribes
  · rw [hplace hroot]
    exact ⟨rfl, denotes_idxOf hlength hroot, rfl⟩

end

/-- A list of nodes that is a tree as well: a type with a base that refers to itself and to it. -/
def sampleGraph : Fin 2 → CsType 2 := fun x =>
  if x = 0 then
    { schemaName := "Node"
      schemaFullName := "test.Node"
      attributes := []
      baseSchemaType := some 1
      declaredFields := [⟨true, some 1, "next", [], .optional, .nullable (.struct 0)⟩]
      declaredProperties :=
        [⟨true, some 0, "children", [], .optional, .map (.basic .string) (.bonded (.struct 1))⟩] }
  else
    { schemaName := "Item"
      schemaFullName := "test.Item"
      attributes := []
      baseSchemaType := none
      declaredFields := [⟨true, some 7, "parent", [], .required, .list (.struct 0)⟩]
      declaredProperties := [] }

theorem closed_schema_sample :
    ∃ schemaDef, schema sampleGraph 0 = some schemaDef ∧ Closed sampleGraph 0 schemaDef := by
  have hname : ∀ x y : Fin 2,
      (sampleGraph x).schemaFullName = (sampleGraph y).schemaFullName → x = y := by decide
  refine closed_schema sampleGraph 0 (fun x y _ _ => hname x y) ?_
  refine Nat.le_trans (Set.ncard_le_ncard (Set.subset_univ _)) ?_
  rw [Set.ncard_univ, Nat.card_fin]
  decide

/-! ## Namesakes, and too many types -/

section

variable {G : Fin m → CsType m} {root : Fin m}

theorem mem_refs {type : CsType m} {member : Member m} {id : UInt16} {y : Fin m}
    (hmember : member ∈ type.declaredFields) (hpublic : member.isPublic = true)
    (hid : member.idAttribute = some id) (hy : y ∈ typeRefs member.schemaType) : y ∈ refs type := by
  refine List.mem_append_right _ (List.mem_flatMap.2 ⟨⟨id, member⟩, ?_, hy⟩)
  rw [getSchemaFields, List.mem_mergeSort]
  refine List.mem_filterMap.2 ⟨member, List.mem_append_left _ ?_, by rw [hid]; rfl⟩
  exact List.mem_filter.2 ⟨hmember, hpublic⟩

/-- There is one entry for each name. -/
theorem nodup_names {schemaDef : SchemaDef} (h : schema G root = some schemaDef) :
    (schemaDef.structs.map fun structDef => structDef.metadata.qualifiedName).Nodup := by
  obtain ⟨new, table, hintern, hadds⟩ := intern_empty
    (fun x => builds_fillStructDef (G := G) (G x)) root
  rw [Fintype.card_fin] at hintern
  have hroot : (findStructDef G (m + 1) root).run [] = some (_, table) := hintern
  have heq := hadds.eq
  rw [List.nil_append] at heq
  have hdefs : table.mapM Entry.definition
      = some (new.map fun x => structDefOf (indexOf (schemaFullName G) (names table)) (G x)) := by
    have hmap : (new.map (entryOf (schemaFullName G) (fun place x => structDefOf place (G x))
        (names table))).mapM Entry.definition
        = some (new.map fun x => structDefOf (indexOf (schemaFullName G) (names table)) (G x)) :=
      mapM_definition (names table) new
    rwa [← heq] at hmap
  rw [schema, hroot] at h
  change (table.mapM Entry.definition).bind _ = _ at h
  rw [hdefs] at h
  obtain rfl := Option.some.inj h
  have hnodup := hadds.valid.nodup
  rw [hadds.names_eq] at hnodup
  rw [List.map_map]
  exact hnodup

/-- The names of the entries are those of the types. -/
theorem ClosedWith.names_eq {schemaDef : SchemaDef} {types : List (Fin m)}
    (h : ClosedWith G root schemaDef types) :
    (schemaDef.structs.map fun structDef => structDef.metadata.qualifiedName)
      = types.map (schemaFullName G) := by
  have hstructs : List.Forall₂ (fun y structDef => structDef.metadata = getMetadata (G y)) types
    schemaDef.structs := h.structs.imp fun _ _ h => h.metadata
  clear h
  generalize schemaDef.structs = structs at hstructs ⊢
  induction hstructs with
  | nil => rfl
  | cons hhead _ ih =>
      rw [List.map_cons, List.map_cons, ih, hhead]
      rfl

/-- In a closed schema types with the same name are the same. -/
theorem eq_of_closed {schemaDef : SchemaDef} (hschema : schema G root = some schemaDef)
    (hclosed : Closed G root schemaDef) {x y : Fin m} (hx : Needs (fun x => refs (G x)) root x)
    (hy : Needs (fun x => refs (G x)) root y) (h : schemaFullName G x = schemaFullName G y) :
    x = y := by
  obtain ⟨types, htypes⟩ := hclosed
  have hnodup := nodup_names hschema
  rw [htypes.names_eq] at hnodup
  exact List.inj_on_of_nodup_map hnodup ((htypes.mem_iff x).2 hx) ((htypes.mem_iff y).2 hy) h

/-- What describes a container describes its elements. -/
theorem TypeDescribes.element {types : List (Fin m)} {type valueType : FieldType m} {bonded : Bool}
    {typeDef : TypeDef UInt16} (htype : type = .nullable valueType ∨ type = .list valueType ∨
      type = .set valueType)
    (h : TypeDescribes types bonded type typeDef) :
    ∃ element, TypeDescribes types false valueType element := by
  obtain ⟨id, structDef, element, key, bondedType⟩ := typeDef
  rcases htype with rfl | rfl | rfl <;> rcases element with _ | element <;>
    rcases key with _ | key <;> first | exact h.elim | exact ⟨element, h.2.1⟩

theorem TypeDescribes.denotes {types : List (Fin m)} {type : FieldType m} {bonded : Bool}
    {typeDef : TypeDef UInt16} (h : TypeDescribes types bonded type typeDef) {y : Fin m}
    (hy : y ∈ typeRefs type) : ∃ structDef, Denotes types structDef y := by
  induction type generalizing typeDef bonded with
  | basic _ | blob => cases hy
  | nullable valueType ih =>
      obtain ⟨element, helement⟩ := h.element (.inl rfl)
      exact ih helement hy
  | list valueType ih =>
      obtain ⟨element, helement⟩ := h.element (.inr (.inl rfl))
      exact ih helement hy
  | set valueType ih =>
      obtain ⟨element, helement⟩ := h.element (.inr (.inr rfl))
      exact ih helement hy
  | map key value ihkey ihvalue =>
      obtain ⟨id, structDef, element, key', bondedType⟩ := typeDef
      rcases element with _ | element
      · exact h.elim
      rcases key' with _ | key'
      · exact h.elim
      rcases List.mem_append.1 hy with hy | hy
      · exact ihkey h.2.1 hy
      · exact ihvalue h.2.2.1 hy
  | struct x =>
      obtain ⟨id, structDef, element, key, bondedType⟩ := typeDef
      rw [List.mem_singleton.1 hy]
      rcases element with _ | element <;> rcases key with _ | key <;>
        first | exact h.elim | exact ⟨structDef, h.2.1⟩
  | bonded valueType ih =>
      rw [TypeDescribes] at h
      exact ih h hy

theorem Describes.denotes {types : List (Fin m)} {type : CsType m} {structDef : StructDef UInt16}
    (h : Describes types type structDef) {y : Fin m} (hy : y ∈ refs type) :
    ∃ structDef, Denotes types structDef y := by
  rcases List.mem_append.1 hy with hy | hy
  · have hbase := Option.mem_toList.1 hy
    have hsome := h.base_isSome
    rw [Option.mem_def.1 hbase, Option.isSome_some] at hsome
    obtain ⟨baseDef, hdef⟩ := Option.isSome_iff_exists.1 hsome
    exact (h.base y hbase baseDef hdef).denotes List.mem_cons_self
  · obtain ⟨field, hfield, hy⟩ := List.mem_flatMap.1 hy
    obtain ⟨i, hi, rfl⟩ := List.mem_iff_getElem.1 hfield
    have hlength := h.fields.length_eq
    exact (h.fields.get hi (by omega)).type.denotes hy

/-- There are 65536 `ushort`s. -/
theorem ClosedWith.length_le {schemaDef : SchemaDef} {types : List (Fin m)}
    (h : ClosedWith G root schemaDef types) : types.length ≤ 2 ^ 16 := by
  have hdenotes (y : Fin m) (hy : y ∈ types) : ∃ structDef, Denotes types structDef y := by
    rcases Relation.ReflTransGen.cases_tail ((h.mem_iff y).1 hy) with rfl | ⟨x, hx, hstep⟩
    · exact h.root.denotes List.mem_cons_self
    · obtain ⟨i, hi, rfl⟩ := List.mem_iff_getElem.1 ((h.mem_iff x).2 hx)
      have hlength := h.structs.length_eq
      exact (h.structs.get hi (by omega)).denotes hstep
  by_contra hlong
  -- the type whose place is 2 ^ 16 has no `ushort` of its own
  have hlt : 2 ^ 16 < types.length := by omega
  obtain ⟨structDef, hget⟩ := hdenotes types[2 ^ 16] (List.getElem_mem hlt)
  obtain ⟨hi, heq⟩ := List.getElem?_eq_some_iff.1 hget
  have hplace := (@List.Nodup.getElem_inj_iff _ types h.nodup _ hi _ hlt).1 heq
  have hbound := structDef.toNat_lt
  omega

end

/-- Types each of which has a field of the next one. -/
def chain (m : Nat) (i : Fin m) : CsType m where
  schemaName := ""
  schemaFullName := .ofList (List.replicate i.val 'a')
  attributes := []
  baseSchemaType := none
  declaredFields :=
    if h : i.val + 1 < m then [⟨true, some 0, "next", [], .optional, .struct ⟨i.val + 1, h⟩⟩] else []
  declaredProperties := []

theorem chain_needs {m : Nat} (h : 0 < m) (k : Nat) (hk : k < m) :
    Needs (fun x => refs (chain m x)) ⟨0, h⟩ ⟨k, hk⟩ := by
  induction k with
  | zero => exact .refl
  | succ k ih =>
      have hfields : (chain m ⟨k, by omega⟩).declaredFields
          = [⟨true, some 0, "next", [], .optional, .struct ⟨k + 1, hk⟩⟩] := dif_pos hk
      have hmember := hfields ▸ List.mem_cons_self
      exact (ih (by omega)).tail (mem_refs hmember rfl rfl List.mem_cons_self)

/-- A type with fields of two types that have the same name. -/
def namesakes : Fin 3 → CsType 3 := fun x =>
  { schemaName := if x = 0 then "Outer" else "Box<list>"
    schemaFullName := if x = 0 then "test.Outer" else "test.Box<list>"
    attributes := []
    baseSchemaType := none
    declaredFields :=
      if x = 0 then
        [⟨true, some 0, "numbers", [], .optional, .struct 1⟩,
          ⟨true, some 1, "words", [], .optional, .struct 2⟩]
      else
        [⟨true, some 0, "value", [], .optional,
          .list (.basic (if x = 1 then .int32 else .string))⟩]
    declaredProperties := [] }

/-- Two types with one name have one entry, and 65537 types have no indices of their own. -/
theorem not_closed_schema :
    (¬ ∃ schemaDef, schema namesakes 0 = some schemaDef ∧ Closed namesakes 0 schemaDef) ∧
      ¬ ∃ schemaDef, schema (chain 65537) ⟨0, by decide⟩ = some schemaDef ∧
        Closed (chain 65537) ⟨0, by decide⟩ schemaDef := by
  constructor
  · rintro ⟨schemaDef, hschema, hclosed⟩
    have hnumbers : Needs (fun x => refs (namesakes x)) 0 1 :=
      .single (mem_refs List.mem_cons_self rfl rfl List.mem_cons_self)
    have hwords : Needs (fun x => refs (namesakes x)) 0 2 :=
      .single (mem_refs (List.mem_cons_of_mem _ List.mem_cons_self) rfl rfl List.mem_cons_self)
    have heq := eq_of_closed hschema hclosed hnumbers hwords rfl
    exact absurd heq (by decide)
  · rintro ⟨schemaDef, -, types, hclosed⟩
    have hle := hclosed.length_le
    have hall (y : Fin 65537) : y ∈ types :=
      (hclosed.mem_iff y).2 (chain_needs (by decide) y y.isLt)
    have hsub : List.finRange 65537 ⊆ types := fun y _ => hall y
    have hlength := ((List.nodup_finRange 65537).subperm hsub).length_le
    rw [List.length_finRange] at hlength
    omega

end Bond.Cs.Schema

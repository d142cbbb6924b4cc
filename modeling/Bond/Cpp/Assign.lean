import Bond.Cpp.Deserializer
import Bond.Cpp.ParserReports
import Bond.Lib.Hereditary

set_option autoImplicit false

/-! # What a deserialized variable holds

The value of a variable after a value of a payload has been assigned to it, given as a function of both;
and the values that are assigned on the way, each with the type that the payload's schema has for it and
the type of its variable. -/

namespace Bond.Cpp

variable {n m : Nat}

/-! ## Which values are assigned -/

/-- The structs from the root of a hierarchy down to `i`, if they are no more than `k`. -/
def SchemaDef.levelsWithin (S : SchemaDef n) : Nat → Fin n → List (Fin n)
  | 0, _ => []
  | k + 1, i =>
      match (S.structs i).baseDef with
      | none => [i]
      | some j => S.levelsWithin k j ++ [i]

/-- The structs from the root of a hierarchy down to `i`. -/
def SchemaDef.levels (S : SchemaDef n) (i : Fin n) : List (Fin n) :=
  S.levelsWithin n i

theorem SchemaDef.Hierarchy.levels_eq {S : SchemaDef n} {i : Fin n} {is : List (Fin n)}
    (h : S.Hierarchy i is) : S.levels i = is := by
  have hwithin {k : Nat} (hk : is.length ≤ k) : S.levelsWithin k i = is := by
    induction h generalizing k with
    | root h =>
        obtain ⟨k, rfl⟩ : ∃ k', k = k' + 1 := ⟨k - 1, by simp at hk; omega⟩
        rw [levelsWithin, h]
    | derived h _ ih =>
        rw [List.length_append, List.length_singleton] at hk
        obtain ⟨k, rfl⟩ : ∃ k', k = k' + 1 := ⟨k - 1, by omega⟩
        rw [levelsWithin, h]
        simp only [ih (by omega : _ ≤ k)]
  exact hwithin h.length_le

/-- Levels of a schema and of a C++ struct that belong together. If the schema has more levels the most
    derived ones are left over, if it has less the roots of the C++ hierarchy are. -/
def pairLevels {α β : Type} (is : List α) (xs : List β) : List (α × β) :=
  (is.take xs.length).zip (xs.drop (xs.length - is.length))

/-- How elements of the wire type `type` come to a container with elements of the type `X`, if they
    match: as `value<void>` or `value<T>`, and with which type. -/
def elementOf (time : SchemaTime) (element : TypeDef n) (X : CppType m) (type : BondDataType) :
    Option (SchemaTime × TypeDef n) :=
  if X.isNested then
    if type = element.id ∧ isElementMatching time element X then some (time, element) else none
  else
    match type with
    | .basic T => if isMatching (.basic T : TypeDef n) X then some (.compileTime, .basic T) else none
    | _ => none

/-- How a field of the payload comes to a transform, if the schema knows it. -/
def fieldType (time : SchemaTime) (fields : List (FieldDef n)) (id : UInt16) (type : BondDataType) :
    Option (SchemaTime × TypeDef n) :=
  match fields.find? fun field => field.id = id, type with
  | none, _ => none
  | some field, .basic T =>
      if time = .compileTime ∧ ¬ field.type.id.isBasic then none else some (.compileTime, .basic T)
  | some field, type => if field.type.id = type then some (time, field.type) else none

/-- The field that a field of the payload is assigned to, with the type in the schema. -/
def fieldOf (C : CppSchema m) (time : SchemaTime) (fields : List (FieldDef n)) (x : Fin m)
    (id : UInt16) (type : BondDataType) : Option (SchemaTime × TypeDef n × CppField m) := do
  let (time, type) ← fieldType time fields id type
  let head ← findField C x time id type
  return (time, type, head)

/-! ## What they are assigned -/

/-- The elements that a set gets. -/
def promotedItems (X : BasicType) (items : List Value) : List BasicValue :=
  items.filterMap fun
    | .basic v => some (v.promote X)
    | _ => none

/-- The bytes that a blob gets. -/
def itemBytes (items : List Value) : List UInt8 :=
  items.filterMap fun
    | .basic (.int8 v) => some v.toUInt8
    | _ => none

section

variable (debug : Bool) (S : SchemaDef n) (C : CppSchema m)

mutual

/-- A variable of the type `X` with the value `var`, after a value of a payload has been assigned to
    it. -/
def Value.assign : Value → SchemaTime → TypeDef n → CppType m → CppValue m → CppValue m
  | .basic v, time, type, X, var =>
      if isValueMatching time type X then
        match X with
        | .basic X => .basic (v.promote X)
        | _ => var
      else var
  | .list _ element items, time, type, X, var =>
      if isValueMatching time type X then
        match elementOf time type.element X.element element, X with
        | some (time, type), .list X =>
            .list (assignItems items time type X (resizeList X items.length var.items))
        | some (time, type), .nullable X =>
            .nullable (assignFirst items time type X (var.item.getD X.fresh))
        | some _, .blob => .blob (itemBytes items)
        | some _, .set X => .set ((promotedItems X items).foldl setInsert [])
        | _, _ => var
      else var
  | .map key element items, time, type, X, var =>
      if isValueMatching time type X then
        match X, key with
        | .map Y X, .basic K =>
            if isMatchingBasic K Y then
              match elementOf time type.element X element with
              | some (time, type) => .map (assignPairs items time type Y X [])
              | none => var
            else var
        | _, _ => var
      else var
  | .struct s, time, type, X, var =>
      if isValueMatching time type X then
        match X, type with
        | .struct x, .struct i _ =>
            s.assign time (pairLevels (S.levels i) (C.schemaDef.levels x)) var
        | .bonded _, _ => .bonded
        | _, _ => var
      else var
  | .bonded _, _, _, _, var => var

/-- Each item is assigned to an element of the list. -/
def assignItems :
    List Value → SchemaTime → TypeDef n → CppType m → List (CppValue m) → List (CppValue m)
  | v :: vs, time, type, X, item :: items =>
      v.assign time type X item :: assignItems vs time type X items
  | _, _, _, _, _ => []

/-- A nullable holds the first item. -/
def assignFirst :
    List Value → SchemaTime → TypeDef n → CppType m → CppValue m → Option (CppValue m)
  | [], _, _, _, _ => none
  | v :: _, time, type, X, item => some (v.assign time type X item)

def assignPairs : List (Value × Value) → SchemaTime → TypeDef n → BasicType → CppType m →
    List (BasicValue × CppValue m) → List (BasicValue × CppValue m)
  | (.basic k, v) :: kvs, time, type, Y, X, entries =>
      let key := k.promote Y
      let old := if debug then X.fresh else (assocGet BasicValue.sameKey key entries).getD X.fresh
      assignPairs kvs time type Y X
        (assocSet BasicValue.sameKey key (v.assign time type X old) entries)
  | _ :: kvs, time, type, Y, X, entries => assignPairs kvs time type Y X entries
  | [], _, _, _, _, entries => entries

/-- The fields of one level are assigned to the fields of the C++ struct `x`. -/
def assignFields :
    List (UInt16 × Value) → SchemaTime → Fin n → Fin m → CppValue m → CppValue m
  | [], _, _, _, var => var
  | (id, v) :: fs, time, i, x, var =>
      assignFields fs time i x
        (match fieldOf C time (S.structs i).fields x id v.typeId with
        | some (time, type, head) =>
            var.setField (x, id) (v.assign time type head.type (var.getField (x, id) head.type))
        | none => var)

/-- The levels of a struct are assigned one after the other. -/
def StructValue.assign :
    StructValue → SchemaTime → List (Fin n × Fin m) → CppValue m → CppValue m
  | .root fields, time, pairs, var =>
      match pairs[0]? with
      | some (i, x) => assignFields fields time i x var
      | none => var
  | .derived base fields, time, pairs, var =>
      match pairs[base.depth]? with
      | some (i, x) => assignFields fields time i x (base.assign time pairs var)
      | none => base.assign time pairs var

end

end

/-! ## Values within values -/

/-- A value of a payload, the type that the schema has for it, and the type of the variable it is
    assigned to. -/
structure Site (n m : Nat) where
  time : SchemaTime
  type : TypeDef n
  dest : CppType m
  value : Value

section

variable (S : SchemaDef n) (C : CppSchema m)

/-- The items that are read into a container of a type. -/
def itemsRead (X : CppType m) (items : List Value) : List Value :=
  match X with
  | .nullable _ => items.take 1
  | _ => items

/-- The fields of a struct that are assigned to fields of a C++ struct. -/
def fieldSites (time : SchemaTime) (p : (Fin n × Fin m) × Fields) : List (Site n m) :=
  p.2.filterMap fun f =>
    (fieldOf C time (S.structs p.1.1).fields p.1.2 f.1 f.2.typeId).map fun d =>
      ⟨d.1, d.2.1, d.2.2.type, f.2⟩

/-- The values that are assigned to a part of a variable when a value is assigned to it. -/
def Site.children (site : Site n m) : List (Site n m) :=
  if isValueMatching site.time site.type site.dest then
    match site.value, site.dest, site.type with
    | .list _ element items, X, type =>
        match elementOf site.time type.element X.element element with
        | some (time, type) => (itemsRead X items).map fun v => ⟨time, type, X.element, v⟩
        | none => []
    | .map (.basic K) element items, .map Y X, type =>
        match elementOf site.time type.element X element with
        | some (time, type) =>
            if isMatchingBasic K Y then items.map fun kv => ⟨time, type, X, kv.2⟩ else []
        | none => []
    | .struct s, .struct x, .struct i _ =>
        ((pairLevels (S.levels i) (C.schemaDef.levels x)).zip s.levels).flatMap
          (fieldSites S C site.time)
    | _, _, _ => []
  else []

end

end Bond.Cpp

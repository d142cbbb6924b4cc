import Bond.Java.BondTypes

set_option autoImplicit false

/-! # Values as objects of a type in Java

What is expected of the deserialization of a payload: the object of a type that a value is, with
structs cut to the levels and the fields of their types. -/

namespace Bond.Managed

open Bond.Cpp (BondDataType ListKind)
open Bond.Lib Bond.Java

/-- The levels of a struct type next to the first levels of a struct. -/
def matchLevels {β : Type} :
    List (List StructField) → List (List StructField → Option β) → Option (List β)
  | [], _ => some []
  | _ :: _, [] => none
  | structFields :: types, level :: levels => do
      let b ← level structFields
      let bs ← matchLevels types levels
      return b :: bs

section

variable (types : Nat → StructBondType) (F : TwoPass.Format WriterCall Int32)

mutual

/-- A value as an object of a type, if it has the type. Structs are cut to the levels of their type,
    and to the fields that it knows. -/
def Value.asType : BondType → Value → Option Object
  | .primitive type, .basic v => if v.type = type then some (.primitive v.onWire) else none
  | .blob, .blob element data => if element = .basic .int8 then some (.blob data) else none
  | .vector e, .list .list element items =>
      if element = e.getBondDataType then Object.collection <$> itemsAs e items else none
  | .list e, .list .list element items =>
      if element = e.getBondDataType then Object.collection <$> itemsAs e items else none
  | .set e, .list .set element items =>
      if element = e.getBondDataType then Object.collection <$> itemsAs e items else none
  | .map k e, .map key element items =>
      if key = k.getBondDataType ∧ element = e.getBondDataType then
        Object.map <$> pairsAs k e items
      else none
  | .nullable e, .list .list element items =>
      if element = e.getBondDataType then
        match itemsAs e items with
        | some [] => some .null
        | some [o] => some o
        | _ => none
      else none
  | .struct index, .struct s => Object.struct <$> matchLevels (types index).levels s.levelsAs
  | .struct index, .bonded s => Object.struct <$> matchLevels (types index).levels s.levelsAs
  | .bonded _, .struct s => some (.bonded ((Value.struct s).encode F))
  | .bonded _, .bonded s => some (.bonded ((Value.bonded s).encode F))
  | _, _ => none

def itemsAs (e : BondType) : List Value → Option (List Object)
  | [] => some []
  | v :: vs => do
      let o ← v.asType e
      let os ← itemsAs e vs
      return o :: os

def pairsAs (k e : BondType) : List (Value × Value) → Option (List (Object × Object))
  | [] => some []
  | (key, v) :: kvs => do
      let ko ← key.asType k
      let vo ← v.asType e
      let os ← pairsAs k e kvs
      return (ko, vo) :: os

/-- The known ones of the fields of a level, none of them twice. -/
def fieldsAs (structFields : List StructField) (seen : List UInt16) :
    List (UInt16 × Value) → Option (List (UInt16 × Object))
  | [] => some []
  | (id, v) :: fs =>
      match findField structFields id with
      | some field =>
          if id ∈ seen then none
          else do
            let o ← v.asType field.fieldType
            let os ← fieldsAs structFields (id :: seen) fs
            return (id, o) :: os
      | none => fieldsAs structFields seen fs

/-- The levels of a struct, each as the object of a level of a type with all required fields. -/
def StructValue.levelsAs :
    StructValue → List (List StructField → Option (List (UInt16 × Object)))
  | .root fields => [fun structFields => do
      let os ← fieldsAs structFields [] fields
      if verifyDeserialized structFields (os.map Prod.fst) then some os else none]
  | .derived base fields => base.levelsAs ++ [fun structFields => do
      let os ← fieldsAs structFields [] fields
      if verifyDeserialized structFields (os.map Prod.fst) then some os else none]

end

/-- The fields of a level as the object of a level of a type. -/
def levelAs (fields : Fields) (structFields : List StructField) :
    Option (List (UInt16 × Object)) := do
  let os ← fieldsAs types F structFields [] fields
  if verifyDeserialized structFields (os.map Prod.fst) then some os else none

end

variable {types : Nat → StructBondType} {F : TwoPass.Format WriterCall Int32}

theorem itemsAs_eq (e : BondType) (vs : List Value) :
    itemsAs types F e vs = vs.mapM (Value.asType types F e) := by
  induction vs with
  | nil => rfl
  | cons v vs ih => rw [itemsAs, ih, List.mapM_cons]

theorem pairsAs_eq (k e : BondType) (kvs : List (Value × Value)) :
    pairsAs types F k e kvs = kvs.mapM fun kv => do
      let ko ← kv.1.asType types F k
      let vo ← kv.2.asType types F e
      return (ko, vo) := by
  induction kvs with
  | nil => rfl
  | cons kv kvs ih =>
      rw [pairsAs, ih, List.mapM_cons]
      simp only [bind_assoc, pure_bind]

theorem StructValue.levelsAs_eq (s : StructValue) :
    s.levelsAs types F = s.levels.map (levelAs types F) := by
  induction s with
  | root fields => rfl
  | derived base fields ih => rw [levelsAs, ih, levels, List.map_append]; rfl

/-- A value that is an object of a type is tagged as one. -/
theorem Value.typeId_of_asType {T : BondType} {v : Value} {o : Object}
    (h : v.asType types F T = some o) : v.typeId = T.getBondDataType := by
  cases T <;> cases v with
  | list kind => cases kind <;> first | rfl | cases h
  | basic v =>
      first
      | cases h
      | rw [asType] at h
        split at h
        · next htype => rw [← htype]; rfl
        · cases h
  | _ => first | rfl | cases h

/-! ## The parts of an object -/

theorem exists_of_mapM {α β : Type} {f : α → Option β} {xs : List α} {bs : List β}
    (h : xs.mapM f = some bs) : ∀ x ∈ xs, ∃ b, f x = some b := by
  induction xs generalizing bs with
  | nil => simp
  | cons x xs ih =>
      rw [List.mapM_cons] at h
      obtain ⟨b, hb, h⟩ := Option.bind_eq_some_iff.1 h
      obtain ⟨bs', hbs, -⟩ := Option.bind_eq_some_iff.1 h
      intro y hy
      rcases List.mem_cons.1 hy with rfl | hy
      · exact ⟨b, hb⟩
      · exact ih hbs y hy

theorem matchLevels_length {β : Type} {Ls : List (List StructField)}
    {levels : List (List StructField → Option β)} {bs : List β}
    (h : matchLevels Ls levels = some bs) : Ls.length ≤ levels.length := by
  induction Ls generalizing levels bs with
  | nil => simp
  | cons L Ls ih =>
      cases levels with
      | nil => simp [matchLevels] at h
      | cons level levels =>
          rw [matchLevels] at h
          obtain ⟨b, -, h⟩ := Option.bind_eq_some_iff.1 h
          obtain ⟨bs', hbs, -⟩ := Option.bind_eq_some_iff.1 h
          have hle := ih hbs
          simpa using hle

/-- The levels of a struct that is an object of a struct type. -/
theorem matchLevels_of_asType {s : StructValue} {index : Nat} {o : Object}
    (h : (Value.struct s).asType types F (.struct index) = some o) :
    ∃ os, matchLevels (types index).levels (s.levels.map (levelAs types F)) = some os ∧
      o = .struct os := by
  rw [Value.asType, StructValue.levelsAs_eq] at h
  cases hos : matchLevels (types index).levels (s.levels.map (levelAs types F)) with
  | none => simp [hos] at h
  | some os =>
      rw [hos] at h
      cases h
      exact ⟨os, rfl, rfl⟩

/-- A `bonded` is written as the struct in it. -/
theorem asType_bonded (s : StructValue) (T : BondType) :
    (Value.bonded s).asType types F T = (Value.struct s).asType types F T := by
  cases T <;> rfl

/-- The items of a collection are objects of the type of its elements. -/
theorem exists_item_asType {e : BondType} {items : List Value} {os : List Object}
    (h : itemsAs types F e items = some os) {v : Value} (hv : v ∈ items) :
    ∃ o, v.asType types F e = some o := by
  rw [itemsAs_eq] at h
  exact exists_of_mapM h v hv

theorem exists_pair_asType {k e : BondType} {items : List (Value × Value)}
    {os : List (Object × Object)} (h : pairsAs types F k e items = some os)
    {kv : Value × Value} (hkv : kv ∈ items) :
    (∃ o, kv.1.asType types F k = some o) ∧
      ∃ o, kv.2.asType types F e = some o := by
  rw [pairsAs_eq] at h
  obtain ⟨_, ho⟩ := exists_of_mapM h kv hkv
  obtain ⟨mapEntryKey, hkey, ho⟩ := Option.bind_eq_some_iff.1 ho
  obtain ⟨mapEntryValue, hvalue, -⟩ := Option.bind_eq_some_iff.1 ho
  exact ⟨⟨mapEntryKey, hkey⟩, mapEntryValue, hvalue⟩

/-- What a list has to be to be an object of a type. -/
inductive ListAs (types : Nat → StructBondType) (F : TwoPass.Format WriterCall Int32)
    (items : List Value) (o : Object) : BondType → ListKind → BondType → Prop
  | vector (e : BondType) {os : List Object} (h : itemsAs types F e items = some os)
      (ho : o = .collection os) : ListAs types F items o (.vector e) .list e
  | list (e : BondType) {os : List Object} (h : itemsAs types F e items = some os)
      (ho : o = .collection os) : ListAs types F items o (.list e) .list e
  | set (e : BondType) {os : List Object} (h : itemsAs types F e items = some os)
      (ho : o = .collection os) : ListAs types F items o (.set e) .set e
  | nullable (e : BondType) {os : List Object} (h : itemsAs types F e items = some os)
      (ho : Value.asType types F (.nullable e) (.list .list e.getBondDataType items) = some o) :
      ListAs types F items o (.nullable e) .list e

theorem listAs_of_asType {T : BondType} {kind : ListKind} {element : BondDataType}
    {items : List Value} {o : Object}
    (h : (Value.list kind element items).asType types F T = some o) :
    ∃ e, element = e.getBondDataType ∧ ListAs types F items o T kind e := by
  have hcollection {e : BondType}
      (h : (if element = e.getBondDataType then
        Object.collection <$> itemsAs types F e items else none) = some o) :
      element = e.getBondDataType ∧
        ∃ os, itemsAs types F e items = some os ∧ o = .collection os := by
    split at h
    · next helement =>
        obtain ⟨os, hos, rfl⟩ := Option.map_eq_some_iff.1 h
        exact ⟨helement, os, hos, rfl⟩
    · cases h
  cases T with
  | vector e =>
      cases kind with
      | list =>
          obtain ⟨helement, os, hos, ho⟩ := hcollection h
          exact ⟨e, helement, .vector e hos ho⟩
      | set => cases h
  | list e =>
      cases kind with
      | list =>
          obtain ⟨helement, os, hos, ho⟩ := hcollection h
          exact ⟨e, helement, .list e hos ho⟩
      | set => cases h
  | set e =>
      cases kind with
      | list => cases h
      | set =>
          obtain ⟨helement, os, hos, ho⟩ := hcollection h
          exact ⟨e, helement, .set e hos ho⟩
  | nullable e =>
      cases kind with
      | list =>
          have hnullable := h
          rw [Value.asType] at h
          split at h
          · next helement =>
              subst helement
              cases hos : itemsAs types F e items with
              | none => rw [hos] at h; cases h
              | some os => exact ⟨e, rfl, .nullable e hos hnullable⟩
          · cases h
      | set => cases h
  | _ => cases kind <;> cases h

theorem mapAs_of_asType {T : BondType} {key element : BondDataType}
    {items : List (Value × Value)} {o : Object}
    (h : (Value.map key element items).asType types F T = some o) :
    ∃ k e os, T = .map k e ∧ key = k.getBondDataType ∧ element = e.getBondDataType ∧
      pairsAs types F k e items = some os ∧ o = .map os := by
  cases T with
  | map k e =>
      rw [Value.asType] at h
      split at h
      · next htypes =>
          obtain ⟨os, hos, rfl⟩ := Option.map_eq_some_iff.1 h
          exact ⟨k, e, os, rfl, htypes.1, htypes.2, hos, rfl⟩
      · cases h
  | _ => cases h

/-- A struct is read as a struct, or kept as a `bonded`. -/
theorem structAs_of_asType {T : BondType} {s : StructValue} {o : Object}
    (h : (Value.struct s).asType types F T = some o) :
    (∃ index os, T = .struct index ∧
      matchLevels (types index).levels (s.levels.map (levelAs types F)) = some os ∧
      o = .struct os) ∨
    ∃ index, T = .bonded index ∧ o = .bonded ((Value.struct s).encode F) := by
  cases T with
  | struct index =>
      obtain ⟨os, hos, rfl⟩ := matchLevels_of_asType h
      exact .inl ⟨index, os, rfl, hos, rfl⟩
  | bonded index =>
      rw [Value.asType] at h
      cases h
      exact .inr ⟨index, rfl, rfl⟩
  | _ => cases h

end Bond.Managed

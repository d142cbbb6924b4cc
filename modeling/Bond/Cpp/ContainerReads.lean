import Bond.Cpp.Assign

set_option autoImplicit false

/-! # Deserializing containers

What the container overloads do on the encoding of a container, given what `Deserialize` does on the
items. -/

namespace Bond.Cpp

open Decoder

variable {n m : Nat}

/-- What the deserializer relies on besides the grammar: a `blob` is read without looking at its
    items, and there is no value without bytes. -/
structure TaggedProtocol.Plain (P : TaggedProtocol) : Prop where
  write_int8 (v : Int8) : outputBytes (P.writer.write (.int8 v)) = [v.toUInt8]
  write_pos (v : BasicValue) : 0 < (outputBytes (P.writer.write v)).length

section

variable (P : TaggedProtocol)

/-! ## Loops -/

theorem decodes_skipElements {type : BondDataType} {items : List Value}
    (h : ∀ v ∈ items, v.typeId = type ∧ v.wellFormed = true) :
    Decodes (skipElements P.reader type items.length) (encodeItems P.writer items) (pure ()) := by
  rw [encodeItems_eq]
  refine Decodes.repeatN_discard items fun v hv => ?_
  obtain ⟨rfl, hwf⟩ := h v hv
  exact P.decodes_skip v hwf

theorem decodes_skipMapPairs {keyType type : BondDataType} {items : List (Value × Value)}
    (h : ∀ kv ∈ items, (kv.1.typeId = keyType ∧ kv.1.wellFormed = true) ∧
      kv.2.typeId = type ∧ kv.2.wellFormed = true) :
    Decodes (skipPairs P.reader keyType type items.length) (encodePairs P.writer items)
      (pure ()) := by
  rw [encodePairs_eq]
  refine Decodes.repeatN_discard items fun kv hkv => ?_
  obtain ⟨⟨rfl, hkey⟩, rfl, hvalue⟩ := h kv hkv
  exact (P.decodes_skip kv.1 hkey).bind_pure (P.decodes_skip kv.2 hvalue)

theorem decodes_deserializeBasic (X : BasicType) {v : BasicValue} (h : v.wellFormed = true) :
    Decodes (deserializeBasic P.reader v.type X) (outputBytes (P.writer.write v))
      (pure (v.promote X)) := by
  have hread := (P.decodes_read v h).map (BasicValue.promote X)
  rwa [map_pure] at hread

theorem decodes_insertElements (X : BasicType) {T : BasicType} {items : List Value}
    (h : ∀ v ∈ items, v.typeId = .basic T ∧ v.wellFormed = true) (acc : List BasicValue) :
    Decodes (insertElements P.reader T X items.length acc) (encodeItems P.writer items)
      (pure ((promotedItems X items).foldl setInsert acc)) := by
  induction items generalizing acc with
  | nil => exact Decodes.pure acc
  | cons v items ih =>
      obtain ⟨htype, hwf⟩ := h v List.mem_cons_self
      obtain ⟨x, rfl, rfl⟩ := Value.eq_basic_of_typeId htype
      rw [Value.wellFormed] at hwf
      have htail := ih (fun v hv => h v (List.mem_cons_of_mem _ hv)) (setInsert acc (x.promote X))
      rw [encodeItems, Value.encode, List.length_cons, insertElements]
      exact (decodes_deserializeBasic P X hwf).bind_pure htail

/-- The bytes of a list of `int8` are its items. -/
theorem encodeItems_int8 (hP : P.Plain) {items : List Value}
    (h : ∀ v ∈ items, v.typeId = .basic .int8) :
    encodeItems P.writer items = itemBytes items ∧ (itemBytes items).length = items.length := by
  induction items with
  | nil => exact ⟨rfl, rfl⟩
  | cons v items ih =>
      obtain ⟨hencode, hlength⟩ := ih fun v hv => h v (List.mem_cons_of_mem _ hv)
      obtain ⟨x, rfl, hx⟩ := Value.eq_basic_of_typeId (h v List.mem_cons_self)
      cases x with
      | int8 x =>
          rw [encodeItems, Value.encode, hP.write_int8, hencode]
          exact ⟨rfl, congrArg (· + 1) hlength⟩
      | _ => simp [BasicValue.type] at hx

/-! ## Items -/

variable (debug : Bool) (S : SchemaDef n) (C : CppSchema m)

/-- `deserialize` reads the value into a variable that holds `var`. -/
def ReadsInto (deserialize : SchemaTime → TypeDef n → CppType m → CppValue m → Reader (CppValue m))
    (site : Site n m) (var : CppValue m) : Prop :=
  Decodes (deserialize site.time site.type site.dest var) (site.value.encode P.writer)
    (pure (site.value.assign debug S C site.time site.type site.dest var))

/-- What a value of the type `Y` within a value for a variable of the type `X` is assigned to, if the
    variable holds `var`. A debug build starts with a new value for every key of a map. -/
def Holds (debug : Bool) (X : CppType m) (var : CppValue m) (Y : CppType m) (o : CppValue m) : Prop :=
  match X with
  | .list _ => o ∈ var.items ∨ o = Y.fresh
  | .nullable _ => o = var.item.getD Y.fresh
  | .map _ _ => debug = true → o = Y.fresh
  | .struct _ => ∃ key, o = var.getField key Y
  | _ => False

/-- `deserialize` reads the value into variables of the type `X`. -/
def Reads (deserialize : SchemaTime → TypeDef n → CppType m → CppValue m → Reader (CppValue m))
    (site : Site n m) : Prop :=
  ∀ var, Decodes (deserialize site.time site.type site.dest var) (site.value.encode P.writer)
    (pure (site.value.assign debug S C site.time site.type site.dest var))

variable {P debug S C}
  {deserialize : SchemaTime → TypeDef n → CppType m → CppValue m → Reader (CppValue m)}
  {time : SchemaTime} {type : TypeDef n} {X : CppType m}

theorem resizeList_length (X : CppType m) (size : Nat) (items : List (CppValue m)) :
    (resizeList X size items).length = size := by
  rw [resizeList, List.length_append, List.length_take, List.length_replicate]
  omega

theorem mem_resizeList {X : CppType m} {size : Nat} {items : List (CppValue m)} {o : CppValue m}
    (h : o ∈ resizeList X size items) : o ∈ items ∨ o = X.fresh := by
  rcases List.mem_append.1 h with h | h
  · exact .inl (List.mem_of_mem_take h)
  · exact .inr (List.eq_of_mem_replicate h)

theorem decodes_items {items : List Value} {old : List (CppValue m)}
    (hlength : old.length = items.length)
    (h : ∀ v ∈ items, ∀ o ∈ old, ReadsInto P debug S C deserialize ⟨time, type, X, v⟩ o) :
    Decodes (old.mapM (deserialize time type X)) (encodeItems P.writer items)
      (pure (assignItems debug S C items time type X old)) := by
  induction items generalizing old with
  | nil =>
      obtain rfl := List.length_eq_zero_iff.1 hlength
      rw [List.mapM_nil]
      exact Decodes.pure []
  | cons v items ih =>
      cases old with
      | nil => cases hlength
      | cons o old =>
          have hhead := h v List.mem_cons_self o List.mem_cons_self
          have htail := ih (Nat.succ.inj hlength) fun v hv o ho =>
            h v (List.mem_cons_of_mem _ hv) o (List.mem_cons_of_mem _ ho)
          rw [List.mapM_cons, encodeItems, assignItems]
          exact hhead.bind_pure (htail.bind_return _)

theorem decodes_mapElements {K Y : BasicType} {items : List (Value × Value)}
    (hkeys : ∀ kv ∈ items, kv.1.typeId = .basic K ∧ kv.1.wellFormed = true)
    (h : ∀ kv ∈ items, ∀ o, (debug = true → o = X.fresh) →
      ReadsInto P debug S C deserialize ⟨time, type, X, kv.2⟩ o)
    (entries : List (BasicValue × CppValue m)) :
    Decodes (deserializeMapElements P.reader debug deserialize K Y time type X items.length entries)
      (encodePairs P.writer items)
      (pure (assignPairs debug S C items time type Y X entries)) := by
  induction items generalizing entries with
  | nil => exact Decodes.pure entries
  | cons kv items ih =>
      obtain ⟨k, v⟩ := kv
      obtain ⟨htype, hwf⟩ := hkeys (k, v) List.mem_cons_self
      obtain ⟨x, rfl, rfl⟩ := Value.eq_basic_of_typeId htype
      rw [Value.wellFormed] at hwf
      have htail := ih (fun kv hkv => hkeys kv (List.mem_cons_of_mem _ hkv))
        fun kv hkv => h kv (List.mem_cons_of_mem _ hkv)
      rw [encodePairs, List.length_cons, deserializeMapElements, assignPairs, List.append_assoc,
        Value.encode]
      refine (decodes_deserializeBasic P Y hwf).bind_pure ?_
      have hvalue (old : CppValue m) := h (.basic x, v) List.mem_cons_self
        (if debug then X.fresh else old) fun hdebug => if_pos hdebug
      exact Decodes.bind_pure (hvalue _) (htail _)

/-! ## Elements -/

/-- Elements that do not match are skipped. -/
theorem decodes_elements_skip {items : List Value}
    (htypes : ∀ v ∈ items, v.typeId = type.id ∧ v.wellFormed = true)
    (hmatch : isElementMatching time type X.element = false)
    (htime : X.element.isNested = false → time = .compileTime) (var : CppValue m) :
    Decodes (deserializeElements P.reader deserialize time type X var items.length)
      (encodeItems P.writer items) (pure var) := by
  have hskip := (decodes_skipElements P htypes).bind_return fun _ => var
  cases X with
  | list X =>
      rw [CppType.element] at hmatch
      rw [deserializeElements, if_neg (by simp [hmatch])]
      exact hskip
  | nullable X =>
      rw [CppType.element] at hmatch
      have hnullable : isNullableMatching time type X = false := by
        cases time with
        | compileTime => exact hmatch
        | runtime =>
            rw [isElementMatching, CppType.isNested, Bool.or_eq_false_iff] at hmatch
            exact hmatch.2
      rw [deserializeElements, if_neg (by simp [hnullable]), if_neg (by simp [hmatch])]
      exact hskip
  | blob =>
      have hne : type ≠ .basic .int8 := by
        rintro rfl
        rw [htime rfl] at hmatch
        cases hmatch
      rw [deserializeElements, if_neg hne]
      exact hskip
  | set X =>
      cases type with
      | basic T =>
          have hne : ¬ isMatchingBasic T X = true := by
            rw [htime rfl] at hmatch
            exact Bool.eq_false_iff.1 hmatch
          rw [deserializeElements, if_neg hne]
          exact hskip
      | _ => exact hskip
  | _ => exact hskip

/-- A container that takes the items. -/
def assignElements (debug : Bool) (S : SchemaDef n) (C : CppSchema m) (items : List Value)
    (time : SchemaTime) (type : TypeDef n) (X : CppType m) (var : CppValue m) : CppValue m :=
  match X with
  | .list X => .list (assignItems debug S C items time type X (resizeList X items.length var.items))
  | .nullable X => .nullable (assignFirst debug S C items time type X (var.item.getD X.fresh))
  | .blob => .blob (itemBytes items)
  | .set X => .set ((promotedItems X items).foldl setInsert [])
  | _ => var

/-- Elements that match are read. The overload for lists reads no more than one of them into a
    nullable. -/
theorem decodes_elements_match (hP : P.Plain) {items : List Value}
    (htypes : ∀ v ∈ items, v.typeId = type.id ∧ v.wellFormed = true)
    (hmatch : isElementMatching time type X.element = true)
    (htime : X.element.isNested = false → time = .compileTime)
    (hone : ∀ E, X = .nullable E → time = .runtime → E.isBondType = true → items.length < 2)
    (var : CppValue m) (hitems : ∀ v ∈ itemsRead X items, ∀ o, Holds debug X var X.element o →
      ReadsInto P debug S C deserialize ⟨time, type, X.element, v⟩ o)
    (hX : X.isContainer = true) (hmap : ∀ Y E, X ≠ .map Y E) :
    Decodes (deserializeElements P.reader deserialize time type X var items.length)
      (encodeItems P.writer items) (pure (assignElements debug S C items time type X var)) := by
  cases X with
  | list X =>
      rw [CppType.element] at hmatch
      rw [deserializeElements, if_pos hmatch]
      exact (decodes_items (resizeList_length X items.length var.items) fun v hv o ho =>
        hitems v hv o (mem_resizeList ho)).bind_return CppValue.list
  | nullable X =>
      rw [CppType.element] at hmatch
      rw [deserializeElements, assignElements]
      cases items with
      | nil =>
          simp only [List.length_nil, if_true, if_pos hmatch, ite_self]
          exact Decodes.pure _
      | cons v items =>
          have hhead := hitems v (by simp [itemsRead]) (var.item.getD X.fresh) rfl
          have htail := decodes_skipElements P fun v hv => htypes v (List.mem_cons_of_mem _ hv)
          rw [encodeItems, assignFirst]
          simp only [List.length_cons, Nat.succ_ne_zero, if_false, Nat.add_sub_cancel,
            if_pos hmatch]
          by_cases hnullable : isNullableMatching time type X = true
          · rw [if_pos hnullable]
            exact Decodes.bind_pure hhead (htail.bind_return fun _ => _)
          · -- a struct and a `value<void>`
            rw [if_neg hnullable]
            cases time with
            | compileTime => exact absurd hmatch hnullable
            | runtime =>
                have hbond : X.isBondType = true := by
                  simp only [isElementMatching, CppType.isNested, Bool.or_eq_true] at hmatch
                  rcases hmatch with hbond | hcontainer
                  · exact hbond
                  · exact absurd hcontainer hnullable
                have hlt := hone X rfl rfl hbond
                obtain rfl : items = [] := by
                  rw [List.length_cons] at hlt
                  exact List.length_eq_zero_iff.1 (by omega)
                rw [encodeItems, List.append_nil]
                exact Decodes.bind_return hhead _
  | blob =>
      obtain rfl : type = .basic .int8 := by
        rw [htime rfl, CppType.element] at hmatch
        cases type with
        | basic T => cases T <;> first | rfl | cases hmatch
        | _ => cases hmatch
      obtain ⟨hencode, hlength⟩ := encodeItems_int8 P hP fun v hv => (htypes v hv).1
      have hread := InputBuffer.decodes_readBytes (itemBytes items)
      rw [deserializeElements, if_pos rfl, assignElements, hencode, ← hlength]
      exact hread.bind_return CppValue.blob
  | set X =>
      rw [htime rfl, CppType.element] at hmatch
      cases type with
      | basic T =>
          rw [isElementMatching, isMatching] at hmatch
          rw [deserializeElements, if_pos hmatch]
          exact (decodes_insertElements P X htypes []).bind_return CppValue.set
      | _ => cases hmatch
  | map Y X => exact absurd rfl (hmap Y X)
  | _ => cases hX

/-! ## Whole containers -/

/-- `DeserializeContainer` on a container of any element type. -/
theorem decodes_deserializeContainer (hP : P.Plain) {element : BondDataType} {items : List Value}
    (hlength : items.length < 2 ^ 32) (helement : element.isValue = true)
    (htypes : ∀ v ∈ items, v.typeId = element ∧ v.wellFormed = true)
    (hone : ∀ E, X = .nullable E → time = .runtime → E.isBondType = true → element = type.id →
      items.length < 2)
    (var : CppValue m)
    (hitems : ∀ time' type', elementOf time type X.element element = some (time', type') →
      ∀ v ∈ itemsRead X items, ∀ o, Holds debug X var X.element o →
        ReadsInto P debug S C deserialize ⟨time', type', X.element, v⟩ o)
    (hX : X.isContainer = true) (hmap : ∀ Y E, X ≠ .map Y E) :
    Decodes (deserializeContainer P.reader deserialize time type X var)
      (outputBytes (P.writer.writeContainerBegin (UInt32.ofNat items.length) element)
        ++ encodeItems P.writer items)
      (pure (match elementOf time type X.element element with
        | some (time', type') => assignElements debug S C items time' type' X var
        | none => var)) := by
  have hheader := P.decodes_containerBegin (UInt32.ofNat items.length) element helement
  rw [UInt32.toNat_ofNat_of_lt' hlength] at hheader
  refine hheader.bind_pure ?_
  have hskip := (decodes_skipElements P htypes).bind_return fun _ => var
  by_cases hnested : X.element.isNested = true
  · have htime : X.element.isNested = false → time = .compileTime := by simp [hnested]
    simp only [elementOf, if_pos hnested] at hitems ⊢
    by_cases htype : element = type.id
    · subst htype
      by_cases hmatch : isElementMatching time type X.element = true
      · simp only [hmatch, and_self, if_true] at hitems ⊢
        exact decodes_elements_match hP htypes hmatch htime
          (fun E hE hruntime hbond => hone E hE hruntime hbond rfl) var (hitems _ _ rfl) hX hmap
      · simp only [if_true, if_neg (not_and_of_not_right _ hmatch)]
        exact decodes_elements_skip htypes (by simpa using hmatch) htime var
    · simp only [if_neg htype, if_neg (not_and_of_not_left _ htype)]
      exact hskip
  · simp only [elementOf, if_neg hnested] at hitems ⊢
    cases element with
    | basic T =>
        by_cases hmatch : isElementMatching .compileTime (.basic T : TypeDef n) X.element = true
        · have hbasic : isMatching (.basic T : TypeDef n) X.element = true := hmatch
          simp only [if_pos hbasic] at hitems ⊢
          exact decodes_elements_match hP htypes hmatch (fun _ => rfl)
            (fun E _ hruntime => by cases hruntime) var (hitems _ _ rfl) hX hmap
        · have hbasic : ¬ isMatching (.basic T : TypeDef n) X.element = true := hmatch
          simp only [if_neg hbasic]
          exact decodes_elements_skip htypes (Bool.eq_false_iff.2 hmatch) (fun _ => rfl) var
    | _ => exact hskip

/-- `DeserializeMap` on a map of any key and value type. -/
theorem decodes_deserializeMap {Y K : BasicType} {element : BondDataType}
    {items : List (Value × Value)} (hlength : items.length < 2 ^ 32) (helement : element.isValue = true)
    (htypes : ∀ kv ∈ items, (kv.1.typeId = .basic K ∧ kv.1.wellFormed = true) ∧
      kv.2.typeId = element ∧ kv.2.wellFormed = true)
    (hitems : ∀ time' type', elementOf time type X element = some (time', type') →
      isMatchingBasic K Y = true → ∀ kv ∈ items, ∀ o, (debug = true → o = X.fresh) →
        ReadsInto P debug S C deserialize ⟨time', type', X, kv.2⟩ o)
    (var : CppValue m) :
    Decodes (deserializeMap P.reader debug deserialize time type Y X var)
      (outputBytes (P.writer.writeContainerBeginPair (UInt32.ofNat items.length) (.basic K) element)
        ++ encodePairs P.writer items)
      (pure (if isMatchingBasic K Y then
          match elementOf time type X element with
          | some (time', type') => .map (assignPairs debug S C items time' type' Y X [])
          | none => var
        else var)) := by
  have hheader := P.decodes_containerBeginPair (UInt32.ofNat items.length) (.basic K) element rfl
    helement
  rw [UInt32.toNat_ofNat_of_lt' hlength] at hheader
  refine hheader.bind_pure ?_
  have hskip := (decodes_skipMapPairs P htypes).bind_return fun _ => var
  have hread {time' : SchemaTime} {type' : TypeDef n}
      (h : elementOf time type X element = some (time', type')) (hkey : isMatchingBasic K Y = true) :=
    (decodes_mapElements (Y := Y) (fun kv hkv => (htypes kv hkv).1) (hitems time' type' h hkey)
      []).bind_return CppValue.map
  by_cases hnested : X.isNested = true
  · simp only [elementOf, if_pos hnested] at hread ⊢
    by_cases htype : element = type.id
    · subst htype
      by_cases hmatch : isElementMatching time type X = true ∧ isMatchingBasic K Y = true
      · simp only [mapByKey, hmatch.1, hmatch.2, and_self, if_true] at hread ⊢
        exact hread rfl trivial
      · simp only [mapByKey, if_true, if_neg hmatch, true_and]
        split_ifs with hkey helem
        · exact absurd ⟨helem, hkey⟩ hmatch
        · exact hskip
        · exact hskip
    · simp only [if_neg htype, if_neg (not_and_of_not_left _ htype), ite_self]
      exact hskip
  · simp only [elementOf, if_neg hnested] at hread ⊢
    cases element with
    | basic T =>
        by_cases hkey : isMatchingBasic K Y = true
        · by_cases hmatch : isElementMatching .compileTime (.basic T : TypeDef n) X = true
          · have hbasic : isMatching (.basic T : TypeDef n) X = true := hmatch
            simp only [if_pos hbasic] at hread
            simp only [mapByKey, if_pos (And.intro hmatch hkey), if_pos hkey, if_pos hbasic]
            exact hread rfl hkey
          · have hbasic : ¬ isMatching (.basic T : TypeDef n) X = true := hmatch
            simp only [mapByKey, if_neg (not_and_of_not_left _ hmatch), if_neg hbasic, ite_self]
            exact hskip
        · simp only [mapByKey, if_neg (not_and_of_not_right _ hkey), if_neg hkey]
          exact hskip
    | _ =>
        simp only [ite_self]
        exact hskip

end

end Bond.Cpp

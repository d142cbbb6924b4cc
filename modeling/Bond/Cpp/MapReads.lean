import Bond.Cpp.Keys
import Bond.Cpp.NullableReads

set_option autoImplicit false

/-! # Maps and sets with repeated keys

What `DeserializeMapElements` (cpp/inc/bond/core/value.h) leaves in a map when keys are repeated in
a payload. A release build assigns each value of a key to what the map has for the key, a debug
build makes a new value for it first: `To::Begin` asserts that an object has not been assigned to
yet. -/

namespace Bond.Cpp

open Decoder Hereditary InputBuffer

variable {n m : Nat}

/-! ## Values of a key -/

/-- The values that a map of a payload has for a key -/
def valuesOf (same : BasicValue → BasicValue → Bool) (Y : BasicType) (key : BasicValue)
    (items : List (Value × Value)) : List Value :=
  items.filterMap fun
    | (.basic k, v) => if same key (k.promote Y) then some v else none
    | _ => none

theorem valuesOf_cons (same : BasicValue → BasicValue → Bool) (Y : BasicType)
    (key k : BasicValue) (v : Value) (items : List (Value × Value)) :
    valuesOf same Y key ((.basic k, v) :: items) =
      if same key (k.promote Y) then v :: valuesOf same Y key items
      else valuesOf same Y key items := by
  by_cases h : same key (k.promote Y) = true <;> simp [valuesOf, h]

section

variable (debug : Bool) (S : SchemaDef n) (C : CppSchema m) (time : SchemaTime) (type : TypeDef n)
  (Y : BasicType) (X : CppType m)

/-- A key has what its values make of its entry, one after the other. -/
theorem assocGet_assignPairs (key : BasicValue) (items : List (Value × Value))
    (entries : List (BasicValue × CppValue m)) :
    assocGet BasicValue.sameKey key (assignPairs debug S C items time type Y X entries) =
      (valuesOf BasicValue.sameKey Y key items).foldl
        (fun old v => some (v.assign debug S C time type X
          (if debug then X.fresh else old.getD X.fresh)))
        (assocGet BasicValue.sameKey key entries) := by
  induction items generalizing entries with
  | nil => rw [assignPairs]; rfl
  | cons kv items ih =>
      obtain ⟨k, v⟩ := kv
      cases k with
      | basic k =>
          rw [assignPairs, ih, assocGet_assocSet BasicValue.sameKey_equivalence, valuesOf_cons]
          by_cases hkey : key.sameKey (k.promote Y) = true
          · -- the entries of equivalent keys are one entry
            have hentry : assocGet BasicValue.sameKey (k.promote Y) entries =
                assocGet BasicValue.sameKey key entries := by
              have hiff (e : BasicValue × CppValue m) :
                  (k.promote Y).sameKey e.1 = key.sameKey e.1 := Bool.eq_iff_iff.2
                ⟨BasicValue.sameKey_equivalence.trans hkey,
                  BasicValue.sameKey_equivalence.trans (BasicValue.sameKey_equivalence.symm hkey)⟩
              simp only [assocGet, hiff]
            rw [if_pos hkey, if_pos hkey, List.foldl_cons, hentry]
          · rw [if_neg hkey, if_neg hkey]
      | _ =>
          unfold assignPairs
          exact ih entries

/-- A debug build keeps the last value of a key. -/
theorem assocGet_assignPairs_debug (key : BasicValue) (items : List (Value × Value)) :
    assocGet BasicValue.sameKey key (assignPairs true S C items time type Y X []) =
      (valuesOf BasicValue.sameKey Y key items).getLast?.map fun v =>
        v.assign true S C time type X X.fresh := by
  rw [assocGet_assignPairs]
  rcases List.eq_nil_or_concat (valuesOf BasicValue.sameKey Y key items) with hnil | ⟨vs, v, hvs⟩
  · rw [hnil]
    rfl
  · rw [hvs]
    simp

/-! ## Keys of a map -/

/-- The keys of a map are promoted keys of the payload. -/
theorem assignPairs_keys {p : BasicValue → Prop} {items : List (Value × Value)}
    (hitems : ∀ k v, (Value.basic k, v) ∈ items → p (k.promote Y))
    {entries : List (BasicValue × CppValue m)} (hentries : ∀ e ∈ entries, p e.1) :
    ∀ e ∈ assignPairs debug S C items time type Y X entries, p e.1 := by
  induction items generalizing entries with
  | nil =>
      rw [assignPairs]
      exact hentries
  | cons kv items ih =>
      obtain ⟨k, v⟩ := kv
      have htail := fun k v hmem => hitems k v (List.mem_cons_of_mem _ hmem)
      cases k with
      | basic k =>
          rw [assignPairs]
          exact ih htail (assocSet_keys (hitems k v List.mem_cons_self) hentries)
      | _ =>
          unfold assignPairs
          exact ih htail hentries

end

/-! ## Values that are not merged -/

section

/-- Whether each value of a key that was `seen` before overwrites the one before. -/
def overwritesRepeated (time : SchemaTime) (type : TypeDef n) (Y : BasicType) (X : CppType m) :
    List BasicValue → List (Value × Value) → Bool
  | _, [] => true
  | seen, (.basic k, v) :: kvs =>
      (v.overwrites time type X || !seen.any (k.promote Y).sameKey)
        && overwritesRepeated time type Y X (k.promote Y :: seen) kvs
  | seen, _ :: kvs => overwritesRepeated time type Y X seen kvs

/-- A map is assigned a value that is merged with one that it has for the same key. -/
def Site.isMerging (site : Site n m) : Bool :=
  match site.value, site.dest with
  | .map (.basic K) element items, .map Y X =>
      isValueMatching site.time site.type site.dest && isMatchingBasic K Y &&
        match elementOf site.time site.type.element X element with
        | some (time, type) => !overwritesRepeated time type Y X [] items
        | none => false
  | _, _ => false

variable {S : SchemaDef n} {C : CppSchema m}

/-- Both builds assign the same for pairs with values for which they do. -/
theorem assignPairs_builds {time : SchemaTime} {type : TypeDef n} {Y : BasicType} {X : CppType m}
    {items : List (Value × Value)}
    (h : ∀ kv ∈ items, ∀ o,
      kv.2.assign true S C time type X o = kv.2.assign false S C time type X o)
    {seen : List BasicValue} (hrepeated : overwritesRepeated time type Y X seen items = true)
    {entries : List (BasicValue × CppValue m)} (hseen : ∀ e ∈ entries, e.1 ∈ seen) :
    assignPairs true S C items time type Y X entries =
      assignPairs false S C items time type Y X entries := by
  induction items generalizing seen entries with
  | nil => rw [assignPairs, assignPairs]
  | cons kv items ih =>
      obtain ⟨k, v⟩ := kv
      obtain ⟨hv, hitems⟩ := List.forall_mem_cons.1 h
      cases k with
      | basic k =>
          rw [overwritesRepeated, Bool.and_eq_true, Bool.or_eq_true, Bool.not_eq_true'] at hrepeated
          obtain ⟨hnew, hrepeated⟩ := hrepeated
          have hold : v.assign false S C time type X
              ((assocGet BasicValue.sameKey (k.promote Y) entries).getD X.fresh) =
                v.assign true S C time type X X.fresh := by
            rcases hnew with hover | hnew
            · rw [assign_of_overwrites false S C v time type X hover, hv]
            · have hnone : assocGet BasicValue.sameKey (k.promote Y) entries = none := by
                rw [assocGet, Option.map_eq_none_iff, List.find?_eq_none]
                intro e he
                exact List.any_eq_false.1 hnew e.1 (hseen e he)
              rw [hnone, Option.getD_none, hv]
          rw [assignPairs, assignPairs]
          simp only [if_true, Bool.false_eq_true, if_false, hold]
          refine ih hitems hrepeated (assocSet_keys (p := (· ∈ k.promote Y :: seen)) ?_ ?_)
          · exact List.mem_cons_self
          · exact fun e he => List.mem_cons_of_mem _ (hseen e he)
      | _ =>
          unfold overwritesRepeated at hrepeated
          unfold assignPairs
          exact ih hitems hrepeated hseen

theorem assignItems_builds {time : SchemaTime} {type : TypeDef n} {X : CppType m}
    {items : List Value}
    (h : ∀ v ∈ items, ∀ o, v.assign true S C time type X o = v.assign false S C time type X o)
    (old : List (CppValue m)) :
    assignItems true S C items time type X old = assignItems false S C items time type X old := by
  induction items generalizing old with
  | nil => cases old <;> rw [assignItems, assignItems] <;> simp
  | cons v items ih =>
      obtain ⟨hv, hitems⟩ := List.forall_mem_cons.1 h
      cases old with
      | nil => unfold assignItems; rfl
      | cons o old => rw [assignItems, assignItems, hv, ih hitems]

theorem assignLevels_builds {time : SchemaTime} {pairs : List (Fin n × Fin m)}
    {levels : List Fields}
    (h : ∀ c ∈ (pairs.zip levels).flatMap (fieldSites S C time), ∀ o,
      c.value.assign true S C c.time c.type c.dest o =
        c.value.assign false S C c.time c.type c.dest o)
    (var : CppValue m) :
    assignLevels true S C time pairs levels var = assignLevels false S C time pairs levels var := by
  have hfields {i : Fin n} {x : Fin m} {fs : Fields}
      (h : ∀ c ∈ fieldSites S C time ((i, x), fs), ∀ o,
        c.value.assign true S C c.time c.type c.dest o =
          c.value.assign false S C c.time c.type c.dest o) (var : CppValue m) :
      assignFields true S C fs time i x var = assignFields false S C fs time i x var := by
    induction fs generalizing var with
    | nil => rw [assignFields, assignFields]
    | cons f fs ih =>
        obtain ⟨id, v⟩ := f
        rw [assignFields, assignFields]
        cases hfield : fieldOf C time (S.structs i).fields x id v.typeId with
        | none =>
            rw [fieldSites, List.filterMap_cons_none (by rw [hfield]; rfl)] at h
            exact ih h var
        | some d =>
            rw [fieldSites, List.filterMap_cons_some (by rw [hfield]; rfl)] at h
            obtain ⟨hv, hrest⟩ := List.forall_mem_cons.1 h
            have hv := hv (var.getField (x, id) d.2.2.type)
            dsimp only at hv ⊢
            rw [hv]
            exact ih hrest _
  rw [assignLevels, assignLevels]
  generalize pairs.zip levels = ps at h
  induction ps generalizing var with
  | nil => rfl
  | cons p ps ih =>
      rw [List.flatMap_cons, List.forall_mem_append] at h
      rw [List.foldl_cons, List.foldl_cons, hfields h.1]
      exact ih _ h.2

/-- Without values that are merged both builds assign the same. -/
theorem assign_builds {site : Site n m}
    (h : Everywhere (Site.children S C) (fun s => ¬ s.isMerging = true) site) (var : CppValue m) :
    site.value.assign true S C site.time site.type site.dest var =
      site.value.assign false S C site.time site.type site.dest var := by
  induction h generalizing var with
  | @intro site hmerging _ ih =>
      obtain ⟨time, type, X, v⟩ := site
      dsimp only at ih ⊢
      by_cases hmatch : isValueMatching time type X = true
      · cases v with
        | basic v => unfold Value.assign; rfl
        | list kind element items =>
            rw [assign_list hmatch, assign_list hmatch]
            cases helement : elementOf time type.element X.element element with
            | none => rfl
            | some d =>
                have hitems : ∀ v ∈ itemsRead X items, ∀ o,
                    v.assign true S C d.1 d.2 X.element o =
                      v.assign false S C d.1 d.2 X.element o := by
                  intro v hv o
                  refine ih ⟨d.1, d.2, X.element, v⟩ ?_ o
                  simp only [Site.children, if_pos hmatch, helement]
                  exact List.mem_map_of_mem hv
                cases X with
                | list X => exact congrArg CppValue.list (assignItems_builds hitems _)
                | nullable X =>
                    cases items with
                    | nil => simp [assignElements, assignFirst]
                    | cons v items =>
                        have hv := hitems v (by simp [itemsRead]) (var.item.getD X.fresh)
                        simp only [assignElements, assignFirst]
                        exact congrArg (fun o => CppValue.nullable (some o)) hv
                | _ => rfl
        | map key element items =>
            unfold Value.assign
            rw [if_pos hmatch, if_pos hmatch]
            cases X with
            | map Y X =>
                cases key with
                | basic K =>
                    by_cases hkey : isMatchingBasic K Y = true
                    · simp only [if_pos hkey]
                      cases helement : elementOf time type.element X element with
                      | none => rfl
                      | some d =>
                          have hover : overwritesRepeated d.1 d.2 Y X [] items = true := by
                            simpa [Site.isMerging, hmatch, hkey, helement] using hmerging
                          refine congrArg CppValue.map (assignPairs_builds (fun kv hkv o => ?_)
                            hover (by simp))
                          refine ih ⟨d.1, d.2, X, kv.2⟩ ?_ o
                          simp only [Site.children, if_pos hmatch, helement, if_pos hkey]
                          exact List.mem_map_of_mem hkv
                    · simp only [if_neg hkey]
                | _ => rfl
            | _ => rfl
        | struct s =>
            unfold Value.assign
            rw [if_pos hmatch, if_pos hmatch]
            cases X with
            | struct x =>
                cases type with
                | struct i b =>
                    dsimp only
                    rw [StructValue.assign_eq, StructValue.assign_eq]
                    refine assignLevels_builds (fun c hc => ih c ?_) var
                    simp only [Site.children, if_pos hmatch]
                    exact hc
                | _ => rfl
            | _ => rfl
        | bonded payload => unfold Value.assign; rfl
      · unfold Value.assign
        cases v <;> simp only [if_neg hmatch]

end

/-! ## Assertions -/

section

variable (C : CppSchema m)

/-- `detail::OptionalDefault` at all levels of a struct: to their optional fields nothing has been
    assigned, structs apart. -/
def CppSchema.optionalDefault (x : Fin m) (var : CppValue m) : Bool :=
  (C.schemaDef.levels x).all fun y => (C.structs y).fields.all fun g =>
    decide (g.metadata.modifier ≠ .optional) || g.type.isBondType ||
      (assocGet (· == ·) (y, g.id) var.fields).isNone

/-- What `To::Begin` asserts for a variable -/
def CppSchema.assertBegin (X : CppType m) (var : CppValue m) : Bool :=
  match X with
  | .struct x => C.optionalDefault x var
  | _ => true

theorem assertBegin_fresh (X : CppType m) : C.assertBegin X X.fresh = true := by
  cases X with
  | struct x => simp [CppSchema.assertBegin, CppSchema.optionalDefault, CppType.fresh,
      CppValue.fields, assocGet]
  | _ => rfl

variable (R : ProtocolReader) (S : SchemaDef n)

/-- `Deserialize` in a debug build. `To::Begin` is called for all levels of a struct before a field
    is assigned, so its assertions are checked in front; where one fails the program ends. -/
def deserializeAsserting :
    Nat → SchemaTime → TypeDef n → CppType m → CppValue m → Reader (CppValue m)
  | 0, _, _, _, _ => bondThrow .undefinedBehavior
  | fuel + 1, time, type, X, var =>
      if C.assertBegin X var then
        deserializeValue R true S C (deserializeAsserting fuel) time type X var
      else
        bondThrow .undefinedBehavior

/-- `Deserialize` in a debug build, with the depth of the calls bounded as for `deserializeVar` -/
def deserializeVarAsserting (time : SchemaTime) (type : TypeDef n) (X : CppType m)
    (var : CppValue m) : Reader (CppValue m) := do
  let left ← remainingLength
  deserializeAsserting C R S (left + 1) time type X var

end

section

variable {P : TaggedProtocol} {S : SchemaDef n} {C : CppSchema m}

/-- Within a new variable of a debug build all variables are new. -/
theorem fresh_of_holds {X Y : CppType m} {o : CppValue m} (h : Holds true X X.fresh Y o) :
    o = Y.fresh := by
  cases X with
  | list X => exact h.resolve_left (by simp [CppType.fresh, CppValue.items])
  | nullable X => exact h
  | map Y X => exact h rfl
  | struct x =>
      obtain ⟨key, rfl⟩ := h
      exact CppType.fresh_getField _ Y key
  | _ => exact h.elim

/-- No assertion fails when a new variable is deserialized. -/
theorem readsInto_deserializeAsserting (hP : P.Plain) (hS : S.Grounded) (hC : C.schemaDef.Grounded)
    {site : Site n m}
    (h : Everywhere (Site.children S C) (fun s => s.Regular P S C ∧ ¬ s.isLossy = true) site)
    {fuel : Nat} (hfuel : (site.value.encode P.writer).length < fuel) :
    ReadsInto P true S C (deserializeAsserting C P.reader S fuel) site site.dest.fresh := by
  induction h generalizing fuel with
  | intro h _ ih =>
      obtain ⟨hregular, hlossy⟩ := h
      obtain ⟨fuel, rfl⟩ : ∃ k, fuel = k + 1 := ⟨fuel - 1, by omega⟩
      unfold ReadsInto
      rw [deserializeAsserting, if_pos (assertBegin_fresh C _)]
      refine readsInto_deserializeValue hP hS hC hregular.conforms hlossy hregular.wellFormed
        hregular.typeId _ fun c hc o ho => ?_
      obtain rfl := fresh_of_holds ho
      have hlt := Site.child_encode_length_lt P.writer hc
      exact ih c hc (by omega)

theorem decodes_deserializeVarAsserting (hP : P.Plain) (hS : S.Grounded)
    (hC : C.schemaDef.Grounded) {site : Site n m} (hwf : site.value.wellFormed = true)
    (htype : site.value.typeId = site.type.id)
    (h : Everywhere (Site.children S C)
      (fun s => s.conforms S C = true ∧ ¬ s.isLossy = true) site) :
    ReadsInto P true S C (deserializeVarAsserting C P.reader S) site site.dest.fresh := by
  intro b rest hb
  have hlt : (site.value.encode P.writer).length < 2 ^ 32 := by
    have hlength := InputBuffer.remaining_length_lt b
    rw [hb, List.length_append] at hlength
    omega
  have hregular := regular_of_conforms hwf htype hlt (h.mono fun _ h => h.1)
  refine InputBuffer.decodes_remainingLength (fun left hleft => ?_) b rest hb
  exact readsInto_deserializeAsserting hP hS hC (hregular.and (h.mono fun _ h => h.2))
    (Nat.lt_succ_of_le hleft)

end

/-! ## Sets -/

/-- An element is added at the end, or there is one already. -/
theorem setInsert_cases (items : List BasicValue) (v : BasicValue) :
    (setInsert items v = items ∧ ∃ w ∈ items, v.sameKey w = true) ∨
      (setInsert items v = items ++ [v] ∧ ∀ w ∈ items, v.sameKey w = false) := by
  rw [setInsert]
  by_cases hany : items.any v.sameKey = true
  · exact .inl ⟨if_pos hany, List.any_eq_true.1 hany⟩
  · exact .inr ⟨if_neg hany, by simpa using hany⟩

/-- A set has each element once that was inserted, and no other. -/
theorem foldl_setInsert_spec (items acc : List BasicValue)
    (hacc : acc.Pairwise fun v w => v.sameKey w = false) :
    (items.foldl setInsert acc).Pairwise (fun v w => v.sameKey w = false) ∧
      (∀ v ∈ items.foldl setInsert acc, v ∈ acc ∨ v ∈ items) ∧
      ∀ v, v ∈ acc ∨ v ∈ items → ∃ w ∈ items.foldl setInsert acc, v.sameKey w = true := by
  have hrefl := BasicValue.sameKey_equivalence.refl
  induction items generalizing acc with
  | nil => exact ⟨hacc, fun v hv => .inl hv, fun v hv => ⟨v, by simpa using hv, hrefl v⟩⟩
  | cons item items ih =>
      rw [List.foldl_cons]
      rcases setInsert_cases acc item with ⟨heq, w, hw, hsame⟩ | ⟨heq, hnew⟩
      · obtain ⟨hpairwise, hsound, hcomplete⟩ := ih acc hacc
        rw [heq]
        refine ⟨hpairwise, fun v hv => ?_, ?_⟩
        · exact (hsound v hv).imp_right (List.mem_cons_of_mem item)
        · rintro v (hv | hv)
          · exact hcomplete v (.inl hv)
          · rcases List.mem_cons.1 hv with rfl | hv
            · obtain ⟨u, hu, hwu⟩ := hcomplete w (.inl hw)
              exact ⟨u, hu, BasicValue.sameKey_equivalence.trans hsame hwu⟩
            · exact hcomplete v (.inr hv)
      · have hnext : (acc ++ [item]).Pairwise fun v w => v.sameKey w = false := by
          refine List.pairwise_append.2 ⟨hacc, List.pairwise_singleton _ _, fun v hv w hw => ?_⟩
          obtain rfl := List.mem_singleton.1 hw
          have hnot := Bool.eq_false_iff.1 (hnew v hv)
          exact Bool.eq_false_iff.2 fun h => hnot (BasicValue.sameKey_equivalence.symm h)
        obtain ⟨hpairwise, hsound, hcomplete⟩ := ih (acc ++ [item]) hnext
        rw [heq]
        refine ⟨hpairwise, fun v hv => ?_, fun v hv => hcomplete v ?_⟩
        · rcases hsound v hv with hv | hv
          · rcases List.mem_append.1 hv with hv | hv
            · exact .inl hv
            · exact .inr (List.mem_singleton.1 hv ▸ List.mem_cons_self)
          · exact .inr (List.mem_cons_of_mem item hv)
        · rcases hv with hv | hv
          · exact .inl (List.mem_append_left _ hv)
          · rcases List.mem_cons.1 hv with rfl | hv
            · exact .inl (List.mem_append_right _ List.mem_cons_self)
            · exact .inr hv

/-! ## Simple Binary -/

section

variable (version : SimpleBinary.Version)

/-- The loop for a set inserts what was written. -/
theorem decodes_simpleInsertElements {T : BasicType} (acc : List BasicValue)
    {items : List BasicValue} (h : ∀ v ∈ items, v.type = T ∧ v.wellFormed = true) :
    Decodes (SimpleBinary.insertElements version T items.length acc)
      (items.flatMap fun v => outputBytes (SimpleBinary.write version v))
      (pure (items.foldl setInsert acc)) := by
  induction items generalizing acc with
  | nil => exact Decodes.pure acc
  | cons v items ih =>
      obtain ⟨rfl, hwf⟩ := h v List.mem_cons_self
      have hrest := ih (setInsert acc v) fun w hw => h w (List.mem_cons_of_mem v hw)
      exact (SimpleBinary.decodes_read version v hwf).bind_pure hrest

/-- The loop for a map assigns what was written. -/
theorem decodes_simpleMapElements {K : BasicType} {deserialize : Reader CppObject}
    (enc : CppObject → List UInt8) (acc : List (BasicValue × CppObject))
    {entries : List (BasicValue × CppObject)}
    (hkeys : ∀ entry ∈ entries, entry.1.type = K ∧ entry.1.wellFormed = true)
    (h : ∀ entry ∈ entries, Decodes deserialize (enc entry.2) (pure entry.2)) :
    Decodes (SimpleBinary.deserializeMapElements version K deserialize entries.length acc)
      (entries.flatMap fun entry => outputBytes (SimpleBinary.write version entry.1) ++ enc entry.2)
      (pure (entries.foldl (fun acc entry => assocSet BasicValue.sameKey entry.1 entry.2 acc)
        acc)) := by
  induction entries generalizing acc with
  | nil => exact Decodes.pure acc
  | cons entry entries ih =>
      obtain ⟨k, o⟩ := entry
      obtain ⟨rfl, hwf⟩ := hkeys (k, o) List.mem_cons_self
      have hrest := ih (assocSet BasicValue.sameKey k o acc)
        (fun e he => hkeys e (List.mem_cons_of_mem _ he))
        fun e he => h e (List.mem_cons_of_mem _ he)
      rw [List.flatMap_cons, List.append_assoc]
      exact (SimpleBinary.decodes_read version k hwf).bind_pure
        ((h (k, o) List.mem_cons_self).bind_pure hrest)

/-- After assignments to the entries of keys the last one of a key is what it has. -/
theorem assocGet_foldl_assocSet {V : Type} (key : BasicValue)
    (entries acc : List (BasicValue × V)) :
    assocGet BasicValue.sameKey key
        (entries.foldl (fun acc entry => assocSet BasicValue.sameKey entry.1 entry.2 acc) acc) =
      ((entries.filter fun entry => key.sameKey entry.1).getLast?.map Prod.snd).or
        (assocGet BasicValue.sameKey key acc) := by
  induction entries generalizing acc with
  | nil => simp
  | cons entry entries ih =>
      rw [List.foldl_cons, ih, assocGet_assocSet BasicValue.sameKey_equivalence]
      by_cases hkey : key.sameKey entry.1 = true
      · rw [if_pos hkey, List.filter_cons, if_pos hkey, List.getLast?_cons]
        cases (entries.filter fun entry => key.sameKey entry.1).getLast? <;> rfl
      · rw [if_neg hkey, List.filter_cons, if_neg hkey]

variable {C : CppSchema m} {X : CppType m} {d : Nat}

theorem decodes_deserializeObject_set {T : BasicType} {items : List BasicValue}
    (hlength : items.length < 2 ^ 32) (h : ∀ v ∈ items, v.type = T ∧ v.wellFormed = true)
    (fuel : Nat) :
    Decodes (deserializeObject C version (fuel + 1) (.set T))
      (outputBytes (SimpleBinary.writeSize version (UInt32.ofNat items.length))
        ++ items.flatMap fun v => outputBytes (SimpleBinary.write version v))
      (pure (.set (items.foldl setInsert []))) := by
  have hitems := decodes_simpleInsertElements version [] h
  rw [deserializeObject]
  exact (SimpleBinary.decodes_readSize version _ hlength).bind_pure
    (hitems.bind_return CppObject.set)

theorem decodes_deserializeObject_map {K : BasicType} {entries : List (BasicValue × CppObject)}
    {bytes : List UInt8} (hlength : entries.length < 2 ^ 32)
    (hkeys : ∀ entry ∈ entries, entry.1.type = K ∧ entry.1.wellFormed = true)
    (htype : ∀ entry ∈ entries, C.HasType d X entry.2)
    (hbytes : serializeEntries version entries = some bytes) {fuel : Nat} (hfuel : d ≤ fuel) :
    Decodes (deserializeObject C version (fuel + 1) (.map K X))
      (outputBytes (SimpleBinary.writeSize version (UInt32.ofNat entries.length)) ++ bytes)
      (pure (.map (entries.foldl (fun acc entry =>
        assocSet BasicValue.sameKey entry.1 entry.2 acc) []))) := by
  obtain ⟨hsome, rfl⟩ := serializeEntries_some hbytes
  have hentries := decodes_simpleMapElements version (fun o => (o.serialize version).getD []) []
    hkeys fun entry hentry => (decodes_deserializeObject version d).1 fuel X entry.2 _ hfuel
      (htype entry hentry) (hsome entry hentry)
  rw [deserializeObject]
  exact (SimpleBinary.decodes_readSize version _ hlength).bind_pure
    (hentries.bind_return CppObject.map)

end

/-! ## Keys that are ordered -/

theorem assocGet_equivalent {V : Type} {key : BasicValue} {entries : List (BasicValue × V)}
    (hkey : key.isNaN = false) (h : ∀ e ∈ entries, e.1.type = key.type ∧ e.1.isNaN = false) :
    assocGet BasicValue.equivalent key entries = assocGet BasicValue.sameKey key entries := by
  have hfind : entries.find? (fun e => key.equivalent e.1) =
      entries.find? fun e => key.sameKey e.1 := by
    induction entries with
    | nil => rfl
    | cons e entries ih =>
        obtain ⟨⟨htype, hnan⟩, htail⟩ := List.forall_mem_cons.1 h
        have hsame := BasicValue.sameKey_eq_equivalent htype.symm hkey hnan
        rw [List.find?_cons, List.find?_cons, hsame, ih htail]
  rw [assocGet, assocGet, hfind]

theorem valuesOf_equivalent {Y : BasicType} {key : BasicValue} {items : List (Value × Value)}
    (hkey : key.isNaN = false) (h : ∀ k v, (Value.basic k, v) ∈ items →
      (k.promote Y).type = key.type ∧ (k.promote Y).isNaN = false) :
    valuesOf BasicValue.equivalent Y key items = valuesOf BasicValue.sameKey Y key items := by
  refine List.filterMap_congr fun kv hkv => ?_
  obtain ⟨k, v⟩ := kv
  cases k with
  | basic k =>
      obtain ⟨htype, hnan⟩ := h k v hkv
      simp only [BasicValue.sameKey_eq_equivalent htype.symm hkey hnan]
  | _ => rfl

/-! ## Encoded maps and sets -/

/-- How the mapped values of a map, with keys and values of the types `key` and `T` by the schema of
    the payload and of `K` and `element` on the wire, come to a C++ map, if they do. -/
def mapElement (time : SchemaTime) (key T : TypeDef n) (Y : BasicType) (X : CppType m)
    (K : BasicType) (element : BondDataType) : Option (SchemaTime × TypeDef n) :=
  if isValueMatching time (.map key T) (.map Y X) ∧ isMatchingBasic K Y then
    elementOf time T X element
  else
    none

section

variable {P : TaggedProtocol} {S : SchemaDef n} {C : CppSchema m}

theorem assign_map (debug : Bool) (time : SchemaTime) (key T : TypeDef n) (Y : BasicType)
    (X : CppType m) (K : BasicType) (element : BondDataType) (items : List (Value × Value))
    (var : CppValue m) :
    (Value.map (.basic K) element items).assign debug S C time (.map key T) (.map Y X) var =
      match mapElement time key T Y X K element with
      | some (time', type) => .map (assignPairs debug S C items time' type Y X [])
      | none => var := by
  unfold Value.assign
  rw [mapElement]
  by_cases hmatch : isValueMatching time (.map key T) (.map Y X) = true
  · rw [if_pos hmatch]
    by_cases hkey : isMatchingBasic K Y = true
    · rw [if_pos ⟨hmatch, hkey⟩]
      simp only [if_pos hkey]
      rfl
    · rw [if_neg (not_and_of_not_right _ hkey)]
      simp only [if_neg hkey]
  · rw [if_neg hmatch, if_neg (not_and_of_not_left _ hmatch)]

/-- The promoted keys of a well-formed map are of the type of the C++ map. -/
theorem promoted_keys {K Y : BasicType} {element : BondDataType} {items : List (Value × Value)}
    (hwf : (Value.map (.basic K) element items).wellFormed = true)
    (hkey : isMatchingBasic K Y = true) (k : BasicValue) (v : Value)
    (hmem : (Value.basic k, v) ∈ items) : (k.promote Y).type = Y := by
  rw [Value.wellFormed, Bool.and_eq_true, wellFormedPairs_iff] at hwf
  have htype := ((hwf.2 _ hmem).1).1
  rw [Value.typeId, BondDataType.basic.injEq] at htype
  exact BasicValue.promote_type (htype.symm ▸ hkey)

/-- Looking up a key that is ordered, in a map that has been read -/
theorem lookup_assignPairs (debug : Bool) {time time' : SchemaTime} {key T type : TypeDef n}
    {Y K : BasicType} {X : CppType m} {element : BondDataType} {items : List (Value × Value)}
    (hwf : (Value.map (.basic K) element items).wellFormed = true)
    (hnan : ∀ k v, (Value.basic k, v) ∈ items → (k.promote Y).isNaN = false)
    (helement : mapElement time key T Y X K element = some (time', type)) {k : BasicValue}
    (hk : k.type = Y) (hkn : k.isNaN = false) :
    assocGet BasicValue.equivalent k (assignPairs debug S C items time' type Y X []) =
        assocGet BasicValue.sameKey k (assignPairs debug S C items time' type Y X []) ∧
      valuesOf BasicValue.equivalent Y k items = valuesOf BasicValue.sameKey Y k items := by
  have hkey : isMatchingBasic K Y = true := by
    rw [mapElement] at helement
    split_ifs at helement with hmatch
    exact hmatch.2
  have hordered : ∀ l v, (Value.basic l, v) ∈ items →
      (l.promote Y).type = k.type ∧ (l.promote Y).isNaN = false := fun l v hmem =>
    ⟨(promoted_keys hwf hkey l v hmem).trans hk.symm, hnan l v hmem⟩
  refine ⟨assocGet_equivalent hkn ?_, valuesOf_equivalent hkn hordered⟩
  exact assignPairs_keys (p := fun l => l.type = k.type ∧ l.isNaN = false) debug S C time' type Y X
    hordered (by simp)

/-- The items are the elements of a set, each of them once. -/
def IsSetOf (result items : List BasicValue) : Prop :=
  result.Pairwise (fun v w => v.equivalent w = false) ∧ (∀ v ∈ result, v ∈ items) ∧
    ∀ v ∈ items, ∃ w ∈ result, v.equivalent w = true

theorem isSetOf_foldl {items : List BasicValue} {T : BasicType}
    (h : ∀ v ∈ items, v.type = T ∧ v.isNaN = false) : IsSetOf (items.foldl setInsert []) items := by
  obtain ⟨hpairwise, hsound, hcomplete⟩ := foldl_setInsert_spec items [] .nil
  have hmem : ∀ v ∈ items.foldl setInsert [], v ∈ items := fun v hv =>
    (hsound v hv).resolve_left (by simp)
  have hsame {v w : BasicValue} (hv : v ∈ items) (hw : w ∈ items) :
      v.sameKey w = v.equivalent w :=
    BasicValue.sameKey_eq_equivalent ((h v hv).1.trans (h w hw).1.symm) (h v hv).2 (h w hw).2
  refine ⟨hpairwise.imp_of_mem fun hv hw hne => ?_, hmem, fun v hv => ?_⟩
  · rw [← hsame (hmem _ hv) (hmem _ hw)]
    exact hne
  · obtain ⟨w, hw, hvw⟩ := hcomplete v (.inr hv)
    exact ⟨w, hw, hsame hv (hmem w hw) ▸ hvw⟩

theorem promotedItems_type {Z L : BasicType} {values : List Value}
    (hwf : (Value.list .set (.basic L) values).wellFormed = true)
    (hL : isMatchingBasic L Z = true) {v : BasicValue} (hv : v ∈ promotedItems Z values) :
    v.type = Z := by
  rw [Value.wellFormed, Bool.and_eq_true, wellFormedItems_iff] at hwf
  obtain ⟨w, hw, hvw⟩ := List.mem_filterMap.1 hv
  obtain ⟨x, rfl, htype⟩ := Value.eq_basic_of_typeId (hwf.2 w hw).1
  cases hvw
  exact BasicValue.promote_type (htype ▸ hL)

/-- The last value of a key is what a map has that is assigned to without regard to what it had. -/
theorem lookup_foldl_assocSet {V : Type} {K : BasicType} {entries : List (BasicValue × V)}
    (h : ∀ entry ∈ entries, entry.1.type = K ∧ entry.1.isNaN = false) {k : BasicValue}
    (hk : k.type = K) (hkn : k.isNaN = false) :
    assocGet BasicValue.equivalent k
        (entries.foldl (fun acc entry => assocSet BasicValue.sameKey entry.1 entry.2 acc) []) =
      (entries.filter fun entry => k.equivalent entry.1).getLast?.map Prod.snd := by
  have hkeys (acc : List (BasicValue × V))
      (hacc : ∀ e ∈ acc, e.1.type = k.type ∧ e.1.isNaN = false) :
      ∀ e ∈ entries.foldl (fun acc entry => assocSet BasicValue.sameKey entry.1 entry.2 acc) acc,
        e.1.type = k.type ∧ e.1.isNaN = false := by
    induction entries generalizing acc with
    | nil => exact hacc
    | cons entry entries ih =>
        obtain ⟨⟨htype, hnan⟩, htail⟩ := List.forall_mem_cons.1 h
        exact ih htail _ (assocSet_keys
          (p := fun l : BasicValue => l.type = k.type ∧ l.isNaN = false)
          ⟨htype.trans hk.symm, hnan⟩ hacc)
  have hfilter : entries.filter (fun entry => k.equivalent entry.1) =
      entries.filter fun entry => k.sameKey entry.1 := List.filter_congr fun e he =>
    (BasicValue.sameKey_eq_equivalent (hk.trans (h e he).1.symm) hkn (h e he).2).symm
  rw [assocGet_equivalent hkn (hkeys [] (by simp)), assocGet_foldl_assocSet, hfilter]
  exact Option.or_none

/-- Nothing is lost in a set. -/
theorem lossless_set {time : SchemaTime} {U : TypeDef n} {Z L : BasicType} {values : List Value}
    (hwf : (Value.list .set (.basic L) values).wellFormed = true) :
    Everywhere (Site.children S C) (fun s => s.conforms S C = true ∧ ¬ s.isLossy = true)
      ⟨time, .set U, .set Z, .list .set (.basic L) values⟩ := by
  rw [Value.wellFormed, Bool.and_eq_true, wellFormedItems_iff] at hwf
  refine .intro ⟨rfl, by simp [Site.isLossy]⟩ fun c hc => ?_
  unfold Site.children at hc
  split_ifs at hc
  · dsimp only at hc
    split at hc
    · obtain ⟨v, hv, rfl⟩ := List.mem_map.1 hc
      obtain ⟨x, rfl, -⟩ := Value.eq_basic_of_typeId (hwf.2 v hv).1
      refine .intro ⟨rfl, by simp [Site.isLossy]⟩ fun c hc => ?_
      unfold Site.children at hc
      split_ifs at hc <;> cases hc
    · cases hc
  · cases hc

/-- The elements of a set that is assigned -/
theorem assign_set (debug : Bool) {time : SchemaTime} {U : TypeDef n} {Z L : BasicType}
    {values : List Value} (hmatch : isValueMatching time (.set U) (.set Z : CppType m) = true)
    (hL : isMatchingBasic L Z = true) (var : CppValue m) :
    (Value.list .set (.basic L) values).assign debug S C time (.set U) (.set Z) var =
      .set ((promotedItems Z values).foldl setInsert []) := by
  have helement : elementOf time U (.basic Z : CppType m) (.basic L) =
      some (.compileTime, .basic L) := by
    unfold elementOf
    rw [if_neg (by simp [CppType.isNested, CppType.isBondType, CppType.isContainer])]
    exact if_pos hL
  rw [assign_list hmatch]
  show (match elementOf time U (.basic Z : CppType m) (.basic L) with
    | some (time', type') => assignElements debug S C values time' type' (.set Z) var
    | none => var) = _
  rw [helement]
  rfl

/-- For any pairs and elements, keys repeated or not. With tags, a map and a set are consumed
    exactly in both builds. A debug build has the last value of each key, and no assertion fails in
    it; a release build has what the values of the key make of one variable, one after the other.
    Both are the same if no value is merged with one that the key had before. Simple Binary assigns
    all of a value, so that the last one of a key is what it has. A set has each encoded element
    once. -/
theorem maps_and_sets (hP : P.Plain) (hS : S.Grounded) (hC : C.schemaDef.Grounded)
    {time : SchemaTime} {key T : TypeDef n} {Y K : BasicType} {X : CppType m}
    {element : BondDataType} {items : List (Value × Value)}
    (hwf : (Value.map (.basic K) element items).wellFormed = true)
    (hnan : ∀ k v, (Value.basic k, v) ∈ items → (k.promote Y).isNaN = false)
    (hread : Everywhere (Site.children S C) (fun s => s.conforms S C = true ∧ ¬ s.isLossy = true)
      ⟨time, .map key T, .map Y X, .map (.basic K) element items⟩)
    {U : TypeDef n} {Z L : BasicType} {values : List Value}
    (hset : (Value.list .set (.basic L) values).wellFormed = true)
    (hmatch : isValueMatching time (.set U) (.set Z : CppType m) = true)
    (hL : isMatchingBasic L Z = true) (hsetNaN : ∀ v ∈ promotedItems Z values, v.isNaN = false)
    (version : SimpleBinary.Version) {d : Nat} {entries : List (BasicValue × CppObject)}
    {bytes : List UInt8} (hlength : entries.length < 2 ^ 32)
    (hkeys : ∀ entry ∈ entries, entry.1.type = K ∧ entry.1.wellFormed = true ∧
      entry.1.isNaN = false)
    (htype : ∀ entry ∈ entries, C.HasType d X entry.2)
    (hbytes : serializeEntries version entries = some bytes) {fuel : Nat} (hfuel : d ≤ fuel)
    {elements : List BasicValue} (hsize : elements.length < 2 ^ 32)
    (helements : ∀ v ∈ elements, v.type = L ∧ v.wellFormed = true ∧ v.isNaN = false) :
    (∀ debug (var : CppValue m),
      Decodes (deserializeVar P.reader debug S C time (.map key T) (.map Y X) var)
        ((Value.map (.basic K) element items).encode P.writer)
        (pure (match mapElement time key T Y X K element with
          | some (time', type) => .map (assignPairs debug S C items time' type Y X [])
          | none => var))) ∧
    (∀ time' type, mapElement time key T Y X K element = some (time', type) →
      ∀ k, k.type = Y → k.isNaN = false →
        assocGet BasicValue.equivalent k (assignPairs true S C items time' type Y X []) =
          (valuesOf BasicValue.equivalent Y k items).getLast?.map
            (fun v => v.assign true S C time' type X X.fresh) ∧
        assocGet BasicValue.equivalent k (assignPairs false S C items time' type Y X []) =
          (valuesOf BasicValue.equivalent Y k items).foldl
            (fun old v => some (v.assign false S C time' type X (old.getD X.fresh))) none) ∧
    (Everywhere (Site.children S C) (fun s => ¬ s.isMerging = true)
        ⟨time, .map key T, .map Y X, .map (.basic K) element items⟩ →
      ∀ var : CppValue m,
        (Value.map (.basic K) element items).assign true S C time (.map key T) (.map Y X) var =
          (Value.map (.basic K) element items).assign false S C time (.map key T) (.map Y X) var) ∧
    Decodes (deserializeVarAsserting C P.reader S time (.map key T) (.map Y X) (.map []))
      ((Value.map (.basic K) element items).encode P.writer)
      (pure ((Value.map (.basic K) element items).assign true S C time (.map key T) (.map Y X)
        (.map []))) ∧
    (∃ result, IsSetOf result (promotedItems Z values) ∧ ∀ debug (var : CppValue m),
      Decodes (deserializeVar P.reader debug S C time (.set U) (.set Z) var)
        ((Value.list .set (.basic L) values).encode P.writer) (pure (.set result))) ∧
    (∃ result,
      (∀ k, k.type = K → k.isNaN = false → assocGet BasicValue.equivalent k result =
        (entries.filter fun entry => k.equivalent entry.1).getLast?.map Prod.snd) ∧
      Decodes (deserializeObject C version (fuel + 1) (.map K X))
        (outputBytes (SimpleBinary.writeSize version (UInt32.ofNat entries.length)) ++ bytes)
        (pure (.map result))) ∧
    ∃ result, IsSetOf result elements ∧
      Decodes (deserializeObject C version (fuel + 1) (.set L))
        (outputBytes (SimpleBinary.writeSize version (UInt32.ofNat elements.length))
          ++ elements.flatMap fun v => outputBytes (SimpleBinary.write version v))
        (pure (.set result)) := by
  refine ⟨fun debug var => ?_, fun time' type helement k hk hkn => ⟨?_, ?_⟩, assign_builds, ?_,
    ⟨_, isSetOf_foldl (T := Z) fun v hv => ⟨?_, hsetNaN v hv⟩, fun debug var => ?_⟩,
    ⟨_, fun k hk hkn => ?_, decodes_deserializeObject_map version hlength
      (fun e he => ⟨(hkeys e he).1, (hkeys e he).2.1⟩) htype hbytes hfuel⟩,
    ⟨_, isSetOf_foldl fun v hv => ⟨(helements v hv).1, (helements v hv).2.2⟩,
      decodes_deserializeObject_set version hsize
        (fun v hv => ⟨(helements v hv).1, (helements v hv).2.1⟩) fuel⟩⟩
  · rw [← assign_map]
    exact reads_of_lossless hP hS hC hwf rfl hread var
  · obtain ⟨hlookup, hvalues⟩ := lookup_assignPairs (S := S) (C := C) true hwf hnan helement hk hkn
    rw [hlookup, hvalues, assocGet_assignPairs_debug]
  · obtain ⟨hlookup, hvalues⟩ := lookup_assignPairs (S := S) (C := C) false hwf hnan helement hk hkn
    rw [hlookup, hvalues, assocGet_assignPairs]
    rfl
  · exact decodes_deserializeVarAsserting hP hS hC hwf rfl hread
  · exact promotedItems_type hset hL hv
  · rw [← assign_set debug hmatch hL var]
    exact reads_of_lossless hP hS hC hset rfl (lossless_set hset) var
  · exact lookup_foldl_assocSet (fun e he => ⟨(hkeys e he).1, (hkeys e he).2.2⟩) hk hkn

end

/-! ### A key that is repeated -/

/-- A struct with two numbers. -/
def pairStruct : CppSchema 1 where
  structs _ :=
    { metadata := { name := "Pair", qualifiedName := "Pair", modifier := .optional }
      base := none
      fields := [
        { metadata := { name := "first", qualifiedName := "", modifier := .optional }
          id := 0
          type := .basic .uint8 },
        { metadata := { name := "second", qualifiedName := "", modifier := .optional }
          id := 1
          type := .basic .uint8 }]
      increasing := by decide }
  root := 0
  size_le := SchemaDef.one_le

theorem pairStruct_grounded : pairStruct.schemaDef.Grounded := fun i =>
  ⟨[i], .root rfl, by rw [List.length_singleton]; omega⟩

/-- The first struct of the key 5 has the first number, and the second one the second. -/
def repeatedItems : List (Value × Value) :=
  [(.basic (.uint8 5), .struct (.root [(0, .basic (.uint8 1))])),
    (.basic (.uint8 5), .struct (.root [(1, .basic (.uint8 2))]))]

def repeatedMap : Value :=
  .map (.basic .uint8) .struct repeatedItems

def repeatedSite : Site 1 1 :=
  ⟨.compileTime, .map (.basic .uint8) (.struct 0 false), .map .uint8 (.struct 0), repeatedMap⟩

theorem repeatedSite_lossless :
    Everywhere (Site.children pairStruct.schemaDef pairStruct)
      (fun s => s.conforms pairStruct.schemaDef pairStruct = true ∧ ¬ s.isLossy = true)
      repeatedSite :=
  .of_holdsWithin (fun _ h => of_decide_eq_true h) 4 (by decide +kernel)

/-- The numbers in the struct that a map has for a key -/
def CppValue.numbersAt (key : BasicValue) : CppValue 1 → Option (List (CppValue 1))
  | .map entries => (assocGet BasicValue.sameKey key entries).map fun obj =>
      [obj.getField (0, 0) (.basic .uint8), obj.getField (0, 1) (.basic .uint8)]
  | _ => none

def CppValue.isBasic (v : BasicValue) : CppValue 1 → Bool
  | .basic w => v = w
  | _ => false

def repeatedPayload : InputBuffer :=
  .ofBlob (repeatedMap.encode fastBinary.writer) (by decide)

/-- Whether the entry of the key 5 has the numbers 1 and 2 after a run -/
def repeatedNumbers (debug : Bool) : Option (List Bool) :=
  ((deserializeVar fastBinary.reader debug pairStruct.schemaDef pairStruct .compileTime
    (.map (.basic .uint8) (.struct 0 false)) (.map .uint8 (.struct 0)) (.map [])).run
      repeatedPayload).toOption.bind fun result =>
    (result.1.numbersAt (.uint8 5)).map fun numbers =>
      numbers.zipWith (fun o v => o.isBasic (.uint8 v)) [1, 2]

/-- In a release build the entry has kept the number of the first struct, in a debug build it has
    not; and NaN is one key with numbers that are not one key. -/
theorem not_maps_and_sets :
    repeatedNumbers false = some [true, true] ∧ repeatedNumbers true = some [false, true] ∧
      (BasicValue.double 0x3ff0000000000000).equivalent (.double 0x7ff8000000000000) = true ∧
      (BasicValue.double 0x7ff8000000000000).equivalent (.double 0x4000000000000000) = true ∧
      (BasicValue.double 0x3ff0000000000000).equivalent (.double 0x4000000000000000) = false := by
  decide +kernel

/-- The entry of a debug build is what the second struct makes of a new variable. -/
theorem maps_and_sets_sample :
    assocGet BasicValue.equivalent (.uint8 5)
        (assignPairs true pairStruct.schemaDef pairStruct repeatedItems .compileTime
          (.struct 0 false) .uint8 (.struct 0) []) =
      some ((Value.struct (.root [(1, .basic (.uint8 2))])).assign true pairStruct.schemaDef
        pairStruct .compileTime (.struct 0 false) (.struct 0) (.struct [])) :=
  ((maps_and_sets (P := fastBinary) (S := pairStruct.schemaDef) (C := pairStruct)
    fastBinary_plain pairStruct_grounded pairStruct_grounded
    (show repeatedMap.wellFormed = true by decide)
    (by
      intro k v hmem
      rcases List.mem_cons.1 hmem with heq | hmem
      · cases heq
        rfl
      · cases List.mem_singleton.1 hmem
        rfl)
    repeatedSite_lossless
    (show (Value.list .set (.basic .uint8) [.basic (.uint8 3)]).wellFormed = true by decide)
    (show isValueMatching .compileTime (.set (.basic .uint8) : TypeDef 1)
      (.set .uint8 : CppType 1) = true by decide) (by decide) (by decide) .v1
    (show ([(.uint8 5, .struct (.root [(0, some (.basic (.uint8 1))),
      (1, some (.basic (.uint8 2)))]))] : List (BasicValue × CppObject)).length < 2 ^ 32 by decide)
    (by
      intro entry hentry
      cases List.mem_singleton.1 hentry
      exact ⟨rfl, rfl, rfl⟩)
    (by
      intro entry hentry
      cases List.mem_singleton.1 hentry
      refine .struct (d := 2) (.root rfl rfl fun p hp o ho => ?_)
      rcases hp with _ | ⟨_, _ | ⟨_, ⟨⟩⟩⟩
      · cases ho
        exact .basic (.uint8 1) rfl
      · cases ho
        exact .basic (.uint8 2) rfl)
    rfl (Nat.le_refl 3) (show ([.uint8 3] : List BasicValue).length < 2 ^ 32 by decide)
    (by
      intro v hv
      cases List.mem_singleton.1 hv
      exact ⟨rfl, rfl, rfl⟩)).2.1 _ _ rfl (.uint8 5) rfl rfl).1

end Bond.Cpp

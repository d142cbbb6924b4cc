import Bond.Cpp.ObjectValues
import Bond.Cpp.StructReads

set_option autoImplicit false

/-! # Round trips of Simple Binary

What the static parser assigns to a variable when it reads what was written for an object of the
same type: with the compile-time schema of the variable, by the transform `To`
(cpp/inc/bond/core/transforms.h, value.h), and with the schema at runtime. -/

namespace Bond.Cpp

open Decoder InputBuffer

variable {m : Nat}

/-! ## Reading into a variable -/

section

variable (C : CppSchema m) (version : SimpleBinary.Version)

/-- The loop of `DeserializeElements` for a set -/
def SimpleBinary.insertElements (T : BasicType) :
    Nat → List BasicValue → Reader (List BasicValue)
  | 0, items => return items
  | size + 1, items => do
      let e ← SimpleBinary.read version T
      insertElements T size (setInsert items e)

/-- The loop of `DeserializeMapElements` -/
def SimpleBinary.deserializeMapElements (K : BasicType) (deserialize : Reader CppObject) :
    Nat → List (BasicValue × CppObject) → Reader (List (BasicValue × CppObject))
  | 0, entries => return entries
  | size + 1, entries => do
      let k ← SimpleBinary.read version K
      let o ← deserialize
      deserializeMapElements K deserialize size (assocSet BasicValue.sameKey k o entries)

/-- `Validate<Head>`: the next required field -/
def validateHead (x : Fin m) (head : CppField m) (required : Option UInt16) :
    Reader (Option UInt16) :=
  if head.metadata.modifier = .required then
    if required = some head.id then
      return nextRequired ((C.structs x).fields.dropWhile fun g => g.id ≤ head.id)
    else
      bondThrow (.missingField (required.getD 0xffff) (C.structs x).metadata.qualifiedName)
  else
    return required

/-- `ReadFields` with the compile-time schema, each field going to `To::Field` -/
def readMembers (deserialize : CppType m → Reader CppObject) (x : Fin m) :
    List (CppField m) → Option UInt16 → Reader (Members × Option UInt16)
  | [], required => return ([], required)
  | head :: fields, required => do
      let required ← validateHead C x head required
      let o ← deserialize head.type
      let (members, required) ← readMembers deserialize x fields required
      return ((head.id, some o) :: members, required)

/-- The fields of a class between `To::Begin` and `To::End` -/
def readLevel (deserialize : CppType m → Reader CppObject) (x : Fin m) : Reader Members := do
  let (members, required) ← readMembers C deserialize x (C.structs x).fields
    (nextRequired (C.structs x).fields)
  if required.isSome then
    bondThrow (.missingField (required.getD 0xffff) (C.structs x).metadata.qualifiedName)
  else
    return members

mutual

/-- `Deserialize` into a variable of a type, all of which is assigned, whatever it held. `fuel`
    bounds the depth of the calls. -/
def deserializeObject : Nat → CppType m → Reader CppObject
  | 0, _ => bondThrow .undefinedBehavior
  | fuel + 1, X =>
      match X with
      | .basic T => .basic <$> SimpleBinary.read version T
      | .struct x => .struct <$> applyToObject fuel x
      | .bonded _ => do
          let blob ← SimpleBinary.readBlob
          let _ ← withInput blob (nextProtocol builtInProtocols)
          return .bonded blob
      | .list element => do
          let size ← SimpleBinary.readSize version
          let items ← repeatN size (deserializeObject fuel element)
          return .list items
      | .nullable element => do
          let size ← SimpleBinary.readSize version
          if size = 0 then
            return .nullable none
          else do
            let item ← deserializeObject fuel element
            -- there is room for one element
            let _ ← repeatN (size - 1) (skipSchema C.schemaDef version fuel element.typeDef)
            return .nullable (some item)
      | .blob => do
          let size ← SimpleBinary.readSize version
          let bytes ← readBytes size
          return .blob bytes
      | .set T => do
          let size ← SimpleBinary.readSize version
          let items ← SimpleBinary.insertElements version T size []
          return .set items
      | .map K element => do
          let size ← SimpleBinary.readSize version
          let entries ← SimpleBinary.deserializeMapElements version K
            (deserializeObject fuel element) size []
          return .map entries

/-- `Apply` of `To`: the hierarchy of the schema is the one that the transform expects. -/
def applyToObject : Nat → Fin m → Reader CppStructObject
  | 0, _ => bondThrow .undefinedBehavior
  | fuel + 1, x =>
      match (C.structs x).base with
      | none => do
          let members ← readLevel C (deserializeObject fuel) x
          return .root members
      | some y => do
          let base ← applyToObject fuel y
          let members ← readLevel C (deserializeObject fuel) x
          return .derived base members

end

end

/-! ## Sets and maps -/

section

variable (version : SimpleBinary.Version)

theorem setInsert_of_distinct {items : List BasicValue} {v : BasicValue}
    (h : ∀ w ∈ items, v.sameKey w = false) : setInsert items v = items ++ [v] := by
  have hany : items.any v.sameKey = false := by simpa using h
  rw [setInsert, hany]
  rfl

theorem assocSet_of_distinct {entries : List (BasicValue × CppObject)} {k : BasicValue}
    (h : ∀ entry ∈ entries, k.sameKey entry.1 = false) (o : CppObject) :
    assocSet BasicValue.sameKey k o entries = entries ++ [(k, o)] := by
  induction entries with
  | nil => rfl
  | cons entry entries ih =>
      have hentry := h entry List.mem_cons_self
      rw [assocSet, hentry, ih fun e he => h e (List.mem_cons_of_mem entry he)]
      rfl

/-- A set is read into one that holds other items already. -/
theorem decodes_insertElements_distinct {T : BasicType} (acc : List BasicValue)
    {items : List BasicValue} (h : ∀ v ∈ items, v.type = T ∧ v.wellFormed = true)
    (hdistinct : (acc ++ items).Pairwise fun v w => w.sameKey v = false) :
    Decodes (SimpleBinary.insertElements version T items.length acc)
      (items.flatMap fun v => outputBytes (SimpleBinary.write version v))
      (pure (acc ++ items)) := by
  induction items generalizing acc with
  | nil =>
      rw [List.append_nil]
      exact Decodes.pure acc
  | cons v items ih =>
      obtain ⟨rfl, hwf⟩ := h v List.mem_cons_self
      have hnew : ∀ w ∈ acc, v.sameKey w = false := fun w hw =>
        (List.pairwise_append.1 hdistinct).2.2 w hw v List.mem_cons_self
      rw [List.append_cons acc v items] at hdistinct ⊢
      have hrest := ih (acc ++ [v]) (fun w hw => h w (List.mem_cons_of_mem v hw)) hdistinct
      rw [← setInsert_of_distinct hnew] at hrest ⊢
      exact (SimpleBinary.decodes_read version v hwf).bind_pure hrest

/-- A map is read into one that holds other keys already. -/
theorem decodes_deserializeMapElements {K : BasicType} {deserialize : Reader CppObject}
    (enc : CppObject → List UInt8) (acc : List (BasicValue × CppObject))
    {entries : List (BasicValue × CppObject)}
    (hkeys : ∀ entry ∈ entries, entry.1.type = K ∧ entry.1.wellFormed = true)
    (h : ∀ entry ∈ entries, Decodes deserialize (enc entry.2) (pure entry.2))
    (hdistinct : ((acc ++ entries).map Prod.fst).Pairwise fun v w => w.sameKey v = false) :
    Decodes (SimpleBinary.deserializeMapElements version K deserialize entries.length acc)
      (entries.flatMap fun entry => outputBytes (SimpleBinary.write version entry.1) ++ enc entry.2)
      (pure (acc ++ entries)) := by
  induction entries generalizing acc with
  | nil =>
      rw [List.append_nil]
      exact Decodes.pure acc
  | cons entry entries ih =>
      obtain ⟨k, o⟩ := entry
      obtain ⟨rfl, hwf⟩ := hkeys (k, o) List.mem_cons_self
      have hnew : ∀ e ∈ acc, k.sameKey e.1 = false := by
        intro e he
        rw [List.map_append] at hdistinct
        exact (List.pairwise_append.1 hdistinct).2.2 e.1 (List.mem_map_of_mem he) k
          List.mem_cons_self
      rw [List.append_cons acc (k, o) entries] at hdistinct ⊢
      have hrest := ih (acc ++ [(k, o)]) (fun e he => hkeys e (List.mem_cons_of_mem _ he))
        (fun e he => h e (List.mem_cons_of_mem _ he)) hdistinct
      rw [← assocSet_of_distinct hnew o] at hrest ⊢
      rw [List.flatMap_cons, List.append_assoc]
      exact (SimpleBinary.decodes_read version k hwf).bind_pure
        ((h (k, o) List.mem_cons_self).bind_pure hrest)

end

/-! ## Members -/

/-- Behind a field come the fields with greater ids. -/
theorem dropWhile_le_field {fields done rest : List (CppField m)} {head : CppField m}
    (hincreasing : fields.Pairwise fun f g => f.id < g.id) (h : fields = done ++ head :: rest) :
    fields.dropWhile (fun g => g.id ≤ head.id) = rest := by
  subst h
  obtain ⟨-, hrest, hdone⟩ := List.pairwise_append.1 hincreasing
  rw [dropWhile_le_eq_filter hincreasing, List.filter_append]
  have hfront : done.filter (fun g => head.id < g.id) = [] := by
    rw [List.filter_eq_nil_iff]
    intro g hg
    simpa using UInt16.le_of_lt (hdone g hg head List.mem_cons_self)
  have hback : rest.filter (fun g => head.id < g.id) = rest := by
    rw [List.filter_eq_self]
    intro g hg
    simpa using (List.pairwise_cons.1 hrest).1 g hg
  rw [hfront, List.filter_cons_of_neg (by simp), hback, List.nil_append]

section

variable {C : CppSchema m} {x : Fin m}

/-- A field that is read in its turn is the next required one, if it is required. -/
theorem decodes_validateHead {done rest : List (CppField m)} {head : CppField m}
    (h : (C.structs x).fields = done ++ head :: rest) :
    Decodes (validateHead C x head (nextRequired (head :: rest))) ([] : List UInt8)
      (pure (nextRequired rest)) := by
  unfold validateHead
  by_cases hrequired : head.metadata.modifier = .required
  · have hnext : nextRequired (head :: rest) = some head.id := by
      rw [nextRequired, List.find?_cons_of_pos (by simpa using hrequired)]
      rfl
    rw [if_pos hrequired, if_pos hnext, dropWhile_le_field (C.structs x).increasing h]
    exact Decodes.pure _
  · have hnext : nextRequired (head :: rest) = nextRequired rest := by
      rw [nextRequired, List.find?_cons_of_neg (by simpa using hrequired)]
      rfl
    rw [if_neg hrequired, hnext]
    exact Decodes.pure _

variable {version : SimpleBinary.Version}

/-- The fields that are left, each of them a member that was written. -/
theorem decodes_readMembers {deserialize : CppType m → Reader CppObject}
    (before : List (CppField m)) {fields : List (CppField m)} {members : Members}
    {bytes : List UInt8}
    (hfields : (C.structs x).fields = before ++ fields)
    (hids : members.map Prod.fst = fields.map CppField.id)
    (hbytes : serializeMembers version members = some bytes)
    (h : ∀ p ∈ fields.zip members, ∀ o bytes, p.2.2 = some o → o.serialize version = some bytes →
      Decodes (deserialize p.1.type) bytes (pure o)) :
    Decodes (readMembers C deserialize x fields (nextRequired fields)) bytes
      (pure (members, none)) := by
  induction members generalizing before fields bytes with
  | nil =>
      obtain rfl : fields = [] := List.map_eq_nil_iff.1 hids.symm
      cases hbytes
      exact Decodes.pure ([], none)
  | cons member members ih =>
      obtain ⟨id, o⟩ := member
      cases fields with
      | nil => simp at hids
      | cons head fields =>
          rw [List.map_cons, List.map_cons, List.cons.injEq] at hids
          obtain ⟨hid, hids⟩ := hids
          cases o with
          | none => cases hbytes
          | some o =>
              rw [serializeMembers] at hbytes
              obtain ⟨first, ho, hbytes⟩ := Option.bind_eq_some_iff.1 hbytes
              obtain ⟨rest, hrest, hbytes⟩ := Option.bind_eq_some_iff.1 hbytes
              cases hbytes
              have hbehind : (C.structs x).fields = (before ++ [head]) ++ fields := by
                rw [hfields, List.append_assoc, List.singleton_append]
              have htail := ih (before ++ [head]) hbehind hids hrest
                fun p hp => h p (List.mem_cons_of_mem _ hp)
              have hhead := h (head, id, some o) List.mem_cons_self o first rfl ho
              have hid : id = head.id := hid
              subst hid
              rw [readMembers, ← List.nil_append (first ++ rest)]
              exact (decodes_validateHead hfields).bind_pure
                (hhead.bind_pure (htail.bind_return fun r => ((head.id, some o) :: r.1, r.2)))

/-- All the fields of a class, none of the required ones missing. -/
theorem decodes_readLevel {deserialize : CppType m → Reader CppObject} {members : Members}
    {bytes : List UInt8} (hids : members.map Prod.fst = (C.structs x).fields.map CppField.id)
    (hbytes : serializeMembers version members = some bytes)
    (h : ∀ p ∈ (C.structs x).fields.zip members, ∀ o bytes, p.2.2 = some o →
      o.serialize version = some bytes → Decodes (deserialize p.1.type) bytes (pure o)) :
    Decodes (readLevel C deserialize x) bytes (pure members) := by
  have hread := decodes_readMembers [] (List.nil_append _).symm hids hbytes h
  rw [readLevel, ← List.append_nil bytes]
  exact hread.bind_pure (Decodes.pure members)

end

/-! ## Objects -/

section

variable {C : CppSchema m} (version : SimpleBinary.Version)

/-- An object is deserialized from what was serialized for it. -/
theorem decodes_deserializeObject (d : Nat) :
    (∀ (fuel : Nat) (X : CppType m) (o : CppObject) (bytes : List UInt8), d ≤ fuel →
      C.HasType d X o → o.serialize version = some bytes →
      Decodes (deserializeObject C version fuel X) bytes (pure o)) ∧
    (∀ (fuel : Nat) (x : Fin m) (s : CppStructObject) (bytes : List UInt8), d ≤ fuel →
      C.HasStruct d x s → s.serialize version = some bytes →
      Decodes (applyToObject C version fuel x) bytes (pure s)) := by
  induction d with
  | zero =>
      constructor
      · rintro _ _ _ _ _ ⟨⟩
      · rintro _ _ _ _ _ ⟨⟩
  | succ d ih =>
      obtain ⟨htype, hstruct⟩ := ih
      constructor
      · intro fuel X o bytes hd h hbytes
        obtain ⟨fuel, rfl⟩ : ∃ k, fuel = k + 1 := ⟨fuel - 1, by omega⟩
        have hle : d ≤ fuel := Nat.le_of_succ_le_succ hd
        cases h with
        | basic v hwf =>
            cases hbytes
            rw [deserializeObject]
            exact (SimpleBinary.decodes_read version v hwf).map CppObject.basic
        | struct h =>
            rw [CppObject.serialize] at hbytes
            rw [deserializeObject]
            exact (hstruct fuel _ _ bytes hle h hbytes).map CppObject.struct
        | bonded hx marshaled s hs hwf hlen =>
            cases hbytes
            rw [deserializeObject, ← List.append_nil (outputBytes _)]
            have hselect := decodes_withInput hlen
              (decodes_nextProtocol marshaled [⟨0x5053, 2⟩, ⟨0x464d, 1⟩])
            exact (SimpleBinary.decodes_readBlob _ hlen).bind_pure
              (hselect.bind_return fun _ => CppObject.bonded (marshal marshaled s))
        | list hlen h =>
            rw [CppObject.serialize] at hbytes
            obtain ⟨inner, hinner, hbytes⟩ := Option.bind_eq_some_iff.1 hbytes
            cases hbytes
            obtain ⟨hsome, rfl⟩ := serializeItems_some hinner
            have hitems := Decodes.repeatN_pure _ fun o ho =>
              htype fuel _ o _ hle (h o ho) (hsome o ho)
            rw [List.map_id'] at hitems
            rw [deserializeObject]
            exact (SimpleBinary.decodes_readSize version _ hlen).bind_pure
              (hitems.bind_return CppObject.list)
        | @nullable _ element item h =>
            rw [deserializeObject]
            cases item with
            | none =>
                cases hbytes
                rw [← List.append_nil (outputBytes _)]
                exact (SimpleBinary.decodes_readSize version 0 (by decide)).bind_pure
                  (Decodes.pure (CppObject.nullable none))
            | some o =>
                rw [CppObject.serialize] at hbytes
                obtain ⟨inner, hinner, hbytes⟩ := Option.bind_eq_some_iff.1 hbytes
                cases hbytes
                have hitem := htype fuel element o inner hle (h o rfl) hinner
                have hrest : Decodes (do
                    let _ ← repeatN (1 - 1)
                      (skipSchema C.schemaDef version fuel element.typeDef)
                    return CppObject.nullable (some o)) ([] : List UInt8)
                    (pure (CppObject.nullable (some o))) :=
                  (Decodes.pure []).bind_return fun _ => CppObject.nullable (some o)
                rw [← List.append_nil inner]
                exact (SimpleBinary.decodes_readSize version 1 (by decide)).bind_pure
                  (hitem.bind_pure hrest)
        | @blob _ blob hlen =>
            cases hbytes
            have hblob : outputBytes [OutputCall.write blob] = blob := by
              simp [outputBytes, OutputCall.bytes]
            rw [deserializeObject, hblob]
            exact (SimpleBinary.decodes_readSize version _ hlen).bind_pure
              ((decodes_readBytes blob).bind_return CppObject.blob)
        | set hlen h hdistinct =>
            cases hbytes
            have hitems := decodes_insertElements_distinct version [] h hdistinct
            rw [deserializeObject]
            exact (SimpleBinary.decodes_readSize version _ hlen).bind_pure
              (hitems.bind_return CppObject.set)
        | map hlen hkeys hdistinct h =>
            rw [CppObject.serialize] at hbytes
            obtain ⟨inner, hinner, hbytes⟩ := Option.bind_eq_some_iff.1 hbytes
            cases hbytes
            obtain ⟨hsome, rfl⟩ := serializeEntries_some hinner
            have hentries := decodes_deserializeMapElements version
              (fun o => (o.serialize version).getD []) [] hkeys
              (fun entry hentry => htype fuel _ entry.2 _ hle (h entry hentry) (hsome entry hentry))
              hdistinct
            rw [deserializeObject]
            exact (SimpleBinary.decodes_readSize version _ hlen).bind_pure
              (hentries.bind_return CppObject.map)
      · intro fuel x s bytes hd h hbytes
        obtain ⟨fuel, rfl⟩ : ∃ k, fuel = k + 1 := ⟨fuel - 1, by omega⟩
        have hle : d ≤ fuel := Nat.le_of_succ_le_succ hd
        rcases h with ⟨hbase, hids, h⟩ | ⟨hbase, hy, hids, h⟩
        · rw [CppStructObject.serialize] at hbytes
          have hlevel := decodes_readLevel hids hbytes fun p hp o bytes ho hbytes =>
            htype fuel _ o bytes hle (h p hp o ho) hbytes
          rw [applyToObject, hbase]
          exact hlevel.bind_return CppStructObject.root
        · rw [CppStructObject.serialize] at hbytes
          obtain ⟨front, hfront, hbytes⟩ := Option.bind_eq_some_iff.1 hbytes
          obtain ⟨back, hback, hbytes⟩ := Option.bind_eq_some_iff.1 hbytes
          cases hbytes
          have hlevel := decodes_readLevel hids hback fun p hp o bytes ho hbytes =>
            htype fuel _ o bytes hle (h p hp o ho) hbytes
          rw [applyToObject, hbase]
          exact (hstruct fuel _ _ front hle hy hfront).bind_pure
            (hlevel.bind_return (CppStructObject.derived _))

end

/-! ## Round trips -/

/-- An object that is serialized is deserialized as it was, with the compile-time schema and with
    the one at runtime, up to right behind what was written. Calls nest no deeper than the object
    does. -/
theorem simpleBinary_roundTrip (C : CppSchema m) (version : SimpleBinary.Version) (d : Nat)
    (X : CppType m) (o : CppObject) (h : C.HasType d X o) (hfilled : o.filled = true) :
    ∃ bytes, o.serialize version = some bytes ∧
      ∀ fuel > d, ∀ (b : InputBuffer) (rest : List UInt8), b.remaining = bytes ++ rest →
        ∃ b', (deserializeObject C version fuel X).run b = .ok (o, b') ∧
          (deserialize C.schemaDef version (fun _ => true) fuel [] X.typeDef).run b
            = .ok (o.value C X, b') ∧
          b'.remaining = rest := by
  have hsome := o.serialize_isSome version
  rw [hfilled] at hsome
  obtain ⟨bytes, hbytes⟩ := Option.isSome_iff_exists.1 hsome
  refine ⟨bytes, hbytes, fun fuel hfuel b rest hb => ?_⟩
  have hobject := (decodes_deserializeObject version d).1 fuel X o bytes (Nat.le_of_lt hfuel) h
    hbytes b rest hb
  obtain ⟨hvalue, henc⟩ := (value_of_serialize version d).1 X o bytes h hbytes
  have hread := (decodes_deserialize_schema version (fun _ => true) (d + 1)).1 fuel [] X.typeDef _
    hfuel hvalue
  rw [henc, (select_eq_self (d + 1)).1 [] X.typeDef _ (fun _ => rfl) hvalue] at hread
  have hrest : (Decoder.remaining (Decoder.advance b bytes.length) : List UInt8) = rest :=
    remaining_advance_append hb
  exact ⟨_, hobject, hread b rest hb, hrest⟩

/-! ### A derived struct -/

/-- A struct with a wide string, and one derived from it with a nullable, a blob, a map and a
    `bonded`. -/
def schemaObjects : CppSchema 2 where
  structs := fun
    | 0 =>
      { metadata := { name := "Base", qualifiedName := "Base", modifier := .optional }
        base := none
        fields := [{ metadata := { name := "w", qualifiedName := "", modifier := .required }
                     id := 0, type := .basic .wstring }]
        increasing := by decide }
    | 1 =>
      { metadata := { name := "Derived", qualifiedName := "Derived", modifier := .optional }
        base := some 0
        fields := [
          { metadata := { name := "n", qualifiedName := "", modifier := .optional }
            id := 1, type := .nullable (.struct 0) },
          { metadata := { name := "d", qualifiedName := "", modifier := .optional }
            id := 2, type := .blob },
          { metadata := { name := "m", qualifiedName := "", modifier := .required }
            id := 3, type := .map .uint8 (.list (.basic .uint16)) },
          { metadata := { name := "b", qualifiedName := "", modifier := .optional }
            id := 4, type := .bonded 0 }]
        increasing := by decide }
  root := 1
  size_le := SchemaDef.two_le

/-- An object of `Base` -/
def objectBase : CppStructObject :=
  .root [(0, some (.basic (.wstring [955])))]

/-- An object of `Derived` -/
def objectDerived : CppStructObject :=
  .derived objectBase
    [(1, some (.nullable (some (.struct objectBase)))),
      (2, some (.blob [0xde, 0xad])),
      (3, some (.map [(.uint8 1, .list [.basic (.uint16 7)]), (.uint8 2, .list [])])),
      (4, some (.bonded (marshal .v1 untaggedBase)))]

theorem objectBase_hasStruct (d : Nat) : schemaObjects.HasStruct (d + 2) 0 objectBase := by
  refine .root rfl rfl fun p hp o ho => ?_
  obtain rfl := List.mem_singleton.1 hp
  cases ho
  exact .basic (.wstring [955]) rfl

theorem objectDerived_hasStruct : schemaObjects.HasStruct 5 1 objectDerived := by
  refine .derived rfl (objectBase_hasStruct 2) rfl fun p hp o ho => ?_
  rcases hp with _ | ⟨_, _ | ⟨_, _ | ⟨_, _ | ⟨_, ⟨⟩⟩⟩⟩⟩
  · cases ho
    refine .nullable fun o ho => ?_
    cases ho
    exact .struct (objectBase_hasStruct 0)
  · cases ho
    exact .blob (by decide)
  · cases ho
    refine .map (by decide) (by decide) (by decide) fun entry hentry => ?_
    rcases hentry with _ | ⟨_, _ | ⟨_, ⟨⟩⟩⟩
    · refine .list (by decide) fun v hv => ?_
      obtain rfl := List.mem_singleton.1 hv
      exact .basic (.uint16 7) rfl
    · exact .list (by decide) (by simp)
  · cases ho
    exact .bonded (.root rfl) .v1 untaggedBase (by decide) (by decide) (by decide)

/-- The object comes back, from the second version with another payload behind it. -/
theorem simpleBinary_roundTrip_derived :
    ∃ bytes, (CppObject.struct objectDerived).serialize .v2 = some bytes ∧
      ∀ fuel > 6, ∀ (b : InputBuffer) (rest : List UInt8), b.remaining = bytes ++ rest →
        ∃ b', (deserializeObject schemaObjects .v2 fuel (.struct 1)).run b
            = .ok (.struct objectDerived, b') ∧
          (deserialize schemaObjects.schemaDef .v2 (fun _ => true) fuel [] (.struct 1 false)).run b
            = .ok (.struct (objectDerived.value schemaObjects 1), b') ∧
          b'.remaining = rest :=
  simpleBinary_roundTrip schemaObjects .v2 6 (.struct 1) (.struct objectDerived)
    (.struct objectDerived_hasStruct) rfl

end Bond.Cpp

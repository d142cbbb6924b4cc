import Bond.Cpp.Objects

set_option autoImplicit false

/-! # Objects as values

With a schema at runtime an object is the value that the schema describes: a nullable is a list of
one item or none, and a blob a list of bytes. Both are serialized to the same bytes. -/

namespace Bond.Cpp

open Decoder

variable {m : Nat}

/-! ## Values -/

/-- The items of a blob -/
def blobItems (bytes : List UInt8) : List Value :=
  bytes.map fun byte => .basic (.int8 byte.toInt8)

section

variable (C : CppSchema m)

mutual

/-- The value of an object of a type. An object of another type is left as something else. -/
def CppObject.value (X : CppType m) : CppObject → Value
  | .basic v => .basic v
  | .struct s =>
      match X with
      | .struct x => .struct (s.value x)
      | _ => .bonded []
  | .bonded marshaled => .bonded marshaled
  | .list items => .list .list X.element.typeDef.id (itemValues X.element items)
  | .nullable none => .list .list X.element.typeDef.id []
  | .nullable (some o) => .list .list X.element.typeDef.id [o.value X.element]
  | .blob bytes => .list .list X.element.typeDef.id (blobItems bytes)
  | .set items => .list .set X.element.typeDef.id (items.map Value.basic)
  | .map entries =>
      match X with
      | .map K element => .map (.basic K) element.typeDef.id (entryValues element entries)
      | _ => .bonded []

def itemValues (X : CppType m) : List CppObject → List Value
  | [] => []
  | o :: os => o.value X :: itemValues X os

def entryValues (X : CppType m) : List (BasicValue × CppObject) → List (Value × Value)
  | [] => []
  | (k, o) :: entries => (.basic k, o.value X) :: entryValues X entries

/-- The fields of a class. Nothing stands for a `maybe` that has nothing in it. -/
def memberValues (fields : List (CppField m)) : List (UInt16 × Option CppObject) → Fields
  | [] => []
  | (_, none) :: members => memberValues fields.tail members
  | (id, some o) :: members =>
      match fields with
      | [] => []
      | f :: fields => (id, o.value f.type) :: memberValues fields members

def CppStructObject.value (x : Fin m) : CppStructObject → StructValue
  | .root members => .root (memberValues (C.structs x).fields members)
  | .derived base members =>
      match (C.structs x).base with
      | some y => .derived (base.value y) (memberValues (C.structs x).fields members)
      | none => .root (memberValues (C.structs x).fields members)

end

end

section

variable {C : CppSchema m}

theorem itemValues_eq (X : CppType m) (os : List CppObject) :
    itemValues C X os = os.map (CppObject.value C X) := by
  induction os with
  | nil => rw [itemValues, List.map_nil]
  | cons o os ih => rw [itemValues, ih, List.map_cons]

theorem entryValues_eq (X : CppType m) (entries : List (BasicValue × CppObject)) :
    entryValues C X entries = entries.map fun e => (.basic e.1, e.2.value C X) := by
  induction entries with
  | nil => rw [entryValues, List.map_nil]
  | cons e entries ih =>
      obtain ⟨k, o⟩ := e
      rw [entryValues, ih, List.map_cons]

end

/-! ## Serialized parts -/

section

variable {version : SimpleBinary.Version}

theorem serializeItems_some {os : List CppObject} {bytes : List UInt8}
    (h : serializeItems version os = some bytes) :
    (∀ o ∈ os, o.serialize version = some ((o.serialize version).getD []))
      ∧ bytes = os.flatMap fun o => (o.serialize version).getD [] := by
  induction os generalizing bytes with
  | nil =>
      cases h
      exact ⟨by simp, rfl⟩
  | cons o os ih =>
      rw [serializeItems] at h
      obtain ⟨first, ho, h⟩ := Option.bind_eq_some_iff.1 h
      obtain ⟨rest, hos, h⟩ := Option.bind_eq_some_iff.1 h
      cases h
      obtain ⟨hall, rfl⟩ := ih hos
      have hself : (o.serialize version).getD [] = first := by rw [ho]; rfl
      rw [List.flatMap_cons, hself]
      exact ⟨List.forall_mem_cons.2 ⟨by rw [hself, ho], hall⟩, rfl⟩

theorem serializeEntries_some {entries : List (BasicValue × CppObject)} {bytes : List UInt8}
    (h : serializeEntries version entries = some bytes) :
    (∀ entry ∈ entries, entry.2.serialize version = some ((entry.2.serialize version).getD []))
      ∧ bytes = entries.flatMap fun entry => outputBytes (SimpleBinary.write version entry.1)
          ++ (entry.2.serialize version).getD [] := by
  induction entries generalizing bytes with
  | nil =>
      cases h
      exact ⟨by simp, rfl⟩
  | cons entry entries ih =>
      obtain ⟨k, o⟩ := entry
      rw [serializeEntries] at h
      obtain ⟨first, ho, h⟩ := Option.bind_eq_some_iff.1 h
      obtain ⟨rest, hos, h⟩ := Option.bind_eq_some_iff.1 h
      cases h
      obtain ⟨hall, rfl⟩ := ih hos
      have hself : (o.serialize version).getD [] = first := by rw [ho]; rfl
      rw [List.flatMap_cons, hself]
      exact ⟨List.forall_mem_cons.2 ⟨by rw [hself, ho], hall⟩, rfl⟩

/-- The bytes of a blob are those of its items. -/
theorem encodeSimpleItems_blobItems (bytes : List UInt8) :
    encodeSimpleItems version (blobItems bytes) = bytes := by
  induction bytes with
  | nil => rfl
  | cons byte bytes ih =>
      have hitems : blobItems (byte :: bytes) = .basic (.int8 byte.toInt8) :: blobItems bytes := rfl
      have hbyte : (Value.basic (.int8 byte.toInt8)).encodeSimple version = [byte] := by
        rw [Value.encodeSimple, SimpleBinary.write, outputBytes_writeFixed]
        · simp [BasicValue.bits, BasicValue.type, BasicType.sizeof, Varint.littleEndian]
        all_goals simp
      rw [hitems, encodeSimpleItems, hbyte, ih]
      rfl

/-- The values of the members of a class are the fields of its schema. -/
theorem memberValues_spec {C : CppSchema m} {P : TypeDef m → Value → Prop}
    {fields : List (CppField m)} {members : Members} {bytes : List UInt8}
    (hids : members.map Prod.fst = fields.map CppField.id)
    (hbytes : serializeMembers version members = some bytes)
    (h : ∀ p ∈ fields.zip members, ∀ o bytes, p.2.2 = some o → o.serialize version = some bytes →
      P p.1.type.typeDef (o.value C p.1.type) ∧ (o.value C p.1.type).encodeSimple version = bytes) :
    (memberValues C fields members).map Prod.fst
        = (fields.map CppField.fieldDef).map FieldDef.id
      ∧ (∀ p ∈ (fields.map CppField.fieldDef).zip (memberValues C fields members),
          P p.1.type p.2.2)
      ∧ encodeSimpleFields version (memberValues C fields members) = bytes := by
  induction members generalizing fields bytes with
  | nil =>
      obtain rfl : fields = [] := List.map_eq_nil_iff.1 hids.symm
      cases hbytes
      exact ⟨rfl, by simp, rfl⟩
  | cons member members ih =>
      obtain ⟨id, o⟩ := member
      rcases fields with _ | ⟨f, fields⟩
      · simp at hids
      rw [List.map_cons, List.map_cons, List.cons.injEq] at hids
      obtain ⟨hid, hids⟩ := hids
      cases o with
      | none => cases hbytes
      | some o =>
          rw [serializeMembers] at hbytes
          obtain ⟨first, ho, hbytes⟩ := Option.bind_eq_some_iff.1 hbytes
          obtain ⟨rest, hrest, hbytes⟩ := Option.bind_eq_some_iff.1 hbytes
          cases hbytes
          obtain ⟨hP, hfirst⟩ := h (f, id, some o) List.mem_cons_self o first rfl ho
          obtain ⟨hmap, hall, hbytes⟩ := ih hids hrest fun p hp => h p (List.mem_cons_of_mem _ hp)
          rw [memberValues, List.map_cons, List.map_cons, List.map_cons, hmap, encodeSimpleFields,
            hbytes, hfirst]
          refine ⟨congrArg (· :: _) hid, ?_, rfl⟩
          rw [List.zip_cons_cons]
          exact List.forall_mem_cons.2 ⟨hP, hall⟩

end

/-! ## Objects of a schema -/

section

variable {C : CppSchema m} (version : SimpleBinary.Version)

theorem basic_hasType (S : SchemaDef m) (d : Nat) (v : BasicValue) {T : BasicType}
    (h : v.type = T ∧ v.wellFormed = true) : S.HasType (d + 1) (.basic T) (.basic v) := by
  obtain ⟨rfl, hwf⟩ := h
  exact .basic v hwf

/-- An object that can be serialized is a value of the schema at runtime, and has its bytes. -/
theorem value_of_serialize (d : Nat) :
    (∀ (X : CppType m) (o : CppObject) (bytes : List UInt8), C.HasType d X o →
      o.serialize version = some bytes →
      C.schemaDef.HasType (d + 1) X.typeDef (o.value C X)
        ∧ (o.value C X).encodeSimple version = bytes) ∧
    (∀ (x : Fin m) (s : CppStructObject) (bytes : List UInt8), C.HasStruct d x s →
      s.serialize version = some bytes →
      C.schemaDef.HasStruct (d + 1) x (s.value C x)
        ∧ (s.value C x).encodeSimple version = bytes) := by
  induction d with
  | zero =>
      constructor
      · rintro _ _ _ ⟨⟩
      · rintro _ _ _ ⟨⟩
  | succ d ih =>
      obtain ⟨htype, hstruct⟩ := ih
      constructor
      · intro X o bytes h hbytes
        cases h with
        | basic v hwf =>
            cases hbytes
            exact ⟨.basic v hwf, rfl⟩
        | struct h =>
            rw [CppObject.serialize] at hbytes
            obtain ⟨hs, henc⟩ := hstruct _ _ bytes h hbytes
            exact ⟨.struct hs, henc⟩
        | bonded hx marshaled s hs hwf hlen =>
            cases hbytes
            exact ⟨.bonded hx marshaled s hs hwf hlen, rfl⟩
        | @list _ element items hlen h =>
            rw [CppObject.serialize] at hbytes
            obtain ⟨inner, hinner, hbytes⟩ := Option.bind_eq_some_iff.1 hbytes
            cases hbytes
            obtain ⟨hsome, rfl⟩ := serializeItems_some hinner
            have hitems := fun o ho => htype element o _ (h o ho) (hsome o ho)
            have hlength : (itemValues C element items).length = items.length := by
              rw [itemValues_eq, List.length_map]
            have henc : encodeSimpleItems version (itemValues C element items)
                = items.flatMap fun o => (o.serialize version).getD [] := by
              rw [SimpleBinary.encodeSimpleItems_eq, itemValues_eq, List.flatMap_map]
              exact List.flatMap_congr fun o ho => (hitems o ho).2
            rw [CppObject.value, CppType.element, Value.encodeSimple, hlength, henc]
            refine ⟨.list (hlength.symm ▸ hlen) fun v hv => ?_, rfl⟩
            rw [itemValues_eq] at hv
            obtain ⟨o, ho, rfl⟩ := List.mem_map.1 hv
            exact (hitems o ho).1
        | @nullable _ element item h =>
            cases item with
            | none =>
                cases hbytes
                refine ⟨.list (by decide) (by simp), ?_⟩
                rw [CppObject.value, Value.encodeSimple, encodeSimpleItems, List.append_nil]
                rfl
            | some o =>
                rw [CppObject.serialize] at hbytes
                obtain ⟨inner, hinner, hbytes⟩ := Option.bind_eq_some_iff.1 hbytes
                cases hbytes
                obtain ⟨ho, henc⟩ := htype element o inner (h o rfl) hinner
                refine ⟨.list (show 1 < 2 ^ 32 by decide) fun v hv => ?_, ?_⟩
                · obtain rfl := List.mem_singleton.1 hv
                  exact ho
                · rw [CppObject.value, CppType.element, Value.encodeSimple, encodeSimpleItems,
                    encodeSimpleItems, List.append_nil, henc]
                  rfl
        | @blob _ bytes hlen =>
            cases hbytes
            have hlength : (blobItems bytes).length = bytes.length := List.length_map _
            have hwrite : outputBytes [OutputCall.write bytes] = bytes := by
              simp [outputBytes, OutputCall.bytes]
            rw [CppObject.value, Value.encodeSimple, hlength, encodeSimpleItems_blobItems, hwrite]
            refine ⟨.list (hlength.symm ▸ hlen) fun v hv => ?_, rfl⟩
            obtain ⟨byte, -, rfl⟩ := List.mem_map.1 hv
            exact .basic (.int8 byte.toInt8) rfl
        | @set _ T items hlen h hdistinct =>
            cases hbytes
            have hlength : (items.map Value.basic).length = items.length := List.length_map _
            rw [CppObject.value, Value.encodeSimple, hlength, SimpleBinary.encodeSimpleItems_eq,
              List.flatMap_map]
            refine ⟨.set (hlength.symm ▸ hlen) fun v hv => ?_, rfl⟩
            obtain ⟨w, hw, rfl⟩ := List.mem_map.1 hv
            exact basic_hasType _ d w (h w hw)
        | @map _ K element entries hlen hkeys hdistinct h =>
            rw [CppObject.serialize] at hbytes
            obtain ⟨inner, hinner, hbytes⟩ := Option.bind_eq_some_iff.1 hbytes
            cases hbytes
            obtain ⟨hsome, rfl⟩ := serializeEntries_some hinner
            have hentries := fun e he => htype element e.2 _ (h e he) (hsome e he)
            have hlength : (entryValues C element entries).length = entries.length := by
              rw [entryValues_eq, List.length_map]
            have henc : encodeSimplePairs version (entryValues C element entries)
                = entries.flatMap fun e => outputBytes (SimpleBinary.write version e.1)
                    ++ (e.2.serialize version).getD [] := by
              rw [SimpleBinary.encodeSimplePairs_eq, entryValues_eq, List.flatMap_map]
              refine List.flatMap_congr fun e he => ?_
              rw [(hentries e he).2, Value.encodeSimple]
            rw [CppObject.value, Value.encodeSimple, hlength, henc]
            rw [entryValues_eq] at hlength ⊢
            refine ⟨.map (hlength.symm ▸ hlen) (fun kv hkv => ?_) fun kv hkv => ?_, rfl⟩
            · obtain ⟨e, he, rfl⟩ := List.mem_map.1 hkv
              exact basic_hasType _ d e.1 (hkeys e he)
            · obtain ⟨e, he, rfl⟩ := List.mem_map.1 hkv
              exact (hentries e he).1
      · intro x s bytes h hbytes
        rcases h with ⟨hbase, hids, h⟩ | ⟨hbase, hy, hids, h⟩
        · rw [CppStructObject.serialize] at hbytes
          obtain ⟨hmap, hall, henc⟩ := memberValues_spec hids hbytes fun p hp o bytes ho hbytes =>
            htype _ o bytes (h p hp o ho) hbytes
          exact ⟨.root hbase hmap hall, henc⟩
        · rw [CppStructObject.serialize] at hbytes
          obtain ⟨front, hfront, hbytes⟩ := Option.bind_eq_some_iff.1 hbytes
          obtain ⟨back, hback, hbytes⟩ := Option.bind_eq_some_iff.1 hbytes
          cases hbytes
          obtain ⟨hbase', henc'⟩ := hstruct _ _ front hy hfront
          obtain ⟨hmap, hall, henc⟩ := memberValues_spec hids hback fun p hp o bytes ho hbytes =>
            htype _ o bytes (h p hp o ho) hbytes
          rw [CppStructObject.value, hbase]
          refine ⟨.derived hbase hbase' hmap hall, ?_⟩
          rw [StructValue.encodeSimple, henc', henc]

end

end Bond.Cpp

import Bond.Cpp.CompactBinary
import Bond.Cpp.StructReads

set_option autoImplicit false

/-! # Containers are consumed exactly

Deserializing a value consumes its encoding and nothing else, and assigns what the encoding says, for any
type of the variable and any type of the value: with one exception, a nullable that is not the only item
of its list. -/

namespace Bond.Cpp

open Decoder Hereditary

variable {n m : Nat}

/-! ## One value -/

/-- A struct of the payload has its fields in order, a level for each base of the C++ struct that the
    schema has too, and the required fields. -/
def Site.conforms (S : SchemaDef n) (C : CppSchema m) (site : Site n m) : Bool :=
  match site.value, site.dest, site.type with
  | .struct s, .struct x, .struct i _ =>
      let pairs := pairLevels (S.levels i) (C.schemaDef.levels x)
      (∀ fs ∈ s.levels, PayloadIncreasing fs) ∧ pairs.length ≤ s.levels.length ∧
        ∀ p ∈ pairs.zip s.levels, ∀ g ∈ (C.structs p.1.2).fields, isRequired g = true →
          g ∈ assignedFields S C site.time p.1.1 p.1.2 p.2
  | _, _, _ => true

/-- A nullable of structs gets a list of two or more items, and the schema of the payload is a runtime
    schema. -/
def Site.isLossy : Site n m → Bool
  | ⟨.runtime, type, .nullable X, .list .list element items⟩ =>
      X.isBondType && decide (element = type.element.id) && decide (2 ≤ items.length)
  | _ => false

section

variable {S : SchemaDef n} {C : CppSchema m}

theorem elementOf_id {time : SchemaTime} {element : TypeDef n} {X : CppType m} {type : BondDataType}
    {time' : SchemaTime} {type' : TypeDef n}
    (h : elementOf time element X type = some (time', type')) : type'.id = type := by
  unfold elementOf at h
  split_ifs at h with hnested hmatch
  · cases h
    exact hmatch.1.symm
  · split at h
    · split_ifs at h
      cases h
      rfl
    · cases h

/-- A value in a container is an item of it, a value in a struct is a field of it. -/
theorem Site.mem_children {site c : Site n m} (h : c ∈ site.children S C) :
    (∃ kind items, site.value = .list kind c.type.id items ∧ c.value ∈ items) ∨
    (∃ key items, site.value = .map key c.type.id items ∧ ∃ k, (k, c.value) ∈ items) ∨
    ∃ s, site.value = .struct s ∧ ∃ fs ∈ s.levels, ∃ id, (id, c.value) ∈ fs ∧
      c.value.typeId = c.type.id := by
  obtain ⟨time, type, X, v⟩ := site
  unfold children at h
  split_ifs at h with hmatch
  · split at h
    · next element items hv =>
        split at h
        · next time' type' helement =>
            obtain ⟨v, hmem, rfl⟩ := List.mem_map.1 h
            have hitem : v ∈ items := by
              unfold itemsRead at hmem
              split at hmem
              · exact List.mem_of_mem_take hmem
              · exact hmem
            exact .inl ⟨_, items, by rw [elementOf_id helement]; exact hv, hitem⟩
        · cases h
    · next K element items Y X hv hX =>
        split at h
        · next time' type' helement =>
            split_ifs at h
            · obtain ⟨kv, hmem, rfl⟩ := List.mem_map.1 h
              exact .inr (.inl ⟨_, items, by rw [elementOf_id helement]; exact hv, kv.1, hmem⟩)
            · cases h
        · cases h
    · next s x i _ hv hX htype =>
        obtain ⟨p, hp, hc⟩ := List.mem_flatMap.1 h
        obtain ⟨f, hf, hc⟩ := List.mem_filterMap.1 hc
        obtain ⟨d, hd, rfl⟩ := Option.map_eq_some_iff.1 hc
        obtain ⟨⟨time', type'⟩, hfield, hd⟩ := Option.bind_eq_some_iff.1 hd
        obtain ⟨head, -, hd⟩ := Option.bind_eq_some_iff.1 hd
        cases hd
        exact .inr (.inr ⟨s, hv, p.2, (List.of_mem_zip hp).2, f.1, hf, (fieldType_id hfield).symm⟩)
    · cases h
  · cases h

theorem Site.child_wellFormed {site c : Site n m} (h : c ∈ site.children S C)
    (hwf : site.value.wellFormed = true) :
    c.value.wellFormed = true ∧ c.value.typeId = c.type.id := by
  rcases mem_children h with ⟨kind, items, hv, hc⟩ | ⟨key, items, hv, k, hc⟩ |
    ⟨s, hv, fs, hfs, id, hc, htype⟩
  · rw [hv, Value.wellFormed, Bool.and_eq_true, wellFormedItems_iff] at hwf
    obtain ⟨htype, hwf⟩ := hwf.2 c.value hc
    exact ⟨hwf, htype⟩
  · rw [hv, Value.wellFormed, Bool.and_eq_true, wellFormedPairs_iff] at hwf
    obtain ⟨-, htype, hwf⟩ := hwf.2 (k, c.value) hc
    exact ⟨hwf, htype⟩
  · rw [hv, Value.wellFormed, StructValue.wellFormed_iff] at hwf
    exact ⟨hwf fs hfs (id, c.value) hc, htype⟩

/-- What is in a value is shorter. -/
theorem Site.child_encode_length_lt (P : ProtocolWriter) {site c : Site n m}
    (h : c ∈ site.children S C) : (c.value.encode P).length < (site.value.encode P).length := by
  rcases mem_children h with ⟨kind, items, hv, hc⟩ | ⟨key, items, hv, k, hc⟩ |
    ⟨s, hv, fs, hfs, id, hc, htype⟩
  · have hpos := P.containerBegin_pos (UInt32.ofNat items.length) c.type.id
    have hle := encode_item_length_le P hc
    rw [hv, Value.encode, List.length_append]
    omega
  · have hpos := P.containerBeginPair_pos (UInt32.ofNat items.length) key c.type.id
    have hle := encode_pair_length_le P hc
    dsimp only at hle
    rw [hv, Value.encode, List.length_append]
    omega
  · rw [hv]
    exact field_encode_length_lt P hfs hc

/-! ## Overloads of `Deserialize` -/

theorem isMatching_id {T : TypeDef n} {X : CppType m} (h : isMatching T X = true)
    (hT : T.id.isNonBasic = true) : T.id = X.id := by
  cases T <;> cases X <;>
    simp_all [isMatching, CppType.isBondType, TypeDef.id, CppType.id, BondDataType.isNonBasic]

/-- A value that is not skipped is of the kind that the variable is of. -/
theorem isValueMatching_id {time : SchemaTime} {T : TypeDef n} {X : CppType m}
    (h : isValueMatching time T X = true) (hT : T.id.isNonBasic = true) : T.id = X.id := by
  cases time with
  | compileTime => exact isMatching_id h hT
  | runtime =>
      rw [isValueMatching, Bool.and_eq_true, decide_eq_true_eq] at h
      exact h.2

/-- A basic value is read into a variable of a matching basic type. -/
theorem isValueMatching_basic {time : SchemaTime} {T : BasicType} {X : CppType m}
    (h : isValueMatching time (.basic T : TypeDef n) X = true) : ∃ Y, X = .basic Y := by
  cases time with
  | compileTime => cases X <;> first | exact ⟨_, rfl⟩ | cases h
  | runtime =>
      rw [isValueMatching, Bool.and_eq_true, decide_eq_true_eq] at h
      cases X <;> first | exact ⟨_, rfl⟩ | cases h.2

variable {P : TaggedProtocol} {debug : Bool}
  {deserialize : SchemaTime → TypeDef n → CppType m → CppValue m → Reader (CppValue m)}

/-- A container with items of one type, as `assign` describes it. -/
theorem assign_list {time : SchemaTime} {type : TypeDef n} {X : CppType m} {kind : ListKind}
    {element : BondDataType} {items : List Value} (hmatch : isValueMatching time type X = true)
    (var : CppValue m) :
    (Value.list kind element items).assign debug S C time type X var =
      match elementOf time type.element X.element element with
      | some (time', type') => assignElements debug S C items time' type' X var
      | none => var := by
  unfold Value.assign
  rw [if_pos hmatch]
  cases elementOf time type.element X.element element with
  | none => rfl
  | some d => cases X <;> rfl

/-- The bases of every struct come to an end. -/
def SchemaDef.Grounded (S : SchemaDef n) : Prop :=
  ∀ i, ∃ is, S.Hierarchy i is ∧ is.length < 2 ^ 16

/-- What `Deserialize` does on a value, given what it does on the values in it and the variables that
    they are assigned to. -/
theorem readsInto_deserializeValue (hP : P.Plain) (hS : S.Grounded) (hC : C.schemaDef.Grounded)
    {site : Site n m} (hconf : site.conforms S C = true) (hlossy : ¬ site.isLossy = true)
    (hwf : site.value.wellFormed = true) (htype : site.value.typeId = site.type.id)
    (var : CppValue m) (hreads : ∀ c ∈ site.children S C, ∀ o,
      Holds debug site.dest var c.dest o → ReadsInto P debug S C deserialize c o) :
    ReadsInto P debug S C (deserializeValue P.reader debug S C deserialize) site var := by
  obtain ⟨time, type, X, v⟩ := site
  unfold ReadsInto
  have hskip := (P.decodes_skip v hwf).bind_return fun _ => var
  dsimp only at hconf hwf htype hreads ⊢
  rw [htype] at hskip
  by_cases hmatch : isValueMatching time type X = true
  · cases v with
    | basic v =>
        obtain rfl : type = .basic v.type := by
          cases type <;> simp_all [Value.typeId, TypeDef.id]
        obtain ⟨Y, rfl⟩ := isValueMatching_basic hmatch
        rw [Value.wellFormed] at hwf
        rw [deserializeValue, if_pos hmatch, Value.encode]
        unfold Value.assign
        rw [if_pos hmatch]
        exact (decodes_deserializeBasic P Y hwf).map CppValue.basic
    | list kind element items =>
        have hnon : type.id.isNonBasic = true := by
          rw [← htype]
          cases kind <;> rfl
        have hid := isValueMatching_id hmatch hnon
        have hcontainer : X.isContainer = true ∧ ∀ Y E, X ≠ .map Y E := by
          rw [← htype] at hid
          cases kind <;> cases X <;>
            simp_all [Value.typeId, ListKind.typeId, CppType.id, CppType.isContainer]
        have hcall : deserializeValue P.reader debug S C deserialize time type X var =
            deserializeContainer P.reader deserialize time type.element X var := by
          unfold deserializeValue
          rw [if_pos hmatch]
          cases X with
          | map Y E => exact absurd rfl (hcontainer.2 Y E)
          | list | nullable | blob | set => rfl
          | _ => cases hcontainer.1
        simp only [Value.wellFormed, Bool.and_eq_true, decide_eq_true_eq, wellFormedItems_iff] at hwf
        rw [hcall, assign_list hmatch, Value.encode]
        refine decodes_deserializeContainer hP hwf.1.1 hwf.1.2 hwf.2 ?_ var ?_ hcontainer.1
          hcontainer.2
        · rintro E rfl rfl hbond rfl
          have hkind : kind = .list := by
            cases kind with
            | list => rfl
            | set =>
                rw [← htype] at hid
                cases hid
          subst hkind
          by_contra hle
          exact hlossy (by simp [Site.isLossy, hbond]; omega)
        · intro time' type' helement v hv o ho
          refine hreads _ ?_ o ho
          simp only [Site.children, if_pos hmatch, helement]
          exact List.mem_map_of_mem hv
    | map key element items =>
        have hnon : type.id.isNonBasic = true := by
          rw [← htype]
          rfl
        obtain ⟨Y, E, rfl⟩ : ∃ Y E, X = .map Y E := by
          have hid := isValueMatching_id hmatch hnon
          rw [← htype] at hid
          cases X <;> first | exact ⟨_, _, rfl⟩ | cases hid
        simp only [Value.wellFormed, Bool.and_eq_true, decide_eq_true_eq, wellFormedPairs_iff] at hwf
        obtain ⟨⟨⟨hlength, hkey⟩, helement⟩, hitems⟩ := hwf
        obtain ⟨K, rfl⟩ : ∃ K, key = .basic K := by
          cases key <;> first | exact ⟨_, rfl⟩ | cases hkey
        rw [deserializeValue, if_pos hmatch, Value.encode]
        unfold Value.assign
        rw [if_pos hmatch]
        refine decodes_deserializeMap hlength helement hitems ?_ var
        intro time' type' helem hmatching kv hkv o ho
        refine hreads ⟨time', type', E, kv.2⟩ ?_ o ho
        simp only [Site.children, if_pos hmatch, helem, if_pos hmatching]
        exact List.mem_map_of_mem hkv
    | struct s =>
        have hnon : type.id.isNonBasic = true := by
          rw [← htype]
          rfl
        obtain ⟨i, bondedType, rfl⟩ : ∃ i b, type = .struct i b := by
          cases type <;> first | exact ⟨_, _, rfl⟩ | cases htype
        have hid := isValueMatching_id hmatch hnon
        rw [Value.wellFormed] at hwf
        unfold deserializeValue Value.assign
        rw [if_pos hmatch, if_pos hmatch]
        cases X with
        | struct x =>
            obtain ⟨is, hi, hilt⟩ := hS i
            obtain ⟨xs, hx, hxlt⟩ := hC x
            obtain ⟨hincreasing, hlevels, hrequired⟩ := of_decide_eq_true hconf
            simp only [hi.levels_eq, hx.levels_eq] at hlevels hrequired ⊢
            refine decodes_applyToVar hi hx hilt hxlt hlevels hincreasing hwf var fun p hp => ?_
            refine ⟨fun f hf time' type' head hfield => ?_, hrequired p hp⟩
            refine hreads ⟨time', type', head.type, f.2⟩ ?_ _ ⟨(p.1.2, f.1), rfl⟩
            simp only [Site.children, if_pos hmatch, hi.levels_eq, hx.levels_eq]
            refine List.mem_flatMap.2 ⟨p, hp, List.mem_filterMap.2 ⟨f, hf, ?_⟩⟩
            rw [hfield]
            rfl
        | bonded x =>
            have hread := decodes_nothrow (P.decodes_skip (.struct s) (by rwa [Value.wellFormed]))
            exact hread.bind_return fun _ => CppValue.bonded
        | _ => cases hid
    | bonded payload => cases hwf
  · have hassign : v.assign debug S C time type X var = var := by
      unfold Value.assign
      cases v <;> simp only [if_neg hmatch]
    unfold deserializeValue
    rw [if_neg hmatch, hassign]
    exact hskip

/-! ## All values -/

/-- What is asked of a value that is read: that it is well formed and of the type that the schema says,
    and that it fits a buffer. -/
structure Site.Regular (P : TaggedProtocol) (S : SchemaDef n) (C : CppSchema m) (site : Site n m) :
    Prop where
  conforms : site.conforms S C = true
  wellFormed : site.value.wellFormed = true
  typeId : site.value.typeId = site.type.id
  length_lt : (site.value.encode P.writer).length < 2 ^ 32

theorem regular_of_conforms {site : Site n m} (hwf : site.value.wellFormed = true)
    (htype : site.value.typeId = site.type.id)
    (hlt : (site.value.encode P.writer).length < 2 ^ 32)
    (h : Everywhere (Site.children S C) (fun s => s.conforms S C = true) site) :
    Everywhere (Site.children S C) (Site.Regular P S C) site := by
  induction h with
  | intro h _ ih =>
      refine .intro ⟨h, hwf, htype, hlt⟩ fun c hc => ?_
      obtain ⟨hcwf, hctype⟩ := Site.child_wellFormed hc hwf
      exact ih c hc hcwf hctype (Nat.lt_trans (Site.child_encode_length_lt P.writer hc) hlt)

/-- `Deserialize` reads a value if there is no loss anywhere in it. -/
theorem reads_deserializeWithin (hP : P.Plain) (hS : S.Grounded) (hC : C.schemaDef.Grounded)
    {site : Site n m}
    (h : Everywhere (Site.children S C) (fun s => s.Regular P S C ∧ ¬ s.isLossy = true) site)
    {fuel : Nat} (hfuel : (site.value.encode P.writer).length < fuel) :
    Reads P debug S C (deserializeWithin P.reader debug S C fuel) site := by
  induction h generalizing fuel with
  | intro h _ ih =>
      obtain ⟨hregular, hlossy⟩ := h
      obtain ⟨fuel, rfl⟩ : ∃ k, fuel = k + 1 := ⟨fuel - 1, by omega⟩
      rw [deserializeWithin]
      refine fun var => readsInto_deserializeValue hP hS hC hregular.conforms hlossy
        hregular.wellFormed hregular.typeId var fun c hc o _ => ih c hc ?_ o
      have hlt := Site.child_encode_length_lt P.writer hc
      omega

/-- `Deserialize` assigns what the encoding says, if nothing in the value is lost. -/
theorem reads_deserializeVar (hP : P.Plain) (hS : S.Grounded) (hC : C.schemaDef.Grounded)
    {site : Site n m}
    (h : Everywhere (Site.children S C) (fun s => s.Regular P S C ∧ ¬ s.isLossy = true) site) :
    Reads P debug S C (deserializeVar P.reader debug S C) site := by
  intro var
  refine InputBuffer.decodes_remainingLength fun left hleft => ?_
  exact reads_deserializeWithin hP hS hC h (Nat.lt_succ_of_le hleft) var

/-- `Deserialize` assigns what the encoding says, whatever buffer it comes from. -/
theorem reads_of_lossless (hP : P.Plain) (hS : S.Grounded) (hC : C.schemaDef.Grounded)
    {site : Site n m} (hwf : site.value.wellFormed = true)
    (htype : site.value.typeId = site.type.id)
    (h : Everywhere (Site.children S C) (fun s => s.conforms S C = true ∧ ¬ s.isLossy = true) site) :
    Reads P debug S C (deserializeVar P.reader debug S C) site := by
  intro var b rest hb
  -- what is in a buffer has less than 2^32 bytes
  have hlt : (site.value.encode P.writer).length < 2 ^ 32 := by
    have hlength := InputBuffer.remaining_length_lt b
    rw [hb, List.length_append] at hlength
    omega
  have hregular := regular_of_conforms hwf htype hlt (h.mono fun _ h => h.1)
  have hlossless := h.mono fun _ h => h.2
  exact reads_deserializeVar hP hS hC (hregular.and hlossless) var b rest hb

/-- No value is empty. -/
theorem encode_pos (hP : P.Plain) {v : Value} (h : v.wellFormed = true) :
    0 < (v.encode P.writer).length := by
  cases v with
  | basic v =>
      rw [Value.encode]
      exact hP.write_pos v
  | list kind element items =>
      have hpos := P.writer.containerBegin_pos (UInt32.ofNat items.length) element
      rw [Value.encode, List.length_append]
      omega
  | map key element items =>
      have hpos := P.writer.containerBeginPair_pos (UInt32.ofNat items.length) key element
      rw [Value.encode, List.length_append]
      omega
  | struct s =>
      rw [encode_struct, List.length_append, List.length_append, stopBytes_length]
      omega
  | bonded payload => cases h

end

/-! ## Protocols -/

theorem writeFixed_int8 (v : Int8) : outputBytes (writeFixed (.int8 v)) = [v.toUInt8] := by
  rw [outputBytes_writeFixed]
  simp only [BasicValue.type, BasicType.sizeof, BasicValue.bits, Varint.littleEndian,
    UInt8.ofNat_toNat]

theorem writeFixed_pos {v : BasicValue} (h : v.type.isString = false) :
    0 < (outputBytes (writeFixed v)).length := by
  rw [outputBytes_writeFixed, Varint.littleEndian_length]
  cases v <;> first | exact Nat.succ_pos _ | cases h

theorem writeString_pos {v : BasicValue} (h : v.type.isString = true) :
    0 < (outputBytes (writeString v)).length := by
  have hpos (k : Nat) := Varint.varint_length_pos k
  cases v with
  | string units | wstring units =>
      rw [writeString, outputBytes_cons, List.length_append, bytes_writeVariableUnsigned]
      exact Nat.add_pos_left (hpos _) _
  | _ => cases h

theorem fastBinary_plain : fastBinary.Plain where
  write_int8 v := writeFixed_int8 v
  write_pos v := by
    show 0 < (outputBytes (FastBinary.write v)).length
    rw [FastBinary.write]
    split_ifs with hstring
    · exact writeString_pos hstring
    · exact writeFixed_pos (by simpa using hstring)

theorem compactBinary_plain (version : CompactBinary.Version) : (compactBinary version).Plain where
  write_int8 v := writeFixed_int8 v
  write_pos v := by
    show 0 < (outputBytes (CompactBinary.write v)).length
    cases hvar : CompactBinary.varUnsigned v with
    | some u =>
        rw [CompactBinary.outputBytes_write hvar]
        exact Varint.varint_length_pos u.toNat
    | none =>
        cases v with
        | string units => exact writeString_pos (v := .string units) rfl
        | wstring units => exact writeString_pos (v := .wstring units) rfl
        | _ => first | exact writeFixed_pos rfl | cases hvar

/-! ### A nullable struct and a field behind it -/

/-- A struct without fields, and a struct with a nullable of it and a number. -/
def nullableStructs : CppSchema 2 where
  structs
    | 0 =>
        { metadata := { name := "Outer", qualifiedName := "Outer", modifier := .optional }
          base := none
          fields := [
            { metadata := { name := "inner", qualifiedName := "", modifier := .optional }
              id := 0
              type := .nullable (.struct 1) },
            { metadata := { name := "number", qualifiedName := "", modifier := .optional }
              id := 1
              type := .basic .uint8 }]
          increasing := by decide }
    | 1 =>
        { metadata := { name := "Inner", qualifiedName := "Inner", modifier := .optional }
          base := none
          fields := []
          increasing := CppStruct.increasing_nil }
  root := 0
  size_le := SchemaDef.two_le

/-- A list with `k` structs for the nullable, and 7 for the number. -/
def outerStruct (k : Nat) : StructValue :=
  .root [(0, .list .list .struct (List.replicate k (.struct (.root [])))), (1, .basic (.uint8 7))]

theorem nullableStructs_grounded : nullableStructs.schemaDef.Grounded := by
  intro i
  have hnone : (nullableStructs.schemaDef.structs i).baseDef = none := by
    revert i
    decide
  exact ⟨[i], .root hnone, by rw [List.length_singleton]; omega⟩

/-- The number in an object -/
def CppValue.number (var : CppValue 2) : Option BasicValue :=
  match var.getField (0, 1) (.basic .uint8) with
  | .basic v => some v
  | _ => none

end Bond.Cpp

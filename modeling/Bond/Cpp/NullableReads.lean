import Bond.Cpp.SimpleBinaryRoundTrip
import Bond.Cpp.DeserializeExact

set_option autoImplicit false

/-! # Nullables

A nullable has the wire format of a list, so that any number of elements may come for it. All of
them are consumed and the first one is kept. It is assigned to what the nullable held before:
`resize_list` (cpp/inc/bond/core/nullable.h) makes a new value only if there is none. -/

namespace Bond.Cpp

open Decoder Hereditary

variable {n m : Nat}

/-! ## Values that overwrite a variable -/

section

mutual

/-- Whether nothing is left of what a variable of the type `X` held when the value is assigned to
    it. Only structs are assigned field by field. -/
def Value.overwrites : Value → SchemaTime → TypeDef n → CppType m → Bool
  | .basic _, time, type, X =>
      match X with
      | .basic _ => isValueMatching time type X
      | _ => false
  | .list _ element items, time, type, X =>
      isValueMatching time type X &&
        match elementOf time type.element X.element element, X with
        | some (time, type), .list X => overwritesItems items time type X
        | some (time, type), .nullable X => overwritesFirst items time type X
        | some _, .blob | some _, .set _ => true
        | _, _ => false
  | .map key element _, time, type, X =>
      isValueMatching time type X &&
        match X, key with
        | .map Y X, .basic K =>
            isMatchingBasic K Y && (elementOf time type.element X element).isSome
        | _, _ => false
  | .struct _, time, type, X =>
      match X with
      | .bonded _ => isValueMatching time type X
      | _ => false
  | .bonded _, _, _, _ => false

def overwritesItems : List Value → SchemaTime → TypeDef n → CppType m → Bool
  | [], _, _, _ => true
  | v :: vs, time, type, X => v.overwrites time type X && overwritesItems vs time type X

def overwritesFirst : List Value → SchemaTime → TypeDef n → CppType m → Bool
  | [], _, _, _ => true
  | v :: _, time, type, X => v.overwrites time type X

end

variable (debug : Bool) (S : SchemaDef n) (C : CppSchema m)

mutual

theorem assign_of_overwrites : ∀ (v : Value) (time : SchemaTime) (type : TypeDef n) (X : CppType m),
    v.overwrites time type X = true → ∀ var : CppValue m,
    v.assign debug S C time type X var = v.assign debug S C time type X X.fresh
  | .basic v, time, type, X, h, var => by
      unfold Value.overwrites at h
      cases X with
      | basic X => rw [Value.assign, Value.assign, if_pos h, if_pos h]
      | _ => cases h
  | .list kind element items, time, type, X, h, var => by
      unfold Value.overwrites at h
      rw [Bool.and_eq_true] at h
      obtain ⟨hmatch, h⟩ := h
      unfold Value.assign
      rw [if_pos hmatch, if_pos hmatch]
      cases helement : elementOf time type.element X.element element with
      | none => simp [helement] at h
      | some d =>
          rw [helement] at h
          cases X with
          | list X =>
              exact congrArg CppValue.list (assignItems_of_overwrites items d.1 d.2 X h
                (resizeList_length X items.length _) (resizeList_length X items.length _))
          | nullable X =>
              exact congrArg CppValue.nullable (assignFirst_of_overwrites items d.1 d.2 X h _ _)
          | blob | set => rfl
          | _ => cases h
  | .map key element items, time, type, X, h, var => by
      unfold Value.overwrites at h
      rw [Bool.and_eq_true] at h
      obtain ⟨hmatch, h⟩ := h
      unfold Value.assign
      rw [if_pos hmatch, if_pos hmatch]
      cases X with
      | map Y X =>
          cases key with
          | basic K =>
              rw [Bool.and_eq_true] at h
              obtain ⟨d, hd⟩ := Option.isSome_iff_exists.1 h.2
              simp only [if_pos h.1, hd]
          | _ => cases h
      | _ => cases h
  | .struct s, time, type, X, h, var => by
      unfold Value.overwrites at h
      cases X with
      | bonded x => rw [Value.assign, Value.assign, if_pos h, if_pos h]
      | _ => cases h
  | .bonded _, _, _, _, h, _ => by
      unfold Value.overwrites at h
      cases h

theorem assignItems_of_overwrites : ∀ (items : List Value) (time : SchemaTime) (type : TypeDef n)
    (X : CppType m), overwritesItems items time type X = true → ∀ {old old' : List (CppValue m)},
    old.length = items.length → old'.length = items.length →
    assignItems debug S C items time type X old = assignItems debug S C items time type X old'
  | [], _, _, _, _, _, _, _, _ => by simp [assignItems]
  | v :: vs, time, type, X, h, old, old', hold, hold' => by
      rw [overwritesItems, Bool.and_eq_true] at h
      obtain ⟨o, old, rfl⟩ := List.exists_cons_of_length_eq_add_one hold
      obtain ⟨o', old', rfl⟩ := List.exists_cons_of_length_eq_add_one hold'
      have hvs := assignItems_of_overwrites vs time type X h.2 (Nat.succ.inj hold)
        (Nat.succ.inj hold')
      have hv := assign_of_overwrites v time type X h.1
      rw [assignItems, assignItems, hvs, hv o, hv o']

theorem assignFirst_of_overwrites : ∀ (items : List Value) (time : SchemaTime) (type : TypeDef n)
    (X : CppType m), overwritesFirst items time type X = true → ∀ old old' : CppValue m,
    assignFirst debug S C items time type X old = assignFirst debug S C items time type X old'
  | [], _, _, _, _, _, _ => by rw [assignFirst, assignFirst]
  | v :: _, time, type, X, h, old, old' => by
      have hv := assign_of_overwrites v time type X h
      rw [assignFirst, assignFirst, hv old, hv old']

end

end

/-! ## Lists for a nullable -/

/-- How the elements of a list, of the type `T` by the schema of the payload and of the type
    `element` on the wire, come to a nullable, if they do. -/
def nullableElement (time : SchemaTime) (T : TypeDef n) (X : CppType m) (element : BondDataType) :
    Option (SchemaTime × TypeDef n) :=
  if isValueMatching time (.list T) (.nullable X) then elementOf time T X element else none

section

variable {P : TaggedProtocol} {debug : Bool} {S : SchemaDef n} {C : CppSchema m}

/-- What is assigned to a nullable is assigned by the first element alone. -/
theorem assign_nullable (time : SchemaTime) (T : TypeDef n) (X : CppType m) (element : BondDataType)
    (items : List Value) (var : CppValue m) :
    (Value.list .list element items).assign debug S C time (.list T) (.nullable X) var =
      match nullableElement time T X element with
      | some (time', type) => .nullable (items.head?.map fun v =>
          v.assign debug S C time' type X (var.item.getD X.fresh))
      | none => var := by
  rw [nullableElement]
  by_cases hmatch : isValueMatching time (.list T) (.nullable X) = true
  · rw [if_pos hmatch, assign_list hmatch var]
    show (match elementOf time T X element with
      | some (time', type) => assignElements debug S C items time' type (.nullable X) var
      | none => var) = _
    cases elementOf time T X element with
    | none => rfl
    | some d => cases items <;> simp [assignElements, assignFirst]
  · unfold Value.assign
    rw [if_neg hmatch, if_neg hmatch]

/-- Simple Binary has nothing in front of an element, and skips those after the first one by their
    schema. -/
theorem decodes_deserializeObject_nullable (version : SimpleBinary.Version) {X : CppType m}
    {d : Nat} {objects : List CppObject} {bytes : List UInt8} (hlength : objects.length < 2 ^ 32)
    (htype : ∀ o ∈ objects, C.HasType d X o) (hbytes : serializeItems version objects = some bytes)
    {fuel : Nat} (hfuel : d < fuel) :
    Decodes (deserializeObject C version (fuel + 1) (.nullable X))
      (outputBytes (SimpleBinary.writeSize version (UInt32.ofNat objects.length)) ++ bytes)
      (pure (.nullable objects.head?)) := by
  have hsize := SimpleBinary.decodes_readSize version objects.length hlength
  rw [deserializeObject]
  refine hsize.bind_pure ?_
  cases objects with
  | nil =>
      cases hbytes
      exact Decodes.pure (CppObject.nullable none)
  | cons o objects =>
      rw [serializeItems] at hbytes
      obtain ⟨first, hfirst, hbytes⟩ := Option.bind_eq_some_iff.1 hbytes
      obtain ⟨rest, hrest, hbytes⟩ := Option.bind_eq_some_iff.1 hbytes
      cases hbytes
      obtain ⟨hsome, rfl⟩ := serializeItems_some hrest
      have hitem := (decodes_deserializeObject version d).1 fuel X o first (Nat.le_of_lt hfuel)
        (htype o List.mem_cons_self) hfirst
      have hskip : ∀ p ∈ objects, Decodes (skipSchema C.schemaDef version fuel X.typeDef)
          ((p.serialize version).getD []) (pure ()) := by
        intro p hp
        -- an object is skipped like the value that it is for a schema at runtime
        obtain ⟨hvalue, henc⟩ := (value_of_serialize version d).1 X p _
          (htype p (List.mem_cons_of_mem o hp)) (hsome p hp)
        rw [← henc]
        exact (decodes_skip_schema version (d + 1)).1 fuel X.typeDef _ hfuel hvalue
      have hothers := (Decodes.repeatN_pure objects hskip).bind_return fun _ =>
        CppObject.nullable (some o)
      rw [if_neg (by simp)]
      exact hitem.bind_pure hothers

/-- For any number of elements: all of them are consumed, with tags and without. A nullable is null
    if there is none, and holds the first one otherwise, assigned to what it held before or to a new
    value; what it held makes no difference if the element overwrites it. -/
theorem nullable_takes_first (hP : P.Plain) (hS : S.Grounded) (hC : C.schemaDef.Grounded)
    {time : SchemaTime} {T : TypeDef n} {X : CppType m} {element : BondDataType}
    {items : List Value} (hwf : (Value.list .list element items).wellFormed = true)
    (hconf : Everywhere (Site.children S C) (fun s => s.conforms S C = true)
      ⟨time, .list T, .nullable X, .list .list element items⟩)
    (hlossy : Everywhere (Site.children S C) (fun s => ¬ s.isLossy = true)
      ⟨time, .list T, .nullable X, .list .list element items⟩)
    (version : SimpleBinary.Version) {d : Nat} {objects : List CppObject} {bytes : List UInt8}
    (hlength : objects.length < 2 ^ 32) (htype : ∀ o ∈ objects, C.HasType d X o)
    (hbytes : serializeItems version objects = some bytes) {fuel : Nat} (hfuel : d < fuel) :
    (∀ var : CppValue m,
      Decodes (deserializeVar P.reader debug S C time (.list T) (.nullable X) var)
        ((Value.list .list element items).encode P.writer)
        (pure (match nullableElement time T X element with
          | some (time', type) => .nullable (items.head?.map fun v =>
              v.assign debug S C time' type X (var.item.getD X.fresh))
          | none => var))) ∧
    (∀ time' type, nullableElement time T X element = some (time', type) →
      ∀ v ∈ items.head?, v.overwrites time' type X = true → ∀ var : CppValue m,
      v.assign debug S C time' type X (var.item.getD X.fresh) =
        v.assign debug S C time' type X X.fresh) ∧
    Decodes (deserializeObject C version (fuel + 1) (.nullable X))
      (outputBytes (SimpleBinary.writeSize version (UInt32.ofNat objects.length)) ++ bytes)
      (pure (.nullable objects.head?)) := by
  refine ⟨fun var => ?_, fun time' type _ v _ hv var => ?_, ?_⟩
  · rw [← assign_nullable]
    exact reads_of_lossless hP hS hC hwf rfl (hconf.and hlossy) var
  · exact assign_of_overwrites debug S C v time' type X hv _
  · exact decodes_deserializeObject_nullable version hlength htype hbytes hfuel

end

/-! ### A nullable that held a struct -/

/-- A struct with a number. -/
def numberStruct : CppSchema 1 where
  structs _ :=
    { metadata := { name := "Inner", qualifiedName := "Inner", modifier := .optional }
      base := none
      fields := [
        { metadata := { name := "number", qualifiedName := "", modifier := .optional }
          id := 0
          type := .basic .uint8 }]
      increasing := by decide }
  root := 0
  size_le := SchemaDef.one_le

theorem numberStruct_grounded : numberStruct.schemaDef.Grounded := fun i =>
  ⟨[i], .root rfl, by rw [List.length_singleton]; omega⟩

/-- A list of structs, of which only the last one has a number. -/
def numberList (k : Nat) : Value :=
  .list .list .struct (List.replicate k (.struct (.root [])) ++
    [.struct (.root [(0, .basic (.uint8 7))])])

def numberSite (time : SchemaTime) (k : Nat) : Site 1 1 :=
  ⟨time, .list (.struct 0 false), .nullable (.struct 0), numberList k⟩

theorem numberList_length_lt :
    ((numberList 1).encode fastBinary.writer).length < 2 ^ 32 := by
  decide

/-- A nullable that holds a struct with the number 9. -/
def heldNumber : CppValue 1 :=
  .nullable (some (.struct [((0, 0), .basic (.uint8 9))]))

/-- The number of the struct in a nullable -/
def CppValue.heldNumber (var : CppValue 1) : Option BasicValue :=
  match (var.item.getD (.struct [])).getField (0, 0) (.basic .uint8) with
  | .basic v => some v
  | _ => none

def numberPayload : InputBuffer :=
  .ofBlob ((numberList 1).encode fastBinary.writer) numberList_length_lt

/-- The nullable has the number of the struct that it held, which the first element does not have;
    and with a schema at runtime the second element is not consumed. -/
theorem not_nullable_takes_first :
    ((deserializeVar fastBinary.reader false numberStruct.schemaDef numberStruct .compileTime
        (.list (.struct 0 false)) (.nullable (.struct 0)) heldNumber).run
          numberPayload).toOption.map
      (fun result => (result.1.heldNumber, (remaining result.2).length)) =
        some (some (.uint8 9), 0) ∧
    ((deserializeVar fastBinary.reader false numberStruct.schemaDef numberStruct .compileTime
        (.list (.struct 0 false)) (.nullable (.struct 0)) (.nullable none)).run
          numberPayload).toOption.map
      (fun result => (result.1.heldNumber, (remaining result.2).length)) =
        some (some (.uint8 0), 0) ∧
    ((deserializeVar fastBinary.reader false numberStruct.schemaDef numberStruct .runtime
        (.list (.struct 0 false)) (.nullable (.struct 0)) (.nullable none)).run
          numberPayload).toOption.map
      (fun result => (result.1.heldNumber, (remaining result.2).length)) =
        some (some (.uint8 0), 5) := by
  decide +kernel

/-- Both structs are consumed, and the nullable does not get the number of the second one. -/
theorem nullable_takes_first_sample :
    Decodes (deserializeVar fastBinary.reader false numberStruct.schemaDef numberStruct
        .compileTime (.list (.struct 0 false)) (.nullable (.struct 0)) heldNumber)
      ((numberList 1).encode fastBinary.writer)
      (pure (.nullable (some ((Value.struct (.root [])).assign false numberStruct.schemaDef
        numberStruct .compileTime (.struct 0 false) (.struct 0)
        (.struct [((0, 0), .basic (.uint8 9))]))))) :=
  (nullable_takes_first fastBinary_plain numberStruct_grounded numberStruct_grounded
    (by decide)
    (.of_holdsWithin (fun _ => id) 4 (show holdsWithin _ _ 4 (numberSite .compileTime 1) = true by
      decide +kernel))
    (.of_holdsWithin (fun _ h => of_decide_eq_true h) 4
      (show holdsWithin _ _ 4 (numberSite .compileTime 1) = true by decide +kernel))
    .v1 (show [CppObject.struct (.root [(0, some (.basic (.uint8 1)))])].length < 2 ^ 32 by decide)
    (fun o ho => by
      obtain rfl := List.mem_singleton.1 ho
      refine .struct (.root rfl rfl fun p hp o ho => ?_)
      obtain rfl := List.mem_singleton.1 hp
      cases ho
      exact .basic (.uint8 1) rfl)
    rfl (show 3 < 4 by decide)).1 heldNumber

end Bond.Cpp

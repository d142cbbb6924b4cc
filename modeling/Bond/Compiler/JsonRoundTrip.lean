import Bond.Compiler.Json
import Mathlib.Tactic.NormNum

set_option autoImplicit false

/-! # Reading back the JSON of a syntax tree -/

namespace Bond.Compiler

/-! ## Members and lists -/

section

variable {α : Type} {o : List (String × Json)} {key key' : String} {value : Json}
  {p : Json → JsonParser α}

@[simp] theorem member_cons_self : member ((key, value) :: o) key p = p value := by
  simp [member]

@[simp] theorem member_cons_of_ne (h : key' ≠ key) :
    member ((key', value) :: o) key p = member o key p := by
  have hfalse : (key == key') = false := beq_eq_false_iff_ne.2 h.symm
  simp only [member, List.lookup_cons, hfalse]

@[simp] theorem optionalMember_cons_self :
    optionalMember ((key, value) :: o) key p = nullable p value := by
  simp [optionalMember]

@[simp] theorem optionalMember_cons_of_ne (h : key' ≠ key) :
    optionalMember ((key', value) :: o) key p = optionalMember o key p := by
  have hfalse : (key == key') = false := beq_eq_false_iff_ne.2 h.symm
  simp only [optionalMember, List.lookup_cons, hfalse]

@[simp] theorem optionalMember_nil : optionalMember [] key p = .ok none := rfl

theorem nullable_of_ne (h : value ≠ .null) : nullable p value = some <$> p value := by
  cases value with
  | null => exact absurd rfl h
  | _ => rfl

theorem nullable_ok {a : α} (h : value ≠ .null) (hp : p value = .ok a) :
    nullable p value = .ok (some a) := by
  rw [nullable_of_ne h, hp]
  rfl

variable {toJson : α → Json}

theorem nullable_optionToJson (h : ∀ a, toJson a ≠ .null) (hp : ∀ a, p (toJson a) = .ok a)
    (a : Option α) : nullable p (optionToJson toJson a) = .ok a := by
  cases a with
  | none => rfl
  | some a => exact nullable_ok (h a) (hp a)

theorem mapM_map_ok (hp : ∀ a, p (toJson a) = .ok a) (as : List α) :
    (as.map toJson).mapM p = .ok as := by
  induction as with
  | nil => rfl
  | cons a as ih => simp [hp, ih, bind, Except.bind, pure, Except.pure]

theorem parseArray_map (hp : ∀ a, p (toJson a) = .ok a) (as : List α) :
    parseArray p (.array (as.map toJson)) = .ok as :=
  mapM_map_ok hp as

end

/-! ## The parts without types in them -/

theorem parseStrings_toJson (names : List String) :
    parseArray parseString (stringsToJson names) = .ok names := by
  have hstring : ∀ name : String, parseString (.string name) = .ok name := fun _ => rfl
  exact parseArray_map hstring names

theorem parseModifier_toJson (m : Modifier) : parseModifier m.toJson = .ok m := by
  cases m <;> rfl

theorem parseLanguage_toJson (l : Language) : parseLanguage l.toJson = .ok l := by
  cases l <;> rfl

theorem parseConstraint_toJson (c : Constraint) : parseConstraint c.toJson = .ok c := by
  cases c
  rfl

theorem parseInt_number (n : Int64) : parseInt (.number n.toInt) = .ok n := by
  have hlower := n.le_toInt
  have hupper := n.toInt_lt
  have hcond : (n.toInt : ℚ).den = 1 ∧ -2 ^ 63 ≤ (n.toInt : ℚ).num ∧
      (n.toInt : ℚ).num ≤ 2 ^ 63 - 1 := by
    rw [Rat.den_intCast, Rat.num_intCast]
    omega
  rw [parseInt, parseIntegral, if_pos hcond, Rat.num_intCast, Int64.ofInt_toInt]

theorem parseWord16_number (n : UInt16) : parseWord16 (.number n.toNat) = .ok n := by
  have hupper := n.toNat_lt
  have hcond : ((n.toNat : ℚ)).den = 1 ∧ 0 ≤ ((n.toNat : ℚ)).num ∧
      ((n.toNat : ℚ)).num ≤ 65535 := by
    rw [Rat.den_natCast, Rat.num_natCast]
    omega
  rw [parseWord16, parseIntegral, if_pos hcond, Rat.num_natCast, Int.toNat_natCast,
    UInt16.ofNat_toNat]

theorem parseAttribute_toJson (a : Attribute) : parseAttribute a.toJson = .ok a := by
  simp [parseAttribute, Attribute.toJson, parseStrings_toJson, parseString, bind, Except.bind, pure,
    Except.pure]

theorem parseConstant_toJson (c : Constant) : parseConstant c.toJson = .ok c := by
  have hvalue : nullable parseInt (optionToJson (fun n : Int64 => .number n.toInt)
      c.constantValue) = .ok c.constantValue :=
    nullable_optionToJson (by simp) parseInt_number c.constantValue
  simp [parseConstant, Constant.toJson, parseString, hvalue, bind, Except.bind, pure, Except.pure]

theorem parseTypeParam_toJson (p : TypeParam) : parseTypeParam p.toJson = .ok p := by
  have hne : ∀ c : Constraint, c.toJson ≠ .null := fun c => by cases c; simp [Constraint.toJson]
  have hconstraint := nullable_optionToJson hne parseConstraint_toJson p.paramConstraint
  simp [parseTypeParam, TypeParam.toJson, parseString, hconstraint, bind, Except.bind, pure,
    Except.pure]

theorem parseNamespace_toJson (n : Namespace) : parseNamespace n.toJson = .ok n := by
  obtain ⟨language, name⟩ := n
  cases language with
  | none =>
      simp [parseNamespace, Namespace.toJson, parseStrings_toJson, bind, Except.bind, pure,
        Except.pure]
  | some language =>
      have hne : language.toJson ≠ .null := by cases language <;> simp [Language.toJson]
      have hlanguage := nullable_ok hne (parseLanguage_toJson language)
      simp [parseNamespace, Namespace.toJson, parseStrings_toJson, hlanguage, bind, Except.bind,
        pure, Except.pure]

theorem parseNamespaces_toJson (ns : List Namespace) :
    parseArray parseNamespace (.array (ns.map Namespace.toJson)) = .ok ns :=
  parseArray_map parseNamespace_toJson ns

theorem parseAttributes_toJson (as : List Attribute) :
    parseArray parseAttribute (.array (as.map Attribute.toJson)) = .ok as :=
  parseArray_map parseAttribute_toJson as

theorem nullableAttributes_toJson (as : List Attribute) :
    nullable (parseArray parseAttribute) (.array (as.map Attribute.toJson)) = .ok (some as) :=
  nullable_ok (by simp) (parseAttributes_toJson as)

theorem parseTypeParams_toJson (ps : List TypeParam) :
    parseArray parseTypeParam (.array (ps.map TypeParam.toJson)) = .ok ps :=
  parseArray_map parseTypeParam_toJson ps

theorem parseConstants_toJson (cs : List Constant) :
    parseArray parseConstant (.array (cs.map Constant.toJson)) = .ok cs :=
  parseArray_map parseConstant_toJson cs

/-- A default value that is a finite number, if it is a floating point number at all. -/
def Default.isFinite : Default → Bool
  | .float (.finite _) => true
  | .float _ => false
  | _ => true

theorem parseDefault_toJson {S : Scientific} (hS : S.Identifies) {d : Default}
    (h : d.isFinite = true) : parseDefault S (d.toJson S) = .ok d := by
  cases d with
  | bool x => rfl
  | integer x =>
      simp [parseDefault, Default.toJson, parseInteger, bind, Except.bind, pure, Except.pure]
  | float x =>
      cases x with
      | finite v =>
          simp [parseDefault, Default.toJson, Double.toJson, parseDouble, hS v, bind, Except.bind,
            pure, Except.pure]
      | infinity | nan => cases h
  | string x | enum x => rfl
  | nothing => rfl

theorem BasicType.ofName_name (t : BasicType) : BasicType.ofName t.name = some t := by
  cases t <;> rfl

theorem ContainerKind.ofName_name (kind : ContainerKind) :
    ContainerKind.ofName kind.name = some kind := by
  cases kind <;> rfl

theorem parseMethodStreamingTag_name (tag : MethodStreamingTag) :
    parseMethodStreamingTag (.string tag.name) = .ok tag := by
  cases tag <;> rfl

/-! ## Types and declarations -/

-- What JSON can express of a syntax tree: defaults that are finite, and events without streaming.
mutual

def BondType.isExpressible : BondType → Bool
  | .basic _ | .intTypeArg _ | .typeParam _ => true
  | .container _ t => t.isExpressible
  | .map k t => k.isExpressible && t.isExpressible
  | .userDefined decl args => decl.isExpressible && typesAreExpressible args

def typesAreExpressible : List BondType → Bool
  | [] => true
  | t :: ts => t.isExpressible && typesAreExpressible ts

def optionIsExpressible : Option BondType → Bool
  | none => true
  | some t => t.isExpressible

def Field.isExpressible : Field → Bool
  | .mk _ _ _ type _ default => type.isExpressible && default.all Default.isFinite

def fieldsAreExpressible : List Field → Bool
  | [] => true
  | f :: fs => f.isExpressible && fieldsAreExpressible fs

def MethodType.isExpressible : MethodType → Bool
  | .void => true
  | .unary t | .streaming t => t.isExpressible

def Method.isExpressible : Method → Bool
  | .function _ result _ input => result.isExpressible && input.isExpressible
  | .event _ _ (.streaming _) => false
  | .event _ _ input => input.isExpressible

def methodsAreExpressible : List Method → Bool
  | [] => true
  | m :: ms => m.isExpressible && methodsAreExpressible ms

def Declaration.isExpressible : Declaration → Bool
  | .struct _ _ _ _ base fields => optionIsExpressible base && fieldsAreExpressible fields
  | .enum _ _ _ _ | .forward _ _ _ => true
  | .typeAlias _ _ _ type => type.isExpressible
  | .service _ _ _ _ base methods => optionIsExpressible base && methodsAreExpressible methods

end

theorem Json.depth_pos (json : Json) : 0 < json.depth := by
  cases json <;> simp [depth]

section

variable (S : Scientific)

theorem BondType.toJson_ne_null (t : BondType) : t.toJson S ≠ .null := by
  cases t with
  | userDefined decl args => cases args <;> simp [BondType.toJson]
  | _ => simp [BondType.toJson]

/-- The argument that both halves of a function have in common: what a method type is written as. -/
def MethodType.typeOf : MethodType → Option BondType
  | .void => none
  | .unary t | .streaming t => some t

theorem methodInputOf_tag (input result : MethodType) :
    methodInputOf input.typeOf (methodStreamingTag input result) = .ok input := by
  cases input <;> cases result <;> rfl

theorem methodResultOf_tag (input result : MethodType) :
    methodResultOf result.typeOf (methodStreamingTag input result) = .ok result := by
  cases input <;> cases result <;> rfl

variable {S}

mutual

theorem parseType_toJson (hS : S.Identifies) (t : BondType) (n : Nat) (hdepth : (t.toJson S).depth ≤ n)
    (h : t.isExpressible = true) : parseType S n (t.toJson S) = .ok t := by
  obtain ⟨n, rfl⟩ : ∃ k, n = k + 1 := ⟨n - 1, by have := (t.toJson S).depth_pos; omega⟩
  cases t with
  | basic b => simp [BondType.toJson, parseType, BasicType.ofName_name]
  | container kind t =>
      simp only [BondType.toJson, Json.depth, depthMembers] at hdepth
      have ht := parseType_toJson hS t n (by omega) h
      cases kind <;>
        simp [BondType.toJson, parseType, ContainerKind.name, ContainerKind.ofName, ht, bind,
          Except.bind, pure, Except.pure]
  | map k t =>
      simp only [BondType.toJson, Json.depth, depthMembers] at hdepth
      simp only [BondType.isExpressible, Bool.and_eq_true] at h
      have hk := parseType_toJson hS k n (by omega) h.1
      have ht := parseType_toJson hS t n (by omega) h.2
      simp [BondType.toJson, parseType, hk, ht, bind, Except.bind, pure, Except.pure]
  | intTypeArg x =>
      simp [BondType.toJson, parseType, parseInt_number, bind, Except.bind, pure, Except.pure]
  | typeParam p =>
      simp [BondType.toJson, parseType, parseTypeParam_toJson, bind, Except.bind, pure, Except.pure]
  | userDefined decl args =>
      simp only [BondType.isExpressible, Bool.and_eq_true] at h
      cases args with
      | nil =>
          simp only [BondType.toJson, Json.depth, depthMembers] at hdepth
          have hdecl := parseDeclaration_toJson hS decl n (by omega) h.1
          simp [BondType.toJson, parseType, hdecl, bind, Except.bind, pure, Except.pure]
      | cons arg args =>
          simp only [BondType.toJson, Json.depth, depthMembers] at hdepth
          have hdecl := parseDeclaration_toJson hS decl n (by omega) h.1
          have hargs := parseTypes_toJson hS (arg :: args) n (by rw [typesToJson]; omega) h.2
          have harray : nullable (parseArray (parseType S n))
              (.array (arg.toJson S :: typesToJson S args)) = .ok (some (arg :: args)) :=
            nullable_ok (by simp) hargs
          simp [BondType.toJson, parseType, hdecl, harray, bind, Except.bind, pure, Except.pure]

theorem parseTypes_toJson (hS : S.Identifies) (ts : List BondType) (n : Nat) (hdepth : depthItems (typesToJson S ts) ≤ n)
    (h : typesAreExpressible ts = true) : (typesToJson S ts).mapM (parseType S n) = .ok ts := by
  cases ts with
  | nil => rfl
  | cons t ts =>
      simp only [typesToJson, depthItems] at hdepth
      simp only [typesAreExpressible, Bool.and_eq_true] at h
      have ht := parseType_toJson hS t n (by omega) h.1
      have hts := parseTypes_toJson hS ts n (by omega) h.2
      simp [typesToJson, ht, hts, bind, Except.bind, pure, Except.pure]

theorem parseOption_toJson (hS : S.Identifies) (base : Option BondType) (n : Nat)
    (hdepth : (optionTypeToJson S base).depth ≤ n) (h : optionIsExpressible base = true) :
    nullable (parseType S n) (optionTypeToJson S base) = .ok base := by
  cases base with
  | none => rfl
  | some t => exact nullable_ok (t.toJson_ne_null S) (parseType_toJson hS t n hdepth h)

theorem parseField_toJson (hS : S.Identifies) (f : Field) (n : Nat) (hdepth : (f.toJson S).depth ≤ n)
    (h : f.isExpressible = true) : parseField S n (f.toJson S) = .ok f := by
  obtain ⟨n, rfl⟩ : ∃ k, n = k + 1 := ⟨n - 1, by have := (f.toJson S).depth_pos; omega⟩
  cases f with
  | mk attributes ordinal modifier type name default =>
      simp only [Field.toJson, Json.depth, depthMembers] at hdepth
      simp only [Field.isExpressible, Bool.and_eq_true] at h
      have htype := parseType_toJson hS type n (by omega) h.1
      have hattributes := nullableAttributes_toJson attributes
      have hne : modifier.toJson ≠ .null := by cases modifier <;> simp [Modifier.toJson]
      have hmodifier := nullable_ok hne (parseModifier_toJson modifier)
      have hdefault : nullable (parseDefault S) (optionToJson (Default.toJson S) default) =
          .ok default := by
        cases default with
        | none => rfl
        | some d =>
            exact nullable_ok (by cases d <;> simp [Default.toJson, optionToJson])
              (parseDefault_toJson hS h.2)
      simp [Field.toJson, parseField, htype, hattributes, hmodifier, hdefault, parseWord16_number,
        parseString, bind, Except.bind, pure, Except.pure]

theorem parseFields_toJson (hS : S.Identifies) (fs : List Field) (n : Nat) (hdepth : depthItems (fieldsToJson S fs) ≤ n)
    (h : fieldsAreExpressible fs = true) : (fieldsToJson S fs).mapM (parseField S n) = .ok fs := by
  cases fs with
  | nil => rfl
  | cons f fs =>
      simp only [fieldsToJson, depthItems] at hdepth
      simp only [fieldsAreExpressible, Bool.and_eq_true] at h
      have hf := parseField_toJson hS f n (by omega) h.1
      have hfs := parseFields_toJson hS fs n (by omega) h.2
      simp [fieldsToJson, hf, hfs, bind, Except.bind, pure, Except.pure]

theorem parseMethodType_toJson (hS : S.Identifies) (t : MethodType) (n : Nat) (hdepth : (t.toJson S).depth ≤ n)
    (h : t.isExpressible = true) : nullable (parseType S n) (t.toJson S) = .ok t.typeOf := by
  cases t with
  | void => rfl
  | unary t => exact nullable_ok (t.toJson_ne_null S) (parseType_toJson hS t n hdepth h)
  | streaming t => exact nullable_ok (t.toJson_ne_null S) (parseType_toJson hS t n hdepth h)

theorem parseMethod_toJson (hS : S.Identifies) (m : Method) (n : Nat) (hdepth : (m.toJson S).depth ≤ n)
    (h : m.isExpressible = true) : parseMethod S n (m.toJson S) = .ok m := by
  obtain ⟨n, rfl⟩ : ∃ k, n = k + 1 := ⟨n - 1, by have := (m.toJson S).depth_pos; omega⟩
  cases m with
  | event attributes name input =>
      have hattributes := nullableAttributes_toJson attributes
      simp only [Method.toJson, Json.depth, depthMembers] at hdepth
      cases input with
      | streaming t => cases h
      | void =>
          have hinput : nullable (parseType S n) (MethodType.toJson S .void) = .ok none := rfl
          simp [Method.toJson, parseMethod, hattributes, hinput, parseString, List.lookup_cons, bind,
            Except.bind, pure, Except.pure]
      | unary t =>
          have hinput := parseMethodType_toJson hS (.unary t) n (by omega) h
          simp [Method.toJson, parseMethod, hattributes, hinput, MethodType.typeOf, parseString,
            List.lookup_cons, bind, Except.bind, pure, Except.pure]
  | function attributes result name input =>
      have hattributes := nullableAttributes_toJson attributes
      simp only [Method.toJson, Json.depth, depthMembers] at hdepth
      simp only [Method.isExpressible, Bool.and_eq_true] at h
      have hresult := parseMethodType_toJson hS result n (by omega) h.1
      have hinput := parseMethodType_toJson hS input n (by omega) h.2
      have htag := nullable_ok (p := parseMethodStreamingTag) (by simp)
        (parseMethodStreamingTag_name (methodStreamingTag input result))
      simp [Method.toJson, parseMethod, hattributes, hresult, hinput, htag, methodInputOf_tag,
        methodResultOf_tag, parseString, bind, Except.bind, pure, Except.pure]

theorem parseMethods_toJson (hS : S.Identifies) (ms : List Method) (n : Nat)
    (hdepth : depthItems (methodsToJson S ms) ≤ n) (h : methodsAreExpressible ms = true) :
    (methodsToJson S ms).mapM (parseMethod S n) = .ok ms := by
  cases ms with
  | nil => rfl
  | cons m ms =>
      simp only [methodsToJson, depthItems] at hdepth
      simp only [methodsAreExpressible, Bool.and_eq_true] at h
      have hm := parseMethod_toJson hS m n (by omega) h.1
      have hms := parseMethods_toJson hS ms n (by omega) h.2
      simp [methodsToJson, hm, hms, bind, Except.bind, pure, Except.pure]

theorem parseDeclaration_toJson (hS : S.Identifies) (d : Declaration) (n : Nat) (hdepth : (d.toJson S).depth ≤ n)
    (h : d.isExpressible = true) : parseDeclaration S n (d.toJson S) = .ok d := by
  obtain ⟨n, rfl⟩ : ∃ k, n = k + 1 := ⟨n - 1, by have := (d.toJson S).depth_pos; omega⟩
  cases d with
  | struct namespaces attributes name params base fields =>
      simp only [Declaration.toJson, Json.depth, depthMembers] at hdepth
      simp only [Declaration.isExpressible, Bool.and_eq_true] at h
      have hbase := parseOption_toJson hS base n (by omega) h.1
      have hfields := parseFields_toJson hS fields n (by omega) h.2
      have harray : parseArray (parseField S n) (.array (fieldsToJson S fields)) = .ok fields :=
        hfields
      simp [Declaration.toJson, parseDeclaration, hbase, harray, parseNamespaces_toJson,
        parseAttributes_toJson, parseTypeParams_toJson, parseString, bind, Except.bind, pure,
        Except.pure]
  | enum namespaces attributes name constants =>
      simp [Declaration.toJson, parseDeclaration, parseNamespaces_toJson, parseAttributes_toJson,
        parseConstants_toJson, parseString, bind, Except.bind, pure, Except.pure]
  | forward namespaces name params =>
      simp [Declaration.toJson, parseDeclaration, parseNamespaces_toJson, parseTypeParams_toJson,
        parseString, bind, Except.bind, pure, Except.pure]
  | typeAlias namespaces name params type =>
      simp only [Declaration.toJson, Json.depth, depthMembers] at hdepth
      have htype := parseType_toJson hS type n (by omega) h
      simp [Declaration.toJson, parseDeclaration, htype, parseNamespaces_toJson,
        parseTypeParams_toJson, parseString, bind, Except.bind, pure, Except.pure]
  | service namespaces attributes name params base methods =>
      simp only [Declaration.toJson, Json.depth, depthMembers] at hdepth
      simp only [Declaration.isExpressible, Bool.and_eq_true] at h
      have hbase := parseOption_toJson hS base n (by omega) h.1
      have hmethods := parseMethods_toJson hS methods n (by omega) h.2
      have harray : parseArray (parseMethod S n) (.array (methodsToJson S methods)) = .ok methods :=
        hmethods
      simp [Declaration.toJson, parseDeclaration, hbase, harray, parseNamespaces_toJson,
        parseAttributes_toJson, parseTypeParams_toJson, parseString, bind, Except.bind, pure,
        Except.pure]

end

end

/-- Digits that are the value itself. -/
noncomputable def Scientific.exact : Scientific where
  fromFloatDigits v := v
  toRealFloat q :=
    open Classical in if h : IsBinary64 q then .finite ⟨q, h⟩ else .infinity (decide (q < 0))

end Bond.Compiler

import Bond.Compiler.RuntimeDefaults

set_option autoImplicit false

/-! # Which defaults all schemas agree on

Where the four that make schemas put the same variant into them. -/

namespace Bond.Compiler

/-! ## Integers -/

theorem signExtend_ofInt {w : Nat} {i : Int} (hpos : 0 < w) (hlow : -2 ^ (w - 1) ≤ i)
    (hhigh : i < 2 ^ (w - 1)) : (BitVec.ofInt w i).signExtend 64 = BitVec.ofInt 64 i := by
  obtain ⟨k, rfl⟩ : ∃ k, w = k + 1 := ⟨w - 1, by omega⟩
  rw [Nat.add_sub_cancel] at hlow hhigh
  have hpow : (2 : Int) ^ (k + 1) = 2 * 2 ^ k := by rw [pow_succ, mul_comm]
  have hmod : i.bmod (2 ^ (k + 1)) = i := by
    refine Int.bmod_eq_of_le ?_ ?_ <;> push_cast <;> omega
  rw [BitVec.signExtend, BitVec.toInt_ofInt, hmod]

theorem setWidth_ofInt {w : Nat} {i : Int} (hlow : 0 ≤ i) (hhigh : i < 2 ^ w) :
    (BitVec.ofInt w i).setWidth 64 = BitVec.ofInt 64 i := by
  obtain ⟨n, rfl⟩ := Int.eq_ofNat_of_zero_le hlow
  have hn : n < 2 ^ w := by exact_mod_cast hhigh
  refine BitVec.eq_of_toNat_eq ?_
  simp [Nat.mod_eq_of_lt hn]

theorem ofInt_eq_iff (i j : Int) :
    BitVec.ofInt 64 i = BitVec.ofInt 64 j ↔ i % 2 ^ 64 = j % 2 ^ 64 := by
  rw [← BitVec.toNat_inj, BitVec.toNat_ofInt, BitVec.toNat_ofInt]
  push_cast
  omega

/-- The integers of a type with the given format. -/
def InFormat (format : Bool × Nat) (i : Int) : Prop :=
  if format.1 then -2 ^ (format.2 - 1) ≤ i ∧ i < 2 ^ (format.2 - 1) else 0 ≤ i ∧ i < 2 ^ format.2

theorem width_of_integerFormat {b : BasicType} {format : Bool × Nat}
    (h : b.integerFormat = some format) : 8 ≤ format.2 ∧ format.2 ≤ 64 := by
  cases b <;> cases h <;> decide

theorem inFormat_of_validDefault {b : BasicType} {format : Bool × Nat} {i : Int}
    (h : b.integerFormat = some format) (hvalid : validDefault (.basic b) (.integer i) = true) :
    InFormat format i := by
  cases b <;> cases h <;>
    simp only [validDefault, isInBounds, Bool.and_eq_true, decide_eq_true_eq] at hvalid <;>
    simp [InFormat] <;> omega

/-- The variant with an integer in the member for its type. -/
def integerVariant (signed : Bool) (bits : BitVec 64) : RuntimeVariant :=
  if signed then { intValue := bits } else { uintValue := bits }

theorem integerVariant_inj (signed : Bool) {x y : BitVec 64} :
    integerVariant signed x = integerVariant signed y ↔ x = y := by
  cases signed <;> simp [integerVariant]

theorem integerVariant_zero (signed : Bool) : integerVariant signed 0 = {} := by
  cases signed <;> rfl

section

variable {b : BasicType} {format : Bool × Nat} (h : b.integerFormat = some format) {i : Int}

include h

/-- What C++ makes of an integer. -/
theorem cpp_integer (hi : InFormat format i) :
    (cppStaticCast b i).map variantSet
      = some (integerVariant format.1 (BitVec.ofInt 64 i)) := by
  obtain ⟨hpos, hle⟩ := width_of_integerFormat h
  obtain ⟨signed, w⟩ := format
  have hcast : cppStaticCast b i = some (if signed then .signed (BitVec.ofInt w i)
      else .unsigned (BitVec.ofInt w i)) := by
    cases b <;> cases h <;> rfl
  rw [hcast, Option.map_some]
  cases signed with
  | true =>
      have hext := signExtend_ofInt (by omega) hi.1 hi.2
      simp [variantSet, integerVariant, hext]
  | false =>
      have hext := setWidth_ofInt hi.1 hi.2
      simp [variantSet, integerVariant, hext]

theorem cs_integer (hi : InFormat format i) :
    csVariant (.basic b) (.integer (BitVec.ofInt format.2 i))
      = integerVariant format.1 (BitVec.ofInt 64 i) := by
  obtain ⟨hpos, hle⟩ := width_of_integerFormat h
  obtain ⟨signed, w⟩ := format
  have hvariant (x : BitVec w) : csVariant (.basic b) (.integer x)
      = integerVariant signed (if signed then x.signExtend 64 else x.setWidth 64) := by
    cases b <;> cases h <;> rfl
  rw [hvariant]
  cases signed with
  | true => rw [if_pos rfl, signExtend_ofInt (by omega) hi.1 hi.2]
  | false => rw [if_neg (by decide), setWidth_ofInt hi.1 hi.2]

theorem gbc_integer (name fieldName : String) :
    (defaultVariant .ofInteger name fieldName (.basic b) (.integer i)).toOption.map Variant.read
      = some (integerVariant format.1 (BitVec.ofInt 64 i)) := by
  have hself : (BondType.basic b).resolved = .basic b := resolved_eq_self fun _ _ _ _ _ h => by cases h
  cases b <;> cases h <;>
    simp only [defaultVariant, BondType.isSigned, BondType.isUnsigned, hself] <;> rfl

/-- Java extends the sign of any integer. -/
theorem java_integer (hi : InFormat format i) :
    javaVariant (.basic b) (.integer (BitVec.ofInt format.2
        (if format.1 then i else twosComplement format.2 i)))
      = integerVariant format.1 (BitVec.ofInt 64
        (if format.1 then i else twosComplement format.2 i)) := by
  obtain ⟨hpos, hle⟩ := width_of_integerFormat h
  obtain ⟨signed, w⟩ := format
  have hvariant (x : BitVec w) : javaVariant (.basic b) (.integer x)
      = integerVariant signed (x.signExtend 64) := by
    cases b <;> cases h <;> rfl
  rw [hvariant]
  cases signed with
  | true => rw [if_pos rfl, signExtend_ofInt (by omega) hi.1 hi.2]
  | false =>
      show integerVariant false ((BitVec.ofInt w (twosComplement w i)).signExtend 64)
        = integerVariant false (BitVec.ofInt 64 (twosComplement w i))
      have hpow : (2 : Int) ^ w = 2 * 2 ^ (w - 1) := by
        rw [mul_comm, ← pow_succ, Nat.sub_add_cancel (by omega)]
      have hlow : 0 ≤ i := hi.1
      have hhigh : i < 2 ^ w := hi.2
      rw [signExtend_ofInt (by omega)] <;> unfold twosComplement <;> split <;> omega

/-- The sign that Java extends changes an unsigned integer that has its first bit set, unless there is
    nothing to extend. -/
theorem java_integer_eq_iff (hi : InFormat format i) :
    BitVec.ofInt 64 (if format.1 then i else twosComplement format.2 i) = BitVec.ofInt 64 i ↔
      (format.1 = false → format.2 < 64 → i < 2 ^ (format.2 - 1)) := by
  obtain ⟨hpos, hle⟩ := width_of_integerFormat h
  obtain ⟨signed, w⟩ := format
  cases signed with
  | true => simp
  | false =>
      show BitVec.ofInt 64 (twosComplement w i) = BitVec.ofInt 64 i ↔
        (false = false → w < 64 → i < 2 ^ (w - 1))
      have hlow : 0 ≤ i := hi.1
      have hhigh : i < 2 ^ w := hi.2
      have hzero : (0 : Int) < 2 ^ w := by positivity
      rw [ofInt_eq_iff]
      unfold twosComplement
      split
      · next hlt => simp [hlt]
      · next hge =>
          rcases Nat.lt_or_ge w 64 with hw | hw
          · have hlt : (2 : Int) ^ w < 2 ^ 64 := pow_lt_pow_right₀ (by decide) hw
            constructor
            · intro hmod
              omega
            · intro hi
              exact absurd (hi rfl hw) hge
          · obtain rfl : w = 64 := by omega
            simp

/-- The zero that Java has for any field without a parameter. -/
theorem ofInt_eq_zero_iff (hi : InFormat format i) : BitVec.ofInt 64 i = 0 ↔ i = 0 := by
  obtain ⟨hpos, hle⟩ := width_of_integerFormat h
  obtain ⟨signed, w⟩ := format
  have hlt : (2 : Int) ^ (w - 1) < 2 ^ 64 := pow_lt_pow_right₀ (by decide) (by omega)
  have hle' : (2 : Int) ^ w ≤ 2 ^ 64 := pow_le_pow_right₀ (by decide) hle
  have hzero : (0 : BitVec 64) = BitVec.ofInt 64 0 := rfl
  rw [hzero, ofInt_eq_iff]
  cases signed with
  | true =>
      have hlow : -2 ^ (w - 1) ≤ i := hi.1
      have hhigh : i < 2 ^ (w - 1) := hi.2
      omega
  | false =>
      have hlow : 0 ≤ i := hi.1
      have hhigh : i < 2 ^ w := hi.2
      omega

end

/-! ## Enumerators -/

theorem toInt_add_one_mod (v : Int64) : (v + 1).toInt % 2 ^ 32 = (v.toInt + 1) % 2 ^ 32 := by
  have hone : (1 : Int64).toInt = 1 := rfl
  rw [Int64.toInt_add, hone, Int.bmod_def]
  push_cast
  split <;> omega

/-- Lists of the same names, with values that are the same for 32 bits. -/
def SameConstants (l : List (String × Int)) (l' : List (String × Int64)) : Prop :=
  List.Forall₂ (fun p p' => p.1 = p'.1 ∧ p.2 % 2 ^ 32 = p'.2.toInt % 2 ^ 32) l l'

theorem enumerators_sameConstants {next : Int} {next' : Int64} (constants : List Constant)
    (hnext : next % 2 ^ 32 = next'.toInt % 2 ^ 32) :
    SameConstants (enumerators next constants) (nameValues next' constants) := by
  induction constants generalizing next next' with
  | nil => exact .nil
  | cons constant constants ih =>
      obtain ⟨name, value⟩ := constant
      cases value with
      | none =>
          refine .cons ⟨rfl, hnext⟩ (ih ?_)
          rw [toInt_add_one_mod]
          omega
      | some value =>
          have hvalue : (BitVec.ofInt 32 value.toInt).toInt % 2 ^ 32 = value.toInt % 2 ^ 32 := by
            rw [BitVec.toInt_ofInt, Int.bmod_def]
            push_cast
            split <;> omega
          refine .cons ⟨rfl, hvalue⟩ (ih ?_)
          rw [toInt_add_one_mod]
          omega

theorem fixEnumWithInt_sameConstants {next next' : Int64} (constants : List Constant)
    (hnext : next.toInt % 2 ^ 32 = next'.toInt % 2 ^ 32) :
    SameConstants ((fixEnumWithInt next constants).map fun p => (p.1, p.2.toInt))
      (nameValues next' constants) := by
  induction constants generalizing next next' with
  | nil => exact .nil
  | cons constant constants ih =>
      obtain ⟨name, value⟩ := constant
      cases value with
      | none =>
          refine .cons ⟨rfl, hnext⟩ (ih ?_)
          rw [toInt_add_one_mod, toInt_add_one_mod]
          omega
      | some value =>
          have hvalue : (Int64.ofInt (twosComplement 32 value.toInt)).toInt % 2 ^ 32
              = value.toInt % 2 ^ 32 := by
            rw [Int64.toInt_ofInt, Int.bmod_def, twosComplement]
            push_cast
            split <;> split <;> omega
          refine .cons ⟨rfl, hvalue⟩ (ih ?_)
          rw [toInt_add_one_mod, toInt_add_one_mod]
          omega

/-- What is found for a name in the one list and in the other. -/
theorem SameConstants.lookup {l : List (String × Int)} {l' : List (String × Int64)}
    (h : SameConstants l l') {c : String} {v' : Int64} (hv : l'.lookup c = some v') :
    ∃ v, l.lookup c = some v ∧ (c, v) ∈ l ∧ v % 2 ^ 32 = v'.toInt % 2 ^ 32 := by
  induction h with
  | nil => cases hv
  | @cons p p' l l' hp _ ih =>
      obtain ⟨name, v⟩ := p
      obtain ⟨name', w⟩ := p'
      obtain ⟨hname, hmod⟩ := hp
      cases hname
      rw [List.lookup_cons] at hv ⊢
      by_cases hc : c = name
      · subst hc
        simp only [BEq.rfl] at hv ⊢
        cases hv
        exact ⟨v, rfl, List.mem_cons_self, hmod⟩
      · have hne : (c == name) = false := beq_false_of_ne hc
        rw [hne] at hv ⊢
        obtain ⟨u, hu, hmem, hmod'⟩ := ih hv
        exact ⟨u, hu, List.mem_cons_of_mem _ hmem, hmod'⟩

/-- No enumerator of C++ is below the least `int`. -/
theorem enumerators_ge {next : Int} (hnext : -2 ^ 31 ≤ next) {constants : List Constant} :
    ∀ p ∈ enumerators next constants, -2 ^ 31 ≤ p.2 := by
  induction constants generalizing next with
  | nil => intro p hp; cases hp
  | cons constant constants ih =>
      obtain ⟨name, value⟩ := constant
      cases value with
      | none =>
          rw [enumerators, List.forall_mem_cons]
          exact ⟨hnext, ih (by omega)⟩
      | some value =>
          have hvalue : -2 ^ 31 ≤ (BitVec.ofInt 32 value.toInt).toInt := BitVec.le_toInt _
          rw [enumerators, List.forall_mem_cons]
          exact ⟨hvalue, ih (by omega)⟩

section

variable {constants : List Constant} {c : String} {v : Int64}
  (hv : (reifyEnumValues constants).lookup c = some v)

include hv

/-- The constant of C++, and of C# as far as it is an `int`. -/
theorem enumerator_found : ∃ u : Int, (enumerators 0 constants).lookup c = some u ∧
    -2 ^ 31 ≤ u ∧ (FitsCs constants → u < 2 ^ 31) ∧ u % 2 ^ 32 = v.toInt % 2 ^ 32 := by
  obtain ⟨u, hu, hmem, hmod⟩ := (enumerators_sameConstants constants rfl).lookup hv
  exact ⟨u, hu, enumerators_ge (by decide) _ hmem, fun hfits => hfits _ hmem, hmod⟩

theorem javaConstant_found : ∃ u : Int64, (fixEnumWithInt 0 constants).lookup c = some u ∧
    (FitsJava constants → -2 ^ 31 ≤ u.toInt ∧ u.toInt < 2 ^ 31) ∧
    u.toInt % 2 ^ 32 = v.toInt % 2 ^ 32 := by
  obtain ⟨u, hu, hmem, hmod⟩ := (fixEnumWithInt_sameConstants constants rfl).lookup hv
  obtain ⟨p, hp, heq⟩ := List.mem_map.1 hmem
  cases heq
  have hlookup : ((fixEnumWithInt 0 constants).map fun p => (p.1, p.2.toInt)).lookup p.1
      = ((fixEnumWithInt 0 constants).lookup p.1).map Int64.toInt := by
    induction fixEnumWithInt 0 constants with
    | nil => rfl
    | cons q qs ih =>
        rw [List.map_cons, List.lookup_cons, List.lookup_cons]
        split <;> simp_all
  rw [hlookup] at hu
  obtain ⟨w, hw, hwu⟩ := Option.map_eq_some_iff.1 hu
  refine ⟨w, hw, fun hfits => ?_, hwu ▸ hmod⟩
  rw [hwu]
  exact hfits p hp

end

/-! ## The condition -/

variable (literal : StringLiterals)

/-- What `nothing` is taken for in C#: null is what a `nullable` is by default; and a type that is no
    reference has no null, unless it is a scalar, which has a `?`. -/
def NothingAlike (params : List TypeParam) (args : List BondType) (element : BondType) : Prop :=
  match runtimeType params args element with
  | .container .nullable _ => False
  | .basic .string => True
  | .basic .wstring => True
  | .basic _ => element.isScalar = true
  | .userDefined (.enum _ _ _ _) _ => element.isScalar = true
  | _ => True

/-- An integer default of a floating-point type: its nearest `double` is its nearest number of the
    type. -/
def IntegerAlike (F : FloatFormat) (i : Int) : Prop :=
  -(2 ^ 63 - 1) ≤ i ∧ i ≤ 2 ^ 63 - 1 ∧
    ∃ x, F.round i = some x ∧ FloatFormat.double.round i = some x

/-- The constants are enumerators in C# (and in Java, where the default is written there), and the one
    that is the default has the value in the schema that it has as an `int`, or the one that Java has
    where it is not written. -/
def EnumAlike (aliased : Bool) (constants : List Constant) (c : String) : Prop :=
  (constantNames constants).Nodup ∧ FitsCs constants ∧
    ∃ v, (reifyEnumValues constants).lookup c = some v ∧
      if aliased then v.toInt = 0
      else FitsJava constants ∧ -2 ^ 31 ≤ v.toInt ∧ v.toInt < 2 ^ 31

/-- The text means in each language what it is. -/
def StringAlike (aliased : Bool) (x : String) : Prop :=
  (literal .cpp x).map untilNul = some x ∧ literal .cs x = some x ∧
    if aliased then x = "" else literal .java x = some x

/-- The defaults that all schemas agree on. For an alias Java writes none but `bool`s. -/
def ExplicitAlike (params : List TypeParam) (args : List BondType) (t : BondType) :
    Default → Prop
  | .nothing =>
      match t with
      | .container .maybe element => NothingAlike params args element
      | _ => False
  | .bool x => t.resolved = .basic .bool ∧ x = false
  | .integer i =>
      (t.isAlias = true → i = 0) ∧
        match t.resolved with
        | .basic .float => IntegerAlike .single i
        | .basic .double => IntegerAlike .double i
        | .basic b =>
            match b.integerFormat with
            | some (signed, width) => signed = false → width < 64 → i < 2 ^ (width - 1)
            | none => False
        | _ => False
  | .float x =>
      match t with
      | .basic .float => floatLiteral .single x = some x
      | .basic .double => doubleLiteral x = some x
      | _ => False
  | .string x =>
      match t.resolved with
      | .basic .string => StringAlike literal t.isAlias x
      | .basic .wstring => StringAlike literal t.isAlias x
      | _ => False
  | .enum c =>
      match t.resolved with
      | .userDefined (.enum _ _ _ constants) _ => EnumAlike t.isAlias constants c
      | _ => False

/-- A field without a default is alike unless it is the name of its struct, or a type that is not
    written. -/
def ImplicitAlike (name fullName : String) (t : BondType) : Prop :=
  match t with
  | .basic .metaName => name = ""
  | .basic .metaFullName => fullName = ""
  | .container .maybe _ => False
  | t => t.resolved ≠ .basic .metaName ∧ t.resolved ≠ .basic .metaFullName

def DefaultAlike (name fullName : String) (params : List TypeParam) (args : List BondType)
    (f : Field) : Prop :=
  match f.fieldDefault with
  | none => ImplicitAlike name fullName f.fieldType
  | some d => ExplicitAlike literal params args f.fieldType d

/-! ## Fields without a default -/

theorem sameDefault_iff_all {name fullName : String} {params : List TypeParam}
    {args : List BondType} {f : Field} : SameDefault literal name fullName params args f ↔
      ∃ v, cppDefault literal f = some v ∧ csDefault literal name fullName params args f = some v ∧
        javaDefault literal params args f = some v ∧ gbcDefault name params args f = some v := by
  refine exists_congr fun v => ⟨fun h => ⟨h .cpp, h .cs, h .java, h .gbc⟩, ?_⟩
  rintro ⟨hcpp, hcs, hjava, hgbc⟩ producer
  cases producer
  exacts [hcpp, hcs, hjava, hgbc]

theorem javaVariant_initialValue (t : BondType) : javaVariant t (initialValue t) = {} := by
  cases t with
  | basic b => cases b <;> rfl
  | container kind t => cases kind <;> rfl
  | userDefined decl args => cases decl <;> rfl
  | _ => rfl

theorem csVariant_initialValue (t : BondType) : csVariant t (initialValue t) = {} := by
  cases t with
  | basic b => cases b <;> rfl
  | container kind t => cases kind <;> rfl
  | userDefined decl args => cases decl <;> rfl
  | _ => rfl

theorem runtimeType_of_ne {params : List TypeParam} {args : List BondType} {t : BondType}
    (h : ∀ p, t.resolved ≠ .typeParam p) : runtimeType params args t = t.resolved := by
  unfold runtimeType
  split
  · next p hp => exact absurd hp (h p)
  · rfl

theorem resolved_basic (b : BasicType) : (BondType.basic b).resolved = .basic b :=
  resolved_eq_self fun _ _ _ _ _ h => by cases h

theorem resolved_container (kind : ContainerKind) (t : BondType) :
    (BondType.container kind t).resolved = .container kind t :=
  resolved_eq_self fun _ _ _ _ _ h => by cases h

theorem csImplicitDefault_of_ne {name fullName : String} (params : List TypeParam)
    (args : List BondType) {t : BondType} (hname : t ≠ .basic .metaName)
    (hfullName : t ≠ .basic .metaFullName) :
    csImplicitDefault name fullName params args t =
      match t.resolved with
      | .basic .metaName => .null
      | .basic .metaFullName => .null
      | _ => initialValue (runtimeType params args t) := by
  conv_lhs => unfold csImplicitDefault
  split
  · exact absurd rfl hname
  · exact absurd rfl hfullName
  · rfl

/-- What C# has for a field without a default. -/
theorem csVariant_implicit {name fullName : String} (params : List TypeParam)
    (args : List BondType) {t : BondType} (hmaybe : ∀ e, t ≠ .container .maybe e) :
    csVariant (csSchemaType params args t) (csImplicitDefault name fullName params args t) = {} ↔
      ImplicitAlike name fullName t := by
  have hschema : csSchemaType params args t = runtimeType params args t := by
    unfold csSchemaType
    split
    · next e => exact absurd rfl (hmaybe e)
    · rfl
  rw [hschema]
  by_cases hname : t = .basic .metaName
  · subst hname
    rw [runtimeType_of_ne (by rw [resolved_basic]; simp), resolved_basic]
    simp [csImplicitDefault, csVariant, ImplicitAlike]
  by_cases hfullName : t = .basic .metaFullName
  · subst hfullName
    rw [runtimeType_of_ne (by rw [resolved_basic]; simp), resolved_basic]
    simp [csImplicitDefault, csVariant, ImplicitAlike]
  have halike : ImplicitAlike name fullName t ↔
      t.resolved ≠ .basic .metaName ∧ t.resolved ≠ .basic .metaFullName := by
    unfold ImplicitAlike
    split
    · exact absurd rfl hname
    · exact absurd rfl hfullName
    · next e => exact absurd rfl (hmaybe e)
    · rfl
  rw [csImplicitDefault_of_ne params args hname hfullName, halike]
  split
  · next hres =>
      -- an alias of `bond_meta::name` is a null string
      rw [runtimeType_of_ne (by rw [hres]; simp), hres]
      simp [csVariant]
  · next hres =>
      rw [runtimeType_of_ne (by rw [hres]; simp), hres]
      simp [csVariant]
  · next hne hne' =>
      rw [csVariant_initialValue]
      exact ⟨fun _ => ⟨hne, hne'⟩, fun _ => rfl⟩

section

variable {name fullName : String} {params : List TypeParam} {args : List BondType} {f : Field}

/-- Java with the value that its generated code writes, or with the one of its type. -/
theorem javaDefault_eq (hmaybe : ∀ e, f.fieldType ≠ .container .maybe e) :
    javaDefault literal params args f =
      (f.fieldDefault.mapM (javaExplicitDefault literal f.fieldType)).map fun value =>
        javaVariant (runtimeType params args f.fieldType)
          (value.join.getD (initialValue (runtimeType params args f.fieldType))) := by
  unfold javaDefault
  split
  · next e he => exact absurd he (hmaybe e)
  · cases f.fieldDefault.mapM (javaExplicitDefault literal f.fieldType) <;> rfl

theorem sameDefault_implicit_iff (hd : f.fieldDefault = none) :
    SameDefault literal name fullName params args f ↔ ImplicitAlike name fullName f.fieldType := by
  rw [sameDefault_iff_all]
  have hcpp : cppDefault literal f = some {} := by rw [cppDefault, hd]
  have hgbc : gbcDefault name params args f = some {} := by rw [gbcDefault, hd]
  have hcs : csDefault literal name fullName params args f =
      some (csVariant (csSchemaType params args f.fieldType)
        (csImplicitDefault name fullName params args f.fieldType)) := by
    rw [csDefault, hd]
  by_cases hmaybe : ∃ e, f.fieldType = .container .maybe e
  · obtain ⟨e, he⟩ := hmaybe
    have hjava : javaDefault literal params args f = some { nothing := true } := by
      rw [javaDefault, he]
    rw [hcpp, hjava, he]
    refine ⟨?_, fun h => h.elim⟩
    rintro ⟨v, hv, -, hv', -⟩
    cases hv
    cases hv'
  · have hne : ∀ e, f.fieldType ≠ .container .maybe e := fun e he => hmaybe ⟨e, he⟩
    have hjava : javaDefault literal params args f = some {} := by
      rw [javaDefault_eq literal hne, hd]
      exact congrArg some (javaVariant_initialValue _)
    rw [hcpp, hgbc, hcs, hjava, ← csVariant_implicit params args hne]
    constructor
    · rintro ⟨v, hv, hv', -⟩
      cases hv
      exact Option.some.inj hv'
    · intro h
      exact ⟨{}, rfl, by rw [h], rfl, rfl⟩

end

/-! ## Rounding -/

theorem ofSignificand_eq {F : FloatFormat} {m e : ℤ} {x : Double}
    (h : F.ofSignificand m e = some x) : ∃ v, x = .finite v ∧ (v : ℚ) = m * 2 ^ e := by
  unfold FloatFormat.ofSignificand at h
  split at h
  · split at h
    · cases h
      exact ⟨_, rfl, rfl⟩
    · cases h
  · cases h

theorem round_finite {F : FloatFormat} {q : ℚ} {x : Double} (h : F.round q = some x) :
    ∃ v, x = .finite v := by
  simp only [FloatFormat.round] at h
  split at h
  · obtain ⟨v, hv, -⟩ := ofSignificand_eq h
    exact ⟨v, hv⟩
  · obtain ⟨v, hv, -⟩ := ofSignificand_eq h
    exact ⟨v, hv⟩

/-- What is rounded to zero has a significand that is. -/
theorem round_zero {F : FloatFormat} (hprecision : 0 < F.precision) {q : ℚ}
    {v : {v : ℚ // IsBinary64 v}} (h : F.round q = some (.finite v)) (hzero : (v : ℚ) = 0) :
    roundHalfEven (q / 2 ^ max (exponentOf q - (F.precision - 1)) F.least) = 0 := by
  have hsignificand {m e : ℤ} (h : F.ofSignificand m e = some (.finite v)) : m = 0 := by
    obtain ⟨v', hv, heq⟩ := ofSignificand_eq h
    cases hv
    rw [hzero] at heq
    have hpow : (2 : ℚ) ^ e ≠ 0 := zpow_ne_zero e (by norm_num)
    exact_mod_cast (mul_eq_zero.1 heq.symm).resolve_right hpow
  simp only [FloatFormat.round] at h
  split at h
  · next hcarry =>
      -- half of a power of two that is more than one is no zero
      have htwo : (2 : ℤ) ≤ 2 ^ F.precision := by
        obtain ⟨k, hk⟩ : ∃ k, F.precision = k + 1 := ⟨F.precision - 1, by omega⟩
        rw [hk, pow_succ]
        have hpos : (0 : ℤ) < 2 ^ k := by positivity
        omega
      have hhalf := hsignificand h
      rw [← hcarry] at htwo
      rcases abs_cases (roundHalfEven (q / 2 ^ max (exponentOf q - (F.precision - 1)) F.least))
        with ⟨habs, -⟩ | ⟨habs, -⟩ <;> omega
  · exact hsignificand h

theorem roundHalfEven_eq_zero {q : ℚ} (h : roundHalfEven q = 0) : |q| ≤ 1 / 2 := by
  have hlow := Int.floor_le q
  have hhigh := Int.lt_floor_add_one q
  simp only [roundHalfEven] at h
  split at h
  · next hrest =>
      rw [h] at hrest hlow
      push_cast at hrest hlow
      rw [abs_le]
      rcases hrest with hlt | ⟨heq, -⟩ <;> constructor <;> linarith
  · next hrest =>
      have hfloor : ⌊q⌋ = -1 := by omega
      rw [hfloor] at hrest hhigh
      push_cast at hrest hhigh
      have hge : ¬ (q + 1 < 1 / 2) := fun hlt => hrest (.inl (by linarith))
      rw [abs_le]
      constructor <;> linarith

theorem exponentOf_le {q : ℚ} (hq : q ≠ 0) : (2 : ℚ) ^ exponentOf q ≤ |q| := by
  simp only [exponentOf]
  split
  · next h => exact h
  · have hnum : (2 : ℚ) ^ Nat.log2 q.num.natAbs ≤ |(q.num : ℚ)| := by
      have hne : q.num.natAbs ≠ 0 := by simpa using hq
      have hle : 2 ^ Nat.log2 q.num.natAbs ≤ q.num.natAbs := Nat.log2_self_le hne
      calc (2 : ℚ) ^ Nat.log2 q.num.natAbs = ((2 ^ Nat.log2 q.num.natAbs : ℕ) : ℚ) := by push_cast; rfl
        _ ≤ (q.num.natAbs : ℚ) := by exact_mod_cast hle
        _ = |(q.num : ℚ)| := by rw [Nat.cast_natAbs, Int.cast_abs]
    have hden : (q.den : ℚ) ≤ 2 ^ (Nat.log2 q.den + 1) := by
      exact_mod_cast Nat.lt_log2_self.le
    have hpos : (0 : ℚ) < q.den := by exact_mod_cast q.den_pos
    have habs : |q| = |(q.num : ℚ)| / q.den := by
      conv_lhs => rw [← Rat.num_div_den q]
      rw [abs_div, abs_of_pos hpos]
    have hexp : (2 : ℚ) ^ ((Nat.log2 q.num.natAbs : ℤ) - Nat.log2 q.den - 1)
        = 2 ^ Nat.log2 q.num.natAbs / 2 ^ (Nat.log2 q.den + 1) := by
      rw [sub_sub, zpow_sub₀ (by norm_num)]
      norm_cast
    rw [hexp, habs]
    exact div_le_div₀ (abs_nonneg _) hnum hpos hden

/-- An integer is rounded to zero only if it is zero. -/
theorem round_integer_zero {F : FloatFormat} (hprecision : 0 < F.precision) (hleast : F.least ≤ 0)
    {i : ℤ} {v : {v : ℚ // IsBinary64 v}} (h : F.round i = some (.finite v))
    (hzero : (v : ℚ) = 0) : i = 0 := by
  by_contra hi
  have hq : (i : ℚ) ≠ 0 := by exact_mod_cast hi
  have hone : (1 : ℚ) ≤ |(i : ℚ)| := by exact_mod_cast Int.one_le_abs hi
  have hround := roundHalfEven_eq_zero (round_zero hprecision h hzero)
  have hexp := exponentOf_le hq
  -- the exponent of the last bit is at most the one of the first bit
  have hle : (2 : ℚ) ^ max (exponentOf (i : ℚ) - (F.precision - 1)) F.least ≤ |(i : ℚ)| := by
    rcases max_cases (exponentOf (i : ℚ) - (F.precision - 1 : ℤ)) F.least with ⟨hmax, -⟩ | ⟨hmax, -⟩
    · rw [hmax]
      exact (zpow_le_zpow_right₀ (by norm_num) (by omega)).trans hexp
    · rw [hmax]
      exact (zpow_le_one_of_nonpos₀ (by norm_num) hleast).trans hone
  have hpos : (0 : ℚ) < 2 ^ max (exponentOf (i : ℚ) - (F.precision - 1)) F.least :=
    zpow_pos (by norm_num) _
  rw [abs_div, abs_of_pos hpos, div_le_iff₀ hpos] at hround
  linarith

/-! ## Fields with a default -/

theorem javaExplicitDefault_alias {t : BondType} (h : t.isAlias = true) {d : Default}
    (hd : ∀ x, d ≠ .bool x) : javaExplicitDefault literal t d = some none := by
  cases t with
  | userDefined decl args =>
      cases decl with
      | typeAlias => cases d <;> first | rfl | exact absurd rfl (hd _)
      | _ => cases h
  | _ => cases h

/-- The format of a floating-point type. -/
def BasicType.floatFormat : BasicType → Option FloatFormat
  | .float => some .single
  | .double => some .double
  | _ => none

theorem round_of_zero {b : BasicType} {F : FloatFormat} (h : b.floatFormat = some F) :
    F.round (0 : Int) = some (.finite ⟨0, 0, 0, by norm_num⟩) := by
  cases b <;> cases h <;> decide +kernel

/-- An integer literal that is converted to a floating-point type. -/
theorem map_round {α : Type} {f : α → RuntimeVariant} {g : Double → α} (F : FloatFormat)
    (literal : Option Int) (h : ∀ x, f (g x) = { doubleValue := x }) :
    Option.map f (do return g (← F.round (← literal))) =
      literal.bind fun i => (F.round i).map fun x => { doubleValue := x } := by
  cases literal with
  | none => rfl
  | some i =>
      simp only [Option.bind_eq_bind, Option.bind_some]
      cases F.round i with
      | none => rfl
      | some x => exact congrArg some (h x)

-- the equations are derived here, once for the lemmas below
attribute [local grind =] cppExplicitDefault csExplicitDefault javaExplicitDefault defaultVariant
  ExplicitAlike

/-- All four make the variant of an explicit default from it and from the type of the field. -/
def SameExplicit (name fieldName : String) (params : List TypeParam) (args : List BondType)
    (t : BondType) (d : Default) : Prop :=
  ∃ v, (cppExplicitDefault literal t d).map variantSet = some v ∧
    (csExplicitDefault literal params args t d).map (csVariant (csSchemaType params args t))
      = some v ∧
    (javaExplicitDefault literal t d).map (fun value => javaVariant (runtimeType params args t)
      (value.getD (initialValue (runtimeType params args t)))) = some v ∧
    (defaultVariant .ofInteger name fieldName (resolveType params args t) d).toOption.map
      Variant.read = some v

section

variable {name fieldName : String} {params : List TypeParam} {args : List BondType} {t : BondType}
  {b : BasicType} (hres : t.resolved = .basic b) (hs : resolveType params args t = .basic b)

include hres in
theorem runtimeType_basic : runtimeType params args t = .basic b := by
  rw [runtimeType_of_ne (by rw [hres]; simp), hres]

include hres in
theorem csSchemaType_basic : csSchemaType params args t = .basic b := by
  unfold csSchemaType
  split
  · rw [resolved_container] at hres
    cases hres
  · exact runtimeType_basic hres

include hres in
/-- What is no alias is the type itself. -/
theorem eq_basic (halias : t.isAlias = false) : t = .basic b := by
  rwa [resolved_of_not_isAlias halias] at hres

include hres hs

theorem sameExplicit_bool (x : Bool) (hb : b = .bool) :
    SameExplicit literal name fieldName params args t (.bool x) ↔
      ExplicitAlike literal params args t (.bool x) := by
  subst hb
  rw [SameExplicit, csSchemaType_basic hres, runtimeType_basic hres, hs]
  simp only [cppExplicitDefault, csExplicitDefault, javaExplicitDefault, ExplicitAlike, hres]
  cases x <;> simp [variantSet, csVariant, javaVariant, defaultVariant, Except.toOption, Variant.read]

theorem sameExplicit_integer {format : Bool × Nat} (h : b.integerFormat = some format) {i : Int}
    (hi : InFormat format i) :
    SameExplicit literal name fieldName params args t (.integer i) ↔
      ExplicitAlike literal params args t (.integer i) := by
  have halike : ExplicitAlike literal params args t (.integer i) ↔ (t.isAlias = true → i = 0) ∧
      (format.1 = false → format.2 < 64 → i < 2 ^ (format.2 - 1)) := by
    simp only [ExplicitAlike, hres]
    cases b <;> cases h <;> rfl
  have hcpp : (cppExplicitDefault literal t (.integer i)).map variantSet
      = some (integerVariant format.1 (BitVec.ofInt 64 i)) := by
    simp only [cppExplicitDefault, hres]
    exact cpp_integer h hi
  have hcs : csExplicitDefault literal params args t (.integer i)
      = some (.integer (BitVec.ofInt format.2 i)) := by
    simp only [csExplicitDefault, hres]
    cases b <;> cases h <;> rfl
  rw [SameExplicit, csSchemaType_basic hres, runtimeType_basic hres, hs, hcpp, hcs, Option.map_some,
    cs_integer h hi, gbc_integer h, halike]
  cases halias : t.isAlias with
  | true =>
      rw [javaExplicitDefault_alias literal halias (by simp)]
      simp only [Option.map_some, Option.getD_none, javaVariant_initialValue]
      rw [← integerVariant_zero format.1]
      constructor
      · rintro ⟨v, hv, -, hjava, -⟩
        have heq := ((integerVariant_inj _).1 (Option.some.inj (hjava.trans hv.symm))).symm
        have hzero := (ofInt_eq_zero_iff h hi).1 heq
        rw [hzero]
        exact ⟨fun _ => rfl, fun _ _ => by positivity⟩
      · rintro ⟨hzero, -⟩
        rw [hzero trivial]
        exact ⟨_, rfl, rfl, rfl, rfl⟩
  | false =>
      have hjava : javaExplicitDefault literal t (.integer i) = some (some (.integer
          (BitVec.ofInt format.2 (if format.1 then i else twosComplement format.2 i)))) := by
        rw [eq_basic hres halias]
        cases b <;> cases h <;> rfl
      rw [hjava]
      simp only [Option.map_some, Option.getD_some, java_integer h hi, reduceCtorEq,
        false_implies, true_and, Option.some.injEq]
      rw [← java_integer_eq_iff h hi, ← integerVariant_inj format.1]
      constructor
      · rintro ⟨v, hv, -, hv', -⟩
        exact hv'.trans hv.symm
      · intro heq
        exact ⟨_, rfl, rfl, heq, rfl⟩

theorem sameExplicit_floatInteger {F : FloatFormat} (h : b.floatFormat = some F) (i : Int) :
    SameExplicit literal name fieldName params args t (.integer i) ↔
      ExplicitAlike literal params args t (.integer i) := by
  have halike : ExplicitAlike literal params args t (.integer i) ↔ (t.isAlias = true → i = 0) ∧
      IntegerAlike F i := by
    simp only [ExplicitAlike, hres]
    cases b <;> cases h <;> rfl
  have hcpp : (cppExplicitDefault literal t (.integer i)).map variantSet
      = (cppIntegerLiteral i).bind fun i => (F.round i).map fun x => { doubleValue := x } := by
    simp only [cppExplicitDefault, hres]
    cases b <;> cases h <;> exact map_round _ _ fun _ => rfl
  have hcs : (csExplicitDefault literal params args t (.integer i)).map (csVariant (.basic b))
      = (csIntegerLiteral i).bind fun i => (F.round i).map fun x => { doubleValue := x } := by
    simp only [csExplicitDefault, hres]
    cases b <;> cases h <;> exact map_round _ _ fun _ => rfl
  have hgbc : (defaultVariant .ofInteger name fieldName (.basic b) (.integer i)).toOption.map
      Variant.read = some { doubleValue := .ofInteger i } := by
    cases b <;> cases h <;> simp only [defaultVariant, BondType.isSigned, BondType.isUnsigned,
      BondType.isFloat, resolved_basic] <;> rfl
  rw [SameExplicit, csSchemaType_basic hres, runtimeType_basic hres, hs, hcpp, hcs, hgbc, halike]
  by_cases hrange : -(2 ^ 63 - 1) ≤ i ∧ i ≤ 2 ^ 63 - 1
  · have hlit : cppIntegerLiteral i = some i := if_pos hrange
    have hlit' : csIntegerLiteral i = some i := if_pos (by omega)
    rw [hlit, hlit', Option.bind_some]
    have hF : 0 < F.precision ∧ F.least ≤ 0 := by cases b <;> cases h <;> decide
    -- a number of the format is the one that `fromInteger` has exactly if it is the nearest `double`
    have hnearest (x : Double) (hx : F.round i = some x) :
        x = .ofInteger i ↔ FloatFormat.double.round i = some x := by
      obtain ⟨v, rfl⟩ := round_finite hx
      unfold Double.ofInteger
      cases FloatFormat.double.round i with
      | none => simp
      | some y => simp [eq_comm]
    constructor
    · rintro ⟨v, hv, -, hjava, hgbc⟩
      obtain ⟨x, hx, rfl⟩ := Option.map_eq_some_iff.1 hv
      have hofInteger : x = .ofInteger i := by
        simpa using (Option.some.inj hgbc).symm
      refine ⟨fun halias => ?_, hrange.1, hrange.2, x, hx, (hnearest x hx).1 hofInteger⟩
      rw [javaExplicitDefault_alias literal halias (by simp)] at hjava
      simp only [Option.map_some, Option.getD_none, javaVariant_initialValue] at hjava
      obtain ⟨v, rfl⟩ := round_finite hx
      refine round_integer_zero hF.1 hF.2 hx ?_
      have hzero := congrArg RuntimeVariant.doubleValue (Option.some.inj hjava)
      simp only at hzero
      cases hzero
      rfl
    · rintro ⟨halias, -, -, x, hx, hdouble⟩
      have hofInteger := (hnearest x hx).2 hdouble
      refine ⟨{ doubleValue := x }, by rw [hx]; rfl, by rw [hx]; rfl, ?_, by rw [hofInteger]⟩
      cases hcase : t.isAlias with
      | true =>
          rw [javaExplicitDefault_alias literal hcase (by simp)]
          rw [halias hcase, round_of_zero h] at hx
          cases hx
          simp only [Option.map_some, Option.getD_none, javaVariant_initialValue]
      | false =>
          rw [eq_basic hres hcase]
          cases b <;> cases h <;> simp [javaExplicitDefault, hx, javaVariant]
  · have hlit : cppIntegerLiteral i = none := if_neg hrange
    rw [hlit]
    constructor
    · rintro ⟨v, hv, -⟩
      cases hv
    · rintro ⟨-, hlow, hhigh, -⟩
      exact absurd ⟨hlow, hhigh⟩ hrange

theorem sameExplicit_float (hb : b = .float ∨ b = .double) (x : Double) :
    SameExplicit literal name fieldName params args t (.float x) ↔
      ExplicitAlike literal params args t (.float x) := by
  rw [SameExplicit, csSchemaType_basic hres, runtimeType_basic hres, hs]
  cases halias : t.isAlias with
  | true =>
      -- the C# generator has no literal for an alias
      have hbasic (b' : BasicType) : t ≠ .basic b' := by
        rintro rfl
        cases halias
      have hcs : csExplicitDefault literal params args t (.float x) = none := by
        simp only [csExplicitDefault]
        split
        · exact absurd rfl (hbasic .float)
        · exact absurd rfl (hbasic .double)
        · rfl
      have halike : ¬ ExplicitAlike literal params args t (.float x) := by
        simp only [ExplicitAlike]
        split
        · exact absurd rfl (hbasic .float)
        · exact absurd rfl (hbasic .double)
        · exact id
      rw [hcs]
      refine ⟨?_, fun h => absurd h halike⟩
      rintro ⟨v, -, hv, -⟩
      cases hv
  | false =>
      obtain rfl := eq_basic hres halias
      have hgbc : (defaultVariant .ofInteger name fieldName (.basic b) (.float x)).toOption.map
          Variant.read = some { doubleValue := x } := by
        rcases hb with rfl | rfl <;> simp only [defaultVariant, BondType.isFloat, resolved_basic] <;> rfl
      rw [hgbc]
      rcases hb with rfl | rfl
      · simp only [cppExplicitDefault, csExplicitDefault, javaExplicitDefault, ExplicitAlike,
          resolved_basic]
        cases floatLiteral .single x with
        | none => simp
        | some y => simp [variantSet, csVariant, javaVariant, eq_comm]
      · simp only [cppExplicitDefault, csExplicitDefault, javaExplicitDefault, ExplicitAlike,
          resolved_basic]
        cases doubleLiteral x with
        | none => simp
        | some y => simp [variantSet, csVariant, javaVariant, eq_comm]

/-- The variant with a text in the member for its type. -/
def stringVariant (b : BasicType) (x : String) : RuntimeVariant :=
  if b = .string then { stringValue := x } else { wstringValue := x }

omit hres hs in
theorem stringVariant_inj {x y : String} : stringVariant b x = stringVariant b y ↔ x = y := by
  unfold stringVariant
  split <;> simp

omit hres hs in
theorem map_stringVariant {o : Option String} {x : String} :
    o.map (stringVariant b) = some (stringVariant b x) ↔ o = some x := by
  cases o with
  | none => simp
  | some y => simp [stringVariant_inj]

theorem sameExplicit_string (hb : b = .string ∨ b = .wstring) (x : String) :
    SameExplicit literal name fieldName params args t (.string x) ↔
      ExplicitAlike literal params args t (.string x) := by
  have halike : ExplicitAlike literal params args t (.string x) ↔
      StringAlike literal t.isAlias x := by
    simp only [ExplicitAlike, hres]
    rcases hb with rfl | rfl <;> rfl
  have hcpp : (cppExplicitDefault literal t (.string x)).map variantSet
      = ((literal .cpp x).map untilNul).map (stringVariant b) := by
    simp only [cppExplicitDefault, hres]
    rcases hb with rfl | rfl <;> rw [Option.map_map, Option.map_map] <;> rfl
  have hcs : (csExplicitDefault literal params args t (.string x)).map (csVariant (.basic b))
      = (literal .cs x).map (stringVariant b) := by
    simp only [csExplicitDefault, hres]
    rcases hb with rfl | rfl <;> rw [Option.map_map] <;> rfl
  have hgbc : (defaultVariant .ofInteger name fieldName (.basic b) (.string x)).toOption.map
      Variant.read = some (stringVariant b x) := by
    rcases hb with rfl | rfl <;> rfl
  -- the variant is the one that `gbc` makes of the text
  have hall {java : Option RuntimeVariant} {p : Prop}
      (hjava : java = some (stringVariant b x) ↔ p) :
      (∃ v, ((literal .cpp x).map untilNul).map (stringVariant b) = some v ∧
        (literal .cs x).map (stringVariant b) = some v ∧ java = some v ∧
        some (stringVariant b x) = some v) ↔
      ((literal .cpp x).map untilNul = some x ∧ literal .cs x = some x ∧ p) := by
    rw [← hjava, ← map_stringVariant (b := b), ← map_stringVariant (b := b) (o := literal .cs x)]
    constructor
    · rintro ⟨v, hcpp, hcs, hjava, hv⟩
      cases hv
      exact ⟨hcpp, hcs, hjava⟩
    · rintro ⟨hcpp, hcs, hjava⟩
      exact ⟨_, hcpp, hcs, hjava, rfl⟩
  rw [SameExplicit, csSchemaType_basic hres, runtimeType_basic hres, hs, hcpp, hcs, hgbc, halike,
    StringAlike]
  cases halias : t.isAlias with
  | true =>
      have hjava : javaVariant (.basic b) (initialValue (.basic b)) = stringVariant b "" := by
        rcases hb with rfl | rfl <;> rfl
      rw [javaExplicitDefault_alias literal halias (by simp), Option.map_some, Option.getD_none, hjava]
      refine hall ?_
      rw [Option.some.injEq, stringVariant_inj, if_pos rfl, eq_comm]
  | false =>
      obtain rfl := eq_basic hres halias
      have hjava : (javaExplicitDefault literal (.basic b) (.string x)).map (fun value =>
          javaVariant (.basic b) (value.getD (initialValue (.basic b))))
          = (literal .java x).map (stringVariant b) := by
        rcases hb with rfl | rfl <;> simp only [javaExplicitDefault] <;>
          cases literal .java x <;> rfl
      rw [hjava]
      refine hall ?_
      rw [map_stringVariant, if_neg (by decide)]

end

section

variable {name fieldName : String} {params : List TypeParam} {args : List BondType} {t : BondType}

/-- The variant with the value of a constant. -/
def enumVariant (i : Int) : RuntimeVariant :=
  { intValue := BitVec.ofInt 64 i }

theorem enumVariant_inj {i j : Int} (hi : -2 ^ 31 ≤ i ∧ i < 2 ^ 31) (hj : -2 ^ 63 ≤ j ∧ j < 2 ^ 63) :
    enumVariant i = enumVariant j ↔ i = j := by
  have hinj : enumVariant i = enumVariant j ↔ BitVec.ofInt 64 i = BitVec.ofInt 64 j := by
    simp [enumVariant]
  rw [hinj, ofInt_eq_iff]
  omega

theorem signExtend_int32 {i : Int} (hlow : -2 ^ 31 ≤ i) (hhigh : i < 2 ^ 31) :
    (BitVec.ofInt 32 i).signExtend 64 = BitVec.ofInt 64 i :=
  signExtend_ofInt (by decide) hlow hhigh

/-- A constant is one `int` in C++ and in C#. -/
theorem sameExplicit_enum {namespaces : List Namespace} {attributes : List Attribute} {n : String}
    {constants : List Constant} {args' args'' : List BondType}
    (hres : t.resolved = .userDefined (.enum namespaces attributes n constants) args')
    (hs : resolveType params args t = .userDefined (.enum namespaces attributes n constants) args'')
    (c : String) :
    SameExplicit literal name fieldName params args t (.enum c) ↔
      ExplicitAlike literal params args t (.enum c) := by
  have hruntime : runtimeType params args t
      = .userDefined (.enum namespaces attributes n constants) args' := by
    rw [runtimeType_of_ne (by rw [hres]; simp), hres]
  have hschema : csSchemaType params args t
      = .userDefined (.enum namespaces attributes n constants) args' := by
    unfold csSchemaType
    split
    · rw [resolved_container] at hres
      cases hres
    · exact hruntime
  have halike : ExplicitAlike literal params args t (.enum c) ↔ EnumAlike t.isAlias constants c := by
    simp only [ExplicitAlike, hres]
  have hcpp : (cppExplicitDefault literal t (.enum c)).map variantSet
      = (cppEnumerator constants c).map enumVariant := by
    simp only [cppExplicitDefault, hres, Option.map_map]
    congr 1
    funext v
    simp [variantSet, enumVariant]
  have hcs : (csExplicitDefault literal params args t (.enum c)).map
      (csVariant (.userDefined (.enum namespaces attributes n constants) args'))
      = (csEnumerator constants c).map fun x => { intValue := x.signExtend 64 } := by
    simp only [csExplicitDefault, hres, Option.map_map]
    rfl
  rw [SameExplicit, hschema, hruntime, hs, halike, hcpp, hcs, EnumAlike]
  cases hv : (reifyEnumValues constants).lookup c with
  | none =>
      have hgbc : (defaultVariant .ofInteger name fieldName
          (.userDefined (.enum namespaces attributes n constants) args'') (.enum c)).toOption
          = none := by
        simp only [defaultVariant, resolveEnum, hv]
        rfl
      rw [hgbc]
      simp
  | some v =>
      have hgbc : (defaultVariant .ofInteger name fieldName
          (.userDefined (.enum namespaces attributes n constants) args'') (.enum c)).toOption.map
          Variant.read = some (enumVariant v.toInt) := by
        simp only [defaultVariant, resolveEnum, hv]
        rfl
      obtain ⟨u, hu, hlow, hhigh, hmod⟩ := enumerator_found hv
      obtain ⟨w, hw, hfits, hmod'⟩ := javaConstant_found hv
      have hv64 : -2 ^ 63 ≤ v.toInt ∧ v.toInt < 2 ^ 63 := ⟨v.le_toInt, v.toInt_lt⟩
      rw [hgbc]
      by_cases hnodup : (constantNames constants).Nodup
      · by_cases hcsFits : FitsCs constants
        · have hcppVariant : (cppEnumerator constants c).map enumVariant = some (enumVariant u) := by
            rw [cppEnumerator, if_pos hnodup, hu]
            rfl
          have hcsVariant : (csEnumerator constants c).map (fun x =>
              ({ intValue := x.signExtend 64 } : RuntimeVariant)) = some (enumVariant u) := by
            rw [csEnumerator, if_pos ⟨hnodup, hcsFits⟩, hu, Option.map_some, Option.map_some,
              signExtend_int32 hlow (hhigh hcsFits)]
            rfl
          have hu32 : -2 ^ 31 ≤ u ∧ u < 2 ^ 31 := ⟨hlow, hhigh hcsFits⟩
          rw [hcppVariant, hcsVariant]
          cases halias : t.isAlias with
          | true =>
              have hzero : javaVariant (.userDefined (.enum namespaces attributes n constants) args')
                  (initialValue (.userDefined (.enum namespaces attributes n constants) args'))
                  = enumVariant 0 := javaVariant_initialValue _
              rw [javaExplicitDefault_alias literal halias (by simp), Option.map_some,
                Option.getD_none, hzero]
              constructor
              · rintro ⟨v', hv', -, hjava, hsame⟩
                cases hv'
                have huv := (enumVariant_inj hu32 hv64).1 (Option.some.inj hsame).symm
                have hu0 := (enumVariant_inj hu32 (by decide)).1 (Option.some.inj hjava).symm
                exact ⟨hnodup, hcsFits, v, rfl, by rw [if_pos rfl, ← huv, hu0]⟩
              · rintro ⟨-, -, v', hv', hv0⟩
                cases hv'
                rw [if_pos rfl] at hv0
                have hu0 : u = 0 := by omega
                exact ⟨_, rfl, rfl, by rw [hu0], by rw [hu0, hv0]⟩
          | false =>
              have ht : t = .userDefined (.enum namespaces attributes n constants) args' := by
                rwa [resolved_of_not_isAlias halias] at hres
              have hjava : (javaExplicitDefault literal t (.enum c)).map (fun value =>
                  javaVariant (.userDefined (.enum namespaces attributes n constants) args')
                    (value.getD (initialValue
                      (.userDefined (.enum namespaces attributes n constants) args'))))
                  = (javaEnumerator constants c).map fun x => { intValue := x.signExtend 64 } := by
                rw [ht]
                simp only [javaExplicitDefault]
                cases javaEnumerator constants c <;> rfl
              rw [hjava]
              by_cases hjavaFits : FitsJava constants
              · have hw32 := hfits hjavaFits
                rw [javaEnumerator, if_pos ⟨hnodup, hjavaFits⟩, hw, Option.map_some, Option.map_some,
                  signExtend_int32 hw32.1 hw32.2]
                constructor
                · rintro ⟨v', hv', -, -, hsame⟩
                  cases hv'
                  have huv := (enumVariant_inj hu32 hv64).1 (Option.some.inj hsame).symm
                  refine ⟨hnodup, hcsFits, v, rfl, ?_⟩
                  rw [if_neg (by decide), ← huv]
                  exact ⟨hjavaFits, hu32⟩
                · rintro ⟨-, -, v', hv', hv32⟩
                  cases hv'
                  rw [if_neg (by decide)] at hv32
                  -- an `int` is determined by its bits
                  have huv : u = v.toInt := by omega
                  have hwv : w.toInt = v.toInt := by omega
                  exact ⟨_, rfl, rfl, by rw [hwv, huv]; rfl, by rw [huv]⟩
              · rw [javaEnumerator, if_neg fun h => hjavaFits h.2]
                simp [hjavaFits]
        · rw [csEnumerator, if_neg fun h => hcsFits h.2]
          simp [hcsFits]
      · rw [cppEnumerator, if_neg hnodup]
        simp [hnodup]

/-- No C# code has a default for a field that has a type parameter as its type. -/
theorem sameExplicit_param {p : TypeParam} (hres : t.resolved = .typeParam p) {d : Default}
    (hd : d ≠ .nothing) :
    SameExplicit literal name fieldName params args t d ↔ ExplicitAlike literal params args t d := by
  have hbasic (b : BasicType) : t ≠ .basic b := by
    rintro rfl
    rw [resolved_basic] at hres
    cases hres
  have hcs : csExplicitDefault literal params args t d = none := by
    cases d with
    | nothing => exact absurd rfl hd
    | float x =>
        simp only [csExplicitDefault]
        split
        · exact absurd rfl (hbasic .float)
        · exact absurd rfl (hbasic .double)
        · rfl
    | _ => simp only [csExplicitDefault, hres]
  have halike : ¬ ExplicitAlike literal params args t d := by
    cases d with
    | nothing => exact absurd rfl hd
    | float x =>
        simp only [ExplicitAlike]
        split
        · exact absurd rfl (hbasic .float)
        · exact absurd rfl (hbasic .double)
        · exact id
    | _ => simp [ExplicitAlike, hres]
  refine ⟨?_, fun h => absurd h halike⟩
  rintro ⟨v, -, hv, -⟩
  rw [hcs] at hv
  cases hv

end

theorem csVariant_nothing {params : List TypeParam} {args : List BondType} (element : BondType) :
    csVariant (runtimeType params args element) (csNothing params args element)
        = { nothing := true } ↔ NothingAlike params args element := by
  unfold csNothing NothingAlike
  cases hscalar : element.isScalar with
  | true =>
      rw [if_pos rfl]
      generalize runtimeType params args element = t
      cases t with
      | basic b => cases b <;> simp [csVariant]
      | container kind t => cases kind <;> simp [csVariant]
      | userDefined decl args => cases decl <;> simp [csVariant]
      | _ => simp [csVariant]
  | false =>
      rw [if_neg (by decide)]
      generalize runtimeType params args element = t
      cases t with
      | basic b => cases b <;> simp [csVariant, initialValue, BasicType.integerFormat]
      | container kind t => cases kind <;> simp [csVariant]
      | userDefined decl args => cases decl <;> simp [csVariant, initialValue]
      | _ => simp [csVariant]

section

variable {name fullName : String} {params : List TypeParam} {args : List BondType}
  (hlength : args.length = params.length) (hargs : ∀ t ∈ args, t.Accepted [])

include hlength hargs

/-- A type that is no parameter keeps its first constructor in a schema. -/
theorem isAlias_resolveType_of_ne {t : BondType} (h : t.Accepted params)
    (hparam : ∀ p, t.resolved ≠ .typeParam p) : (resolveType params args t).isAlias = false := by
  refine isAlias_resolveType hlength hargs h fun p hp => hparam p ?_
  rw [hp]
  exact resolved_eq_self fun _ _ _ _ _ h => by cases h

theorem resolveType_basic {t : BondType} (h : t.Accepted params) {b : BasicType}
    (hres : t.resolved = .basic b) : resolveType params args t = .basic b := by
  have hnorm := norm_resolveType hlength hargs h
  rw [hres] at hnorm
  exact norm_basic (isAlias_resolveType_of_ne hlength hargs h (by rw [hres]; simp)) hnorm

theorem resolveType_userDefined {t : BondType} (h : t.Accepted params) {decl : Declaration}
    {args' : List BondType} (hdecl : decl.isAlias = false)
    (hres : t.resolved = .userDefined decl args') :
    ∃ args'', resolveType params args t = .userDefined decl args'' := by
  have hnorm := norm_resolveType hlength hargs h
  rw [hres, normWith_userDefined hdecl] at hnorm
  exact norm_userDefined (isAlias_resolveType_of_ne hlength hargs h (by rw [hres]; simp)) hnorm

theorem resolveType_maybe {t e : BondType} (h : t.Accepted params) (ht : t = .container .maybe e) :
    ∃ e', resolveType params args t = .container .maybe e' := by
  have hnorm := norm_resolveType hlength hargs h
  have hres : t.resolved = .container .maybe e := by rw [ht, resolved_container]
  rw [hres] at hnorm
  exact norm_container (isAlias_resolveType_of_ne hlength hargs h (by rw [hres]; simp)) hnorm

theorem sameDefault_nothing_iff {f : Field} (hf : f.fieldType.Accepted params) {e : BondType}
    (ht : f.fieldType = .container .maybe e) (hd : f.fieldDefault = some .nothing) :
    SameDefault literal name fullName params args f ↔ NothingAlike params args e := by
  obtain ⟨e', hs⟩ := resolveType_maybe hlength hargs hf ht
  have hcpp : cppDefault literal f = some { nothing := true } := by
    simp only [cppDefault, hd]
    rfl
  have hcs : csDefault literal name fullName params args f =
      some (csVariant (runtimeType params args e) (csNothing params args e)) := by
    simp only [csDefault, hd, ht]
    rfl
  have hjava : javaDefault literal params args f = some { nothing := true } := by
    simp only [javaDefault, ht]
  have hgbc : gbcDefault name params args f = some { nothing := true } := by
    simp only [gbcDefault, hd, hs]
    rfl
  rw [sameDefault_iff_all, hcpp, hcs, hjava, hgbc, ← csVariant_nothing]
  constructor
  · rintro ⟨v, hv, hcs, -⟩
    cases hv
    exact Option.some.inj hcs
  · intro h
    exact ⟨_, rfl, by rw [h], rfl, rfl⟩

theorem sameDefault_explicit_iff {f : Field} (hf : f.fieldType.Accepted params) {d : Default}
    (hd : f.fieldDefault = some d) (hnothing : d ≠ .nothing)
    (hvalid : validDefault f.fieldType.resolved d = true) :
    SameDefault literal name fullName params args f ↔
      ExplicitAlike literal params args f.fieldType d := by
  have hmaybe : ∀ e, f.fieldType ≠ .container .maybe e := by
    intro e he
    rw [he, resolved_container] at hvalid
    cases d <;> cases hvalid
  have hsame : SameDefault literal name fullName params args f ↔
      SameExplicit literal name f.fieldName params args f.fieldType d := by
    rw [sameDefault_iff_all, javaDefault_eq literal hmaybe]
    simp only [cppDefault, csDefault, gbcDefault, hd, SameExplicit]
    have hmapM : (some d).mapM (javaExplicitDefault literal f.fieldType)
        = (javaExplicitDefault literal f.fieldType d).map some := by
      simp only [Option.mapM_some]
      cases javaExplicitDefault literal f.fieldType d <;> rfl
    rw [hmapM, Option.map_map]
    rfl
  rw [hsame]
  cases hres : f.fieldType.resolved with
  | basic b =>
      have hs := resolveType_basic hlength hargs hf hres
      rw [hres] at hvalid
      have hdefault := isDefault_of_validDefault hvalid
      cases hdefault with
      | integer hrange =>
          obtain ⟨format, hformat⟩ : ∃ format, b.integerFormat = some format := by
            cases b <;> first | exact ⟨_, rfl⟩ | cases hrange
          exact sameExplicit_integer literal hres hs hformat (inFormat_of_validDefault hformat hvalid)
      | float hb => exact sameExplicit_float literal hres hs hb _
      | floatInteger hb =>
          obtain ⟨F, hF⟩ : ∃ F, b.floatFormat = some F := by
            rcases hb with rfl | rfl <;> exact ⟨_, rfl⟩
          exact sameExplicit_floatInteger literal hres hs hF _
      | bool => exact sameExplicit_bool literal hres hs _ rfl
      | string hb => exact sameExplicit_string literal hres hs hb _
  | userDefined decl args' =>
      rw [hres] at hvalid
      cases decl with
      | enum namespaces attributes n constants =>
          cases d with
          | enum c =>
              obtain ⟨args'', hs⟩ := resolveType_userDefined hlength hargs hf rfl hres
              exact sameExplicit_enum literal hres hs c
          | _ => cases hvalid
      | _ => cases d <;> cases hvalid
  | typeParam p => exact sameExplicit_param literal hres hnothing
  | _ =>
      rw [hres] at hvalid
      cases d <;> cases hvalid

/-- The four schemas have the same variant for the default of a field exactly if it is alike in the
    languages. -/
theorem sameDefault_iff {f : Field} (hmade : f.Made) (hf : f.fieldType.Accepted params) :
    SameDefault literal name fullName params args f ↔
      DefaultAlike literal name fullName params args f := by
  unfold DefaultAlike
  cases hd : f.fieldDefault with
  | none => exact sameDefault_implicit_iff literal hd
  | some d =>
      rcases hmade.default hd with ⟨hnothing, hvalid⟩ | ⟨rfl, e, ht⟩
      · exact sameDefault_explicit_iff literal hlength hargs hf hd hnothing hvalid
      · rw [sameDefault_nothing_iff literal hlength hargs hf ht hd, ht]
        rfl

end

/-- `0: uint8 x = 7;` -/
theorem sameDefault_iff_uint8 :
    SameDefault (fun _ x => some x) "S" "test.S" [] []
        (.mk [] 0 .optional (.basic .uint8) "x" (some (.integer 7))) ↔
      DefaultAlike (fun _ x => some x) "S" "test.S" [] []
        (.mk [] 0 .optional (.basic .uint8) "x" (some (.integer 7))) :=
  sameDefault_iff (fun _ x => some x) rfl (by simp)
    ⟨[], 0, .optional, .basic .uint8, "x", some (.integer 7), rfl⟩ (.basic .uint8)

/-- `0: bool flag = true;`: Java has it in another member than C++. -/
theorem true_differs :
    Field.Made (.mk [] 0 .optional (.basic .bool) "flag" (some (.bool true))) ∧
      producedDefault (fun _ x => some x) "S" "test.S" [] []
        (.mk [] 0 .optional (.basic .bool) "flag" (some (.bool true))) .cpp
          = some { uintValue := 1 } ∧
      producedDefault (fun _ x => some x) "S" "test.S" [] []
        (.mk [] 0 .optional (.basic .bool) "flag" (some (.bool true))) .java
          = some { intValue := 1 } ∧
      ¬ SameDefault (fun _ x => some x) "S" "test.S" [] []
        (.mk [] 0 .optional (.basic .bool) "flag" (some (.bool true))) := by
  have hcpp : producedDefault (fun _ x => some x) "S" "test.S" [] []
      (.mk [] 0 .optional (.basic .bool) "flag" (some (.bool true))) .cpp
        = some { uintValue := 1 } := rfl
  have hjava : producedDefault (fun _ x => some x) "S" "test.S" [] []
      (.mk [] 0 .optional (.basic .bool) "flag" (some (.bool true))) .java
        = some { intValue := 1 } := by decide +kernel
  refine ⟨⟨[], 0, .optional, .basic .bool, "flag", some (.bool true), rfl⟩, hcpp, hjava, ?_⟩
  rintro ⟨v, hv⟩
  have hsame := (hv .cpp).trans (hv .java).symm
  rw [hcpp, hjava] at hsame
  exact absurd hsame (by decide)

end Bond.Compiler

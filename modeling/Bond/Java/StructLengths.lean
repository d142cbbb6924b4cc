import Bond.Java.FirstPassCounter

set_option autoImplicit false

/-! # The lengths of the first pass in Java

When the lengths that `FirstPassCounter` records are those of the structs that are then written: no
string may take more bytes for the number of its bytes than for the number of its `char`s, and the
struct must be shorter than an `int` can say. -/

namespace Bond.Java.CompactBinary

open Bond.Cpp (BondDataType)
open Bond.Lib Bond.Managed
open VarUIntHelper ZigzagHelper StringHelper
open Varint

/-- A number of bytes as an `int`. -/
def size : ℕ →+ Int32 where
  toFun := Int32.ofNat
  map_zero' := rfl
  map_add' := Int32.ofNat_add

/-- How many bytes too few the first pass counts for a call. -/
def missing : WriterCall → ℕ
  | .write (.string value) =>
      getVarUInt32Length (Int32.ofNat (encodeString value).length)
        - getVarUInt32Length (Int32.ofNat value.length)
  | _ => 0

/-! ## What the counter counts for a method -/

theorem writeFieldBegin_length (type : BondDataType) (id : UInt16) :
    (writeFieldBegin type id).length = if id ≤ 5 then 1 else if id ≤ 0xFF then 2 else 3 := by
  unfold writeFieldBegin
  dsimp only
  split_ifs <;> simp

theorem getVarUInt32Length_ofNat {n : Nat} (h : n < 2 ^ 31) :
    getVarUInt32Length (Int32.ofNat n) = (varint n).length := by
  have hvalue : (Int32.ofNat n).toUInt32.toNat = n := by
    show n % 2 ^ 32 = n
    omega
  rw [getVarUInt32Length_eq, encodeVarUInt32_eq, hvalue]

theorem ofNat_pos_iff {n : Nat} (h : n < 2 ^ 31) : Int32.ofNat n > 0 ↔ 0 < n := by
  rw [gt_iff_lt, Int32.lt_iff_toInt_lt, Int32.toInt_ofNat_of_lt h]
  show (0 : Int) < n ↔ 0 < n
  omega

theorem length_le_encodeString_length (value : List UInt16) :
    value.length ≤ (encodeString value).length :=
  Utf16.length_le_utf8_length (by decide) value

theorem counterBytes_string {value : List UInt16} (h : value.length < 2 ^ 31)
    (hbytes : (encodeString value).length < 2 ^ 31) :
    counterBytes (.write (.string value)) + size (missing (.write (.string value)))
      = size (writeString value).length := by
  have hle := length_le_encodeString_length value
  have hwidth := varint_length_mono hle
  cases value with
  | nil => rfl
  | cons c cs =>
      unfold counterBytes writeString missing
      dsimp only
      rw [getVarUInt32Length_ofNat h, getVarUInt32Length_ofNat hbytes,
        if_pos ((ofNat_pos_iff h).2 (by simp)), if_neg (by simp), List.length_append,
        ← getVarUInt32Length_eq, getVarUInt32Length_ofNat hbytes]
      show size _ + size _ + size _ = size _
      rw [← map_add, ← map_add]
      congr 1
      omega

theorem counterBytes_wstring {value : List UInt16} (h : 2 * value.length < 2 ^ 31) :
    counterBytes (.write (.wstring value)) = size (writeWString value).length := by
  have hunits : (encodeWString value).length = 2 * value.length := Utf16.utf16le_length rfl value
  have hhalf : Int32.ofNat (2 * value.length) / 2 = Int32.ofNat value.length := by
    apply Int32.toInt_inj.1
    rw [Int32.toInt_div, Int32.toInt_ofNat_of_lt h, Int32.toInt_ofNat_of_lt (by omega)]
    show Int.bmod (Int.tdiv ((2 * value.length : Nat) : Int) 2) _ = _
    rw [Int.tdiv_eq_ediv_of_nonneg (by omega),
      show ((2 * value.length : Nat) : Int) / 2 = value.length by omega]
    exact Int.bmod_eq_of_le (by omega) (by omega)
  unfold counterBytes writeWString
  dsimp only
  cases value with
  | nil => rfl
  | cons c cs =>
      rw [if_pos ((ofNat_pos_iff (by omega)).2 (by simp)), if_neg (by simp), List.length_append,
        hunits, hhalf, ← getVarUInt32Length_eq]
      show size _ + size _ = size _
      rw [← map_add]

theorem counterBytes_container (count : Int32) (elementType : BondDataType) :
    counterBytes (.writeContainerBegin count elementType)
      = size (writeContainerBegin .v2 count elementType).length := by
  unfold counterBytes writeContainerBegin
  dsimp only
  by_cases hcount : count < 7
  · rw [if_pos hcount, if_pos ⟨rfl, hcount⟩]
    rfl
  · rw [if_neg hcount, if_neg fun h => hcount h.2, getVarUInt32Length_eq, List.length_cons,
      map_add, add_comm]
    rfl

theorem counterBytes_map (count : Int32) (keyType valueType : BondDataType) :
    counterBytes (.writeMapBegin count keyType valueType)
      = size (writeMapBegin count keyType valueType).length := by
  unfold counterBytes writeMapBegin
  dsimp only
  rw [getVarUInt32Length_eq, List.length_cons, List.length_cons, map_add, map_add, add_comm,
    add_assoc]
  rfl

/-- For all methods but `writeString` the counter counts what the writer writes. -/
theorem counterBytes_eq {call : WriterCall} (h : call.wellFormed encodeString = true) :
    counterBytes call + size (missing call) = size (callBytes .v2 call).length := by
  cases call with
  | writeFieldBegin type id =>
      unfold callBytes counterBytes
      dsimp only
      rw [writeFieldBegin_length]
      split_ifs <;> rfl
  | writeContainerBegin count elementType =>
      exact (add_zero _).trans (counterBytes_container count elementType)
  | writeMapBegin count keyType valueType =>
      exact (add_zero _).trans (counterBytes_map count keyType valueType)
  | writeBytes value => exact add_zero _
  | write value =>
      cases value with
      | string value =>
          simp only [WriterCall.wellFormed, BasicValue.wellFormed, Bool.and_eq_true,
            decide_eq_true_eq] at h
          exact counterBytes_string h.1 h.2
      | wstring value =>
          simp only [WriterCall.wellFormed, BasicValue.wellFormed, decide_eq_true_eq] at h
          exact (add_zero _).trans (counterBytes_wstring h)
      | uint16 value => exact (add_zero _).trans (congrArg Int32.ofNat (getVarUInt16Length_eq _))
      | uint32 value => exact (add_zero _).trans (congrArg Int32.ofNat (getVarUInt32Length_eq _))
      | uint64 value => exact (add_zero _).trans (congrArg Int32.ofNat (getVarUInt64Length_eq _))
      | int16 value => exact (add_zero _).trans (congrArg Int32.ofNat (getVarUInt16Length_eq _))
      | int32 value => exact (add_zero _).trans (congrArg Int32.ofNat (getVarUInt32Length_eq _))
      | int64 value => exact (add_zero _).trans (congrArg Int32.ofNat (getVarUInt64Length_eq _))
      | _ => rfl
  | _ => rfl

theorem format_short {call : WriterCall} (h : call.wellFormed encodeString = true) :
    (format .v2).Short size missing call where
  begins hkind := by
    cases call with
    | writeStructBegin => rfl
    | _ => cases hkind
  count _ := counterBytes_eq h

theorem lengthCount_eq (length : Int32) :
    (format .v2).lengthCount length = size ((format .v2).lengthBytes length).length :=
  congrArg Int32.ofNat (getVarUInt32Length_eq length)

theorem missing_le {call : WriterCall} (h : call.wellFormed encodeString = true) :
    missing call ≤ if (format .v2).kind call = .begins then 0 else (callBytes .v2 call).length := by
  cases call with
  | write value =>
      cases value with
      | string value =>
          simp only [WriterCall.wellFormed, BasicValue.wellFormed, Bool.and_eq_true,
            decide_eq_true_eq] at h
          rw [if_neg (by simp [format, WriterCall.kind])]
          show missing _ ≤ (writeString value).length
          unfold missing writeString
          dsimp only
          cases value with
          | nil => exact Nat.zero_le _
          | cons c cs =>
              rw [if_neg (by simp), List.length_append, ← getVarUInt32Length_eq]
              omega
      | _ => exact Nat.zero_le _
  | _ => exact Nat.zero_le _

/-- The number of the bytes of a string takes as many bytes as the number of its `char`s. -/
def SameWidth (value : List UInt16) : Prop :=
  getVarUInt32Length (Int32.ofNat value.length)
    = getVarUInt32Length (Int32.ofNat (encodeString value).length)

instance : DecidablePred SameWidth := fun _ => inferInstanceAs (Decidable (_ = _))

theorem missing_eq_zero_iff {value : List UInt16} (h : value.length < 2 ^ 31)
    (hbytes : (encodeString value).length < 2 ^ 31) :
    missing (.write (.string value)) = 0 ↔ SameWidth value := by
  have hwidth := varint_length_mono (length_le_encodeString_length value)
  unfold missing SameWidth
  rw [getVarUInt32Length_ofNat h, getVarUInt32Length_ofNat hbytes]
  dsimp only
  rw [getVarUInt32Length_ofNat h, getVarUInt32Length_ofNat hbytes]
  omega

/-- `SameWidth` for every string in a struct. -/
def SameWidths (s : StructValue) : Prop :=
  ∀ value, .write (.string value) ∈ s.calls .before → SameWidth value

/-! ## The grammar, without overflow -/

/-- The format in which the number of the bytes is counted as it is. -/
def grammar : TwoPass.Format WriterCall ℕ where
  kind := WriterCall.kind
  count call := (callBytes .v2 call).length
  lengthCount length := (varint length).length
  bytes := callBytes .v2
  lengthBytes := varint

theorem isWriter_grammar : IsWriter grammar where
  kind := rfl
  count_baseBegin := rfl
  bytes_baseBegin := rfl

/-- The number of bytes that the grammar has for a struct, after its length. -/
def byteCount (s : StructValue) : ℕ :=
  s.length grammar

theorem grammar_short (call : WriterCall) : grammar.Short (.id ℕ) (fun _ => 0) call where
  begins _ := rfl
  count _ := rfl

theorem lengthBytes_size {n : ℕ} (h : n < 2 ^ 31) :
    (format .v2).lengthBytes (size n) = varint n := by
  have hvalue : (Int32.ofNat n).toUInt32.toNat = n := by
    show n % 2 ^ 32 = n
    omega
  show encodeVarUInt32 (Int32.ofNat n) = _
  rw [encodeVarUInt32_eq, hvalue]

theorem eq_size_of_toInt {length : Int32} {n : ℕ} (h : length.toInt = n) :
    n < 2 ^ 31 ∧ length = size n := by
  have hlt : length.toInt < 2 ^ 31 := length.toInt_lt
  have hn : n < 2 ^ 31 := by omega
  refine ⟨hn, Int32.toInt_inj.1 ?_⟩
  rw [h]
  exact (Int32.toInt_ofNat_of_lt hn).symm

/-- Where lengths are those of the bytes, the passes write what the grammar has. -/
theorem grammar_of_counts {calls : List WriterCall} {n : Int32} {bytes : List UInt8}
    {structs : List (Int32 × List UInt8)} (h : (format .v2).Counts calls n bytes structs)
    (hstructs : ∀ t ∈ structs, t.1.toInt = t.2.length) :
    ∃ structs', grammar.Counts calls bytes.length bytes structs' := by
  induction h with
  | nil => exact ⟨[], .nil⟩
  | call h => exact ⟨[], .call h⟩
  | append _ _ ih ih' =>
      obtain ⟨structs₁, h₁⟩ := ih fun t ht => hstructs t (List.mem_append_left _ ht)
      obtain ⟨structs₂, h₂⟩ := ih' fun t ht => hstructs t (List.mem_append_right _ ht)
      rw [List.length_append]
      exact ⟨_, h₁.append h₂⟩
  | @struct o c cs n bytes structs ho hc _ ih =>
      obtain ⟨structs', hbody⟩ := ih fun t ht => hstructs t (List.mem_cons_of_mem _ ht)
      have hend : (grammar.bytes c).length = grammar.count c := rfl
      obtain ⟨hlt, hlength⟩ := eq_size_of_toInt (hstructs _ List.mem_cons_self)
      rw [List.length_append] at hlt hlength
      have hbytes : (format .v2).lengthBytes (n + (format .v2).count c)
          = grammar.lengthBytes (bytes.length + grammar.count c) := by
        rw [show n + (format .v2).count c = _ from hlength]
        exact lengthBytes_size hlt
      have hstruct := TwoPass.Format.Counts.struct (F := grammar) ho hc hbody
      refine ⟨(bytes.length + grammar.count c, bytes ++ grammar.bytes c) :: structs', ?_⟩
      rw [hbytes, List.length_append, List.length_append]
      exact hstruct

/-! ## The lengths are right -/

/-- The passes over a struct stay in step if and only if the lengths agree with the bytes. -/
theorem inStep_struct_iff {body : List WriterCall} {n : Int32} {bytes : List UInt8}
    {structs : List (Int32 × List UInt8)} (h : (format .v2).Counts body n bytes structs)
    (agree : Int32 → List UInt8 → Prop) :
    InStep (.writeStructBegin :: (body ++ [.writeStructEnd])) agree ↔
      ∀ t ∈ (n + 1, bytes ++ [BondDataType.stop.toUInt8]) :: structs, agree t.1 t.2 := by
  have hstruct := h.struct (o := .writeStructBegin) (c := .writeStructEnd) rfl rfl
  unfold InStep
  rw [Writer.step_eq]
  exact hstruct.inStep_iff_forall (firstPass_struct h) agree

/-- If the length of a struct is right then no string in it is missing bytes. -/
theorem sameWidths_of_length {s : StructValue} (h : s.wellFormed encodeString = true)
    (hlength : (s.length (format .v2)).toInt
      = ((s.encodeBody (format .v2) ++ [BondDataType.stop.toUInt8]).length : ℕ)) :
    SameWidths s := by
  obtain ⟨structs, hcounts⟩ := (isWriter .v2).structBody .before s
  have hcalls := Value.calls_wellFormed .before (.struct s) h
  obtain ⟨hlt, hsize⟩ := eq_size_of_toInt hlength
  have hmissed := hcounts.add_short lengthCount_eq fun c hc =>
    format_short (hcalls c (List.mem_cons_of_mem _ (List.mem_append_left _ hc)))
  have hstop : s.bodyCount (format .v2) = size (s.encodeBody (format .v2)).length := by
    rw [List.length_append, map_add] at hsize
    exact (Int32.add_left_inj _).1 hsize
  have hzero : size (((s.bodyCalls .before).map missing).sum) = 0 := by
    rw [← hstop] at hmissed
    exact (Int32.add_right_inj (s.bodyCount (format .v2))).1 (hmissed.trans (add_zero _).symm)
  have hsum : ((s.bodyCalls .before).map missing).sum ≤ _ := hcounts.sum_le fun c hc =>
    missing_le (hcalls c (List.mem_cons_of_mem _ (List.mem_append_left _ hc)))
  have hmod : ((s.bodyCalls .before).map missing).sum % 2 ^ 32 = 0 :=
    congrArg (fun length : Int32 => length.toUInt32.toNat) hzero
  -- fewer bytes are missing than are written, so the sum does not wrap around
  have hnone : ((s.bodyCalls .before).map missing).sum = 0 := by
    rw [List.length_append] at hlt
    omega
  intro value hvalue
  rw [StructValue.calls, List.mem_cons, List.mem_append, List.mem_singleton] at hvalue
  rcases hvalue with hvalue | hvalue | hvalue
  · cases hvalue
  · have hvaluezero := List.sum_eq_zero_iff_forall_eq_nat.1 hnone _
      (List.mem_map_of_mem (f := missing) hvalue)
    have hfits := hcalls _ (List.mem_cons_of_mem _ (List.mem_append_left _ hvalue))
    simp only [WriterCall.wellFormed, BasicValue.wellFormed, Bool.and_eq_true,
      decide_eq_true_eq] at hfits
    exact (missing_eq_zero_iff hfits.1 hfits.2).1 hvaluezero
  · cases hvalue

/-- If the lengths are right then no string is missing bytes, and the struct is short enough. -/
theorem fits_of_inStep {s : StructValue} (h : s.wellFormed encodeString = true)
    (hstep : InStep (s.calls .before) fun length bytes => length.toInt = bytes.length) :
    SameWidths s ∧ byteCount s < 2 ^ 31 := by
  obtain ⟨structs, hcounts⟩ := (isWriter .v2).structBody .before s
  have hagree := (inStep_struct_iff hcounts _).1 hstep
  have hlength : (s.bodyCount (format .v2) + 1).toInt
      = ((s.encodeBody (format .v2) ++ [BondDataType.stop.toUInt8]).length : ℕ) :=
    hagree _ List.mem_cons_self
  refine ⟨sameWidths_of_length h hlength, ?_⟩
  obtain ⟨_, hgrammar⟩ := grammar_of_counts hcounts fun t ht =>
    hagree t (List.mem_cons_of_mem _ ht)
  obtain ⟨_, hbody⟩ := isWriter_grammar.structBody .before s
  have hcount := hbody.count_unique hgrammar
  have hlt := (eq_size_of_toInt hlength).1
  show s.bodyCount grammar + 1 < 2 ^ 31
  rw [hcount]
  rwa [List.length_append] at hlt

theorem missing_eq_zero {s : StructValue} (h : s.wellFormed encodeString = true)
    (hwidths : SameWidths s) : ∀ c ∈ s.bodyCalls .before, missing c = 0 := by
  intro c hc
  have hmem : c ∈ s.calls .before := List.mem_cons_of_mem _ (List.mem_append_left _ hc)
  have hfits := Value.calls_wellFormed .before (.struct s) h c hmem
  cases c with
  | write value =>
      cases value with
      | string value =>
          simp only [WriterCall.wellFormed, BasicValue.wellFormed, Bool.and_eq_true,
            decide_eq_true_eq] at hfits
          exact (missing_eq_zero_iff hfits.1 hfits.2).2 (hwidths value hmem)
      | _ => rfl
  | _ => rfl

/-- If no string is missing bytes, the lengths of a short struct are right. -/
theorem inStep_of_fits {s : StructValue} (h : s.wellFormed encodeString = true)
    (hwidths : SameWidths s) (hcount : byteCount s < 2 ^ 31) :
    InStep (s.calls .before) fun length bytes => length.toInt = bytes.length := by
  obtain ⟨structs, hcounts⟩ := isWriter_grammar.structBody .before s
  have hcalls := Value.calls_wellFormed .before (.struct s) h
  have hstruct := hcounts.struct (o := .writeStructBegin) (c := .writeStructEnd) rfl rfl
  have hprefixes : ∀ length, grammar.lengthCount length
      = AddMonoidHom.id ℕ (grammar.lengthBytes length).length := fun _ => rfl
  have hexact := hstruct.structs_eq hprefixes fun c _ => grammar_short c
  have htop : s.bodyCount grammar + 1
      = (s.encodeBody grammar ++ [BondDataType.stop.toUInt8]).length :=
    hexact _ List.mem_cons_self
  have hlt : s.bodyCount grammar + 1 < 2 ^ 31 := hcount
  have hinner : ∀ t ∈ structs, t.1 = t.2.length ∧ t.1 < 2 ^ 31 := by
    intro t ht
    have heq : t.1 = t.2.length := hexact t (List.mem_cons_of_mem _ ht)
    have hle := hcounts.length_le t ht
    rw [List.length_append] at htop
    exact ⟨heq, by omega⟩
  have hmissing := missing_eq_zero h hwidths
  -- with nothing missing, the counter counts what the grammar has
  have hmapped := hcounts.map (F := format .v2) size rfl
    (fun c hc => by
      have hcounted := counterBytes_eq
        (hcalls c (List.mem_cons_of_mem _ (List.mem_append_left _ hc)))
      rw [hmissing c hc, map_zero, add_zero] at hcounted
      exact hcounted)
    rfl fun t ht => by
      have hbytes := lengthBytes_size (hinner t ht).2
      refine ⟨?_, hbytes⟩
      rw [lengthCount_eq, hbytes]
      rfl
  refine (inStep_struct_iff hmapped _).2 fun t ht => ?_
  rcases List.mem_cons.1 ht with rfl | ht
  · show (size (s.bodyCount grammar) + size 1).toInt = _
    rw [← map_add]
    show (Int32.ofNat _).toInt = _
    rw [Int32.toInt_ofNat_of_lt hlt, htop]
  · obtain ⟨u, hu, rfl⟩ := List.mem_map.1 ht
    obtain ⟨heq, hsmall⟩ := hinner u hu
    show (Int32.ofNat u.1).toInt = u.2.length
    rw [Int32.toInt_ofNat_of_lt hsmall, heq]

/-- If the length of a struct is right, so are those of the structs in it. -/
theorem inStep_of_length {s : StructValue} (h : s.wellFormed encodeString = true)
    (hlength : (s.length (format .v2)).toInt
      = ((s.encodeBody (format .v2) ++ [BondDataType.stop.toUInt8]).length : ℕ)) :
    InStep (s.calls .before) fun length bytes => length.toInt = bytes.length := by
  obtain ⟨structs, hcounts⟩ := (isWriter .v2).structBody .before s
  have hmissing := missing_eq_zero h (sameWidths_of_length h hlength)
  have hcalls := Value.calls_wellFormed .before (.struct s) h
  have hexact := hcounts.structs_eq lengthCount_eq fun c hc => by
    have hshort := format_short (hcalls c (List.mem_cons_of_mem _ (List.mem_append_left _ hc)))
    exact ⟨fun _ => rfl, fun hkind => by
      have hcount := hshort.count hkind
      rwa [hmissing c hc] at hcount⟩
  have hlt := (eq_size_of_toInt hlength).1
  rw [List.length_append] at hlt
  refine (inStep_struct_iff hcounts _).2 fun t ht => ?_
  rcases List.mem_cons.1 ht with rfl | ht
  · exact hlength
  · have hle := hcounts.length_le t ht
    rw [hexact t ht]
    show (Int32.ofNat t.2.length).toInt = t.2.length
    exact Int32.toInt_ofNat_of_lt (by omega)

/-- The length of a struct is right if and only if the numbers of the bytes of all strings take as
    many bytes as the numbers of their `char`s, and the struct is shorter than 2^31 bytes. -/
theorem length_toInt_iff {s : StructValue} (h : s.wellFormed encodeString = true) :
    (s.length (format .v2)).toInt
        = ((s.encodeBody (format .v2) ++ [BondDataType.stop.toUInt8]).length : ℕ) ↔
      SameWidths s ∧ byteCount s < 2 ^ 31 := by
  obtain ⟨structs, hcounts⟩ := (isWriter .v2).structBody .before s
  constructor
  · intro hlength
    exact fits_of_inStep h (inStep_of_length h hlength)
  · intro hfits
    exact (inStep_struct_iff hcounts _).1 (inStep_of_fits h hfits.1 hfits.2) _ List.mem_cons_self

/-- In the two passes over the calls for a struct the length that the first pass records for each
    struct is the number of the bytes that the second pass writes for it if and only if the numbers
    of the bytes of all strings take as many bytes as the numbers of their `char`s, and the struct
    is shorter than 2^31 bytes. -/
theorem inStep_iff (s : StructValue) (h : s.wellFormed encodeString = true) :
    (InStep (s.calls .before) fun length bytes => length.toInt = bytes.length) ↔
      SameWidths s ∧ byteCount s < 2 ^ 31 :=
  ⟨fits_of_inStep h, fun hfits => inStep_of_fits h hfits.1 hfits.2⟩

/-! ## Accented letters -/

/-- A struct with a string of `n` letters `é`, which is `2 * n` bytes long. -/
def accents (n : Nat) : StructValue :=
  .root [(0, .basic (.string (List.replicate n 0xE9)))]

/-- The number of 64 letters takes one byte, that of their bytes two. -/
theorem accents_not_inStep :
    ¬ InStep ((accents 64).calls .before) fun length bytes => length.toInt = bytes.length := by
  intro hstep
  have hwidth := (fits_of_inStep (by decide +kernel) hstep).1 (List.replicate 64 0xE9)
    (by decide +kernel)
  exact absurd hwidth (by decide +kernel)

theorem accents_inStep :
    InStep ((accents 63).calls .before) fun length bytes => length.toInt = bytes.length := by
  refine (inStep_iff (accents 63) (by decide +kernel)).2 ⟨?_, by decide +kernel⟩
  intro value hvalue
  simp only [accents, StructValue.calls, StructValue.bodyCalls, fieldsCalls, Value.calls,
    List.append_nil, List.cons_append, List.nil_append, List.mem_cons, List.not_mem_nil, or_false,
    WriterCall.write.injEq, BasicValue.string.injEq, reduceCtorEq, false_or] at hvalue
  subst hvalue
  decide +kernel

end Bond.Java.CompactBinary

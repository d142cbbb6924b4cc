import Bond.Cpp.TruncatedSkip

set_option autoImplicit false

/-! # Payloads that are cut off

What is done with a field in a payload of Compact Binary or Fast Binary that ends inside of the
field: reading it, skipping it, copying it with `PassThrough`, and `ReadBlob` of a marshaled blob. -/

namespace Bond.Cpp

open Decoder Varint InputBuffer
open SimpleBinary (writeBlob readBlob)

/-! ## Skipping -/

/-- A struct that is skipped field by field ends with a byte that is looked at. -/
theorem slides_byField {P : ProtocolWriter} {M : SkipMarks} {s : StructValue} {op : Reader Unit}
    {n : Nat} (hmarks : M.byLength = false)
    (hlength : ((Value.struct s).passed P M).length = ((Value.struct s).encode P).length) :
    Slides n op ((Value.struct s).encode P) ((Value.struct s).passed P M) := by
  have hpassed : (Value.struct s).passed P M
      = (unmarked (outputBytes (P.lengthBegin (UInt32.ofNat
          (s.encodeBody P ++ stopBytes false).length))) ++ s.bodyPassed P M) ++ [false] := by
    rw [Value.passed, hmarks, List.append_assoc]
    rfl
  rw [hpassed] at hlength ⊢
  exact .of_last hlength

/-- A struct that is skipped field by field is as its fields are. -/
theorem cut_byField {P : ProtocolWriter} {M : SkipMarks} (hmarks : M.byLength = false)
    (hbegin : ∀ length, outputBytes (P.lengthBegin length) = [])
    {readFieldBegin : Reader (BondDataType × UInt16)} (hP : ReadsFields P readFieldBegin)
    {n : Nat} (s : StructValue) (skipType : BondDataType → Reader Unit) {bound : Nat}
    (hbound : n ≤ bound)
    (hfields : ∀ fs ∈ s.levels, ∀ f ∈ fs,
      Cut (n - 1) (skipType f.2.typeId) (f.2.encode P) (f.2.passed P M) ()) :
    Cut n (readLevelsLoop readFieldBegin (fun _ type => skipType type) bound bound
      >>= fun _ => pure ()) ((Value.struct s).encode P) ((Value.struct s).passed P M) () := by
  rw [encode_struct, Value.passed, hmarks, hbegin, bodyPassed_eq, List.nil_append]
  exact (cut_readLevelsLoop hP s hfields hbound hbound).bind_return fun _ => ()

namespace FastBinary

def skipMarks : SkipMarks where
  basic v := if v.type.isString then stringPassed v else marked (outputBytes (writeFixed v))
  byLength := false

section

variable {type : BasicType} {vs : List BasicValue}

theorem encode_strings (hstring : type.isString = true)
    (h : ∀ v ∈ vs, v.type = type ∧ v.wellFormed = true) :
    (vs.flatMap fun v => outputBytes (write v))
      = vs.flatMap fun v => outputBytes (writeString v) := by
  refine List.flatMap_congr fun v hv => ?_
  rw [write, (h v hv).1, if_pos hstring]

theorem encode_fixed (hstring : type.isString = false)
    (h : ∀ v ∈ vs, v.type = type ∧ v.wellFormed = true) :
    (vs.flatMap fun v => outputBytes (write v))
      = vs.flatMap fun v => outputBytes (writeFixed v) := by
  refine List.flatMap_congr fun v hv => ?_
  rw [write, (h v hv).1, if_neg (by simp [hstring])]

theorem passed_strings (hstring : type.isString = true)
    (h : ∀ v ∈ vs, v.type = type ∧ v.wellFormed = true) :
    vs.flatMap skipMarks.basic = vs.flatMap stringPassed := by
  refine List.flatMap_congr fun v hv => ?_
  simp only [skipMarks]
  rw [(h v hv).1, if_pos hstring]

theorem passed_fixed (hstring : type.isString = false)
    (h : ∀ v ∈ vs, v.type = type ∧ v.wellFormed = true) :
    vs.flatMap skipMarks.basic = vs.flatMap fun v => marked (outputBytes (writeFixed v)) := by
  refine List.flatMap_congr fun v hv => ?_
  simp only [skipMarks]
  rw [(h v hv).1, if_neg (by simp [hstring])]

end

theorem readsFields : ReadsFields writer readFieldBegin where
  begin_ _ := reads_readFieldBegin
  end_ _ base := reads_stop (throws_readUInt8.map _).bind decodesFields base

theorem truncationRules : TruncationRules skipRules skipMarks where
  containerBegin _ := reads_readContainerBegin
  containerBeginPair _ := reads_readContainerBeginPair
  cut_skipBasic n type vs h := by
    show Cut n (skipBasic type vs.length) (vs.flatMap fun v => outputBytes (write v)) _ ()
    rw [skipBasic]
    cases hstring : type.isString with
    | true =>
        rw [encode_strings hstring h, passed_strings hstring h, if_pos rfl]
        exact cut_skipStrings type vs hstring h
    | false =>
        rw [encode_fixed hstring h, passed_fixed hstring h, if_neg (by decide)]
        exact cut_skipFixed type vs fun v hv => (h v hv).1
  slides_skipBasic n type vs h hlt := by
    change (vs.flatMap fun v => outputBytes (write v)).length < 2 ^ 32 at hlt
    show Slides n (skipBasic type vs.length) (vs.flatMap fun v => outputBytes (write v)) _
    rw [skipBasic]
    cases hstring : type.isString with
    | true =>
        rw [encode_strings hstring h] at hlt ⊢
        rw [passed_strings hstring h, if_pos rfl]
        exact slides_skipStrings type vs hstring h hlt
    | false =>
        rw [encode_fixed hstring h] at hlt ⊢
        rw [if_neg (by decide)]
        exact slides_skipFixed type vs (fun v hv => (h v hv).1) hlt
  cut_skipStruct n s skipType bound hbound hfields :=
    cut_byField rfl (fun _ => rfl) readsFields s skipType hbound hfields
  slides_skipStruct _ _ _ _ hlength := slides_byField rfl hlength

end FastBinary

namespace CompactBinary

def skipMarks (version : Version) : SkipMarks where
  basic v :=
    if v.type.isString then stringPassed v
    else if (varUnsigned v).isSome then unmarked (outputBytes (write v))
    else marked (outputBytes (writeFixed v))
  byLength := version = .v2

theorem readsFields (version : Version) : ReadsFields (writer version) readFieldBegin where
  begin_ _ := reads_readFieldBegin
  end_ _ base := reads_stop throws_readUInt8.bind (decodesFields version) base

section

variable {n : Nat} {type : BasicType} {vs : List BasicValue} {version : Version}

/-- How the values of a type are skipped: all at once, each as a string or each as an integer. -/
inductive SkippedAs (version : Version) (type : BasicType) (size : Nat) : Reader Unit → Prop
  | fixed (h : ∀ v : BasicValue, v.type = type → outputBytes (write v) = outputBytes (writeFixed v) ∧
      (skipMarks version).basic v = marked (outputBytes (writeFixed v))) :
      SkippedAs version type size (checkedMultiply size type.sizeof >>= InputBuffer.skip)
  | string (htype : type.isString = true)
      (h : ∀ v : BasicValue, v.type = type → outputBytes (write v) = outputBytes (writeString v) ∧
        (skipMarks version).basic v = stringPassed v) :
      SkippedAs version type size (repeatN size (skipString type) >>= fun _ => pure ())
  | varUnsigned (h : ∀ v : BasicValue, v.type = type → ∃ u : VarUnsigned,
      outputBytes (write v) = varint u.toNat ∧
      (skipMarks version).basic v = unmarked (varint u.toNat)) :
      SkippedAs version type size
        (repeatN size (readVariableUnsigned .w64 >>= fun _ => pure ()) >>= fun _ => pure ())

theorem skippedAs (version : Version) (type : BasicType) (size : Nat) :
    SkippedAs version type size (skipBasic type size) := by
  have hvar (v : BasicValue) (hstring : v.type.isString = false) {u : VarUnsigned}
      (hu : varUnsigned v = some u) : ∃ u : VarUnsigned,
        outputBytes (write v) = varint u.toNat ∧
        (skipMarks version).basic v = unmarked (varint u.toNat) := by
    refine ⟨u, outputBytes_write hu, ?_⟩
    simp only [skipMarks]
    rw [hstring, if_neg (by decide), hu, outputBytes_write hu]
    rfl
  cases type with
  | bool | uint8 | int8 | float | double =>
      refine .fixed fun v hv => ?_
      cases v <;> simp only [BasicValue.type, reduceCtorEq] at hv
      exact ⟨rfl, rfl⟩
  | string | wstring =>
      refine .string rfl fun v hv => ?_
      cases v <;> simp only [BasicValue.type, reduceCtorEq] at hv
      exact ⟨rfl, rfl⟩
  | uint16 | uint32 | uint64 | int16 | int32 | int64 =>
      refine .varUnsigned fun v hv => ?_
      cases v <;> simp only [BasicValue.type, reduceCtorEq] at hv
      exact hvar _ rfl rfl

theorem cut_skipBasic (h : ∀ v ∈ vs, v.type = type ∧ v.wellFormed = true) :
    Cut n (skipBasic type vs.length) (vs.flatMap fun v => outputBytes (write v))
      (vs.flatMap (skipMarks version).basic) () := by
  have hskipped := skippedAs version type vs.length
  generalize skipBasic type vs.length = op at hskipped
  cases hskipped with
  | fixed heq =>
      rw [List.flatMap_congr fun v hv => (heq v (h v hv).1).1,
        List.flatMap_congr fun v hv => (heq v (h v hv).1).2]
      exact cut_skipFixed type vs fun v hv => (h v hv).1
  | string htype heq =>
      rw [List.flatMap_congr fun v hv => (heq v (h v hv).1).1,
        List.flatMap_congr fun v hv => (heq v (h v hv).1).2]
      exact cut_skipStrings type vs htype h
  | varUnsigned hvar =>
      refine .repeatN_discard vs fun v hv => ?_
      obtain ⟨u, hwrite, hpassed⟩ := hvar v (h v hv).1
      rw [hwrite, hpassed]
      exact reads_skipVarUnsigned u

theorem slides_skipBasic (h : ∀ v ∈ vs, v.type = type ∧ v.wellFormed = true)
    (hlt : (vs.flatMap fun v => outputBytes (write v)).length < 2 ^ 32) :
    Slides n (skipBasic type vs.length) (vs.flatMap fun v => outputBytes (write v))
      (vs.flatMap (skipMarks version).basic) := by
  have hskipped := skippedAs version type vs.length
  generalize skipBasic type vs.length = op at hskipped
  cases hskipped with
  | fixed heq =>
      have hwrite := List.flatMap_congr fun v hv => (heq v (h v hv).1).1
      rw [hwrite] at hlt ⊢
      exact slides_skipFixed type vs (fun v hv => (h v hv).1) hlt
  | string htype heq =>
      have hwrite := List.flatMap_congr fun v hv => (heq v (h v hv).1).1
      rw [hwrite] at hlt ⊢
      rw [List.flatMap_congr fun v hv => (heq v (h v hv).1).2]
      exact slides_skipStrings type vs htype h hlt
  | varUnsigned hvar =>
      refine .repeatN_discard vs (fun v hv => ?_) fun v hv => ?_
      · obtain ⟨u, hwrite, hpassed⟩ := hvar v (h v hv).1
        rw [hwrite, hpassed]
        exact reads_skipVarUnsigned u
      · obtain ⟨u, hwrite, hpassed⟩ := hvar v (h v hv).1
        rw [hwrite, hpassed]
        exact .of_unmarked (varint_length_pos u.toNat)

end

/-- A struct of version 2 is skipped by its length, which is looked at. -/
theorem cut_skipStructV2 {n : Nat} (s : StructValue) :
    Cut n skipStructV2 ((Value.struct s).encode (writer .v2))
      ((Value.struct s).passed (writer .v2) (skipMarks .v2)) () := by
  have hpassed : (Value.struct s).passed (writer .v2) (skipMarks .v2)
      = unmarked (outputBytes ((writer .v2).lengthBegin (UInt32.ofNat
          (s.encodeBody (writer .v2) ++ stopBytes false).length)))
        ++ marked (s.encodeBody (writer .v2) ++ stopBytes false) := by
    rw [Value.passed]
    rfl
  have hdecodes : Decodes skipStructV2 ((Value.struct s).encode (writer .v2)) (pure ()) :=
    decodes_skipStructV2 s
  rw [encode_struct] at hdecodes ⊢
  rw [hpassed]
  generalize s.encodeBody (writer .v2) ++ stopBytes false = body at hdecodes ⊢
  rw [outputBytes_lengthBegin] at hdecodes ⊢
  refine ⟨by simp, fun _ => hdecodes, fun k _ hk => ?_⟩
  rw [List.getElem?_append] at hk
  split at hk
  · next hlt =>
      rw [unmarked_length] at hlt
      rw [List.take_append_of_le_length (Nat.le_of_lt hlt)]
      exact (throws_readVariableUnsigned .w32 (UInt32.toNat_lt _) hlt).bind
  · exact absurd (mem_marked (List.mem_of_getElem? hk)) (by decide)

theorem slides_skipStructV2 {n : Nat} (s : StructValue) :
    Slides n skipStructV2 ((Value.struct s).encode (writer .v2))
      ((Value.struct s).passed (writer .v2) (skipMarks .v2)) := by
  rw [encode_struct, Value.passed]
  generalize s.encodeBody (writer .v2) ++ stopBytes false = body
  rw [outputBytes_lengthBegin]
  have hread : Reads n (readVariableUnsigned .w32) (varint (UInt32.ofNat body.length).toNat) _ :=
    reads_readVariableUnsigned .w32 _ (UInt32.toNat_lt _)
  exact .bind_unmarked hread (varint_length_pos _) fun _ => .of_succeeds fun symbols =>
    succeeds_skip _ symbols

theorem truncationRules (version : Version) :
    TruncationRules (skipRules version) (skipMarks version) where
  containerBegin _ := reads_readContainerBegin version
  containerBeginPair _ := reads_readContainerBeginPair
  cut_skipBasic _ _ _ := cut_skipBasic
  slides_skipBasic _ _ _ := slides_skipBasic
  cut_skipStruct n s skipType bound hbound hfields := by
    cases version with
    | v1 => exact cut_byField rfl (fun _ => rfl) (readsFields .v1) s skipType hbound hfields
    | v2 => exact cut_skipStructV2 s
  slides_skipStruct n s skipType bound hlength := by
    cases version with
    | v1 => exact slides_byField rfl hlength
    | v2 => exact slides_skipStructV2 s

end CompactBinary

/-! ## Reading -/

/-- What the methods of a reader have to do on their encodings where these are cut off. -/
structure ReadTruncation (P : TaggedProtocol) : Prop where
  structBegin (n : Nat) (length : UInt32) :
    Reads n (P.reader.readStructBegin false) (outputBytes (P.writer.lengthBegin length)) ()
  fields : ReadsFields P.writer P.reader.readFieldBegin
  containerBegin (n : Nat) (size : UInt32) (type : BondDataType) (h : type.isValue = true) :
    Reads n P.reader.readContainerBegin (outputBytes (P.writer.writeContainerBegin size type))
      (size.toNat, type)
  containerBeginPair (n : Nat) (size : UInt32) (key element : BondDataType)
    (hkey : key.isValue = true) (helement : element.isValue = true) :
    Reads n P.reader.readContainerBeginPair
      (outputBytes (P.writer.writeContainerBeginPair size key element)) (size.toNat, key, element)
  read (n : Nat) (value : BasicValue) (h : value.wellFormed = true) :
    Reads n (P.reader.read value.type) (outputBytes (P.writer.write value)) value

namespace ReadTruncation

variable {P : TaggedProtocol} (T : ReadTruncation P)

include T

theorem reads_readValue : ∀ v : Value, v.wellFormed = true → ∀ fuel,
    Reads fuel (P.readValue fuel v.typeId) (v.encode P.writer) v := by
  have hfuel {v : Value}
      (h : ∀ fuel, Reads (fuel + 1) (P.readValue (fuel + 1) v.typeId) (v.encode P.writer) v)
      (fuel : Nat) : Reads fuel (P.readValue fuel v.typeId) (v.encode P.writer) v := by
    cases fuel with
    | zero => exact .zero (h 0).length_eq
    | succ fuel => exact h fuel
  refine wellFormed_induct ?_ ?_ ?_ ?_
  · intro v hv
    refine hfuel fun fuel => ?_
    rw [Value.encode, Value.typeId, TaggedProtocol.readValue]
    exact (T.read (fuel + 1) v hv).map Value.basic
  · intro kind element items hlen helement ih
    refine hfuel fun fuel => ?_
    have hpos := P.writer.containerBegin_pos (UInt32.ofNat items.length) element
    have hheader := T.containerBegin (fuel + 1) (UInt32.ofNat items.length) element helement
    rw [UInt32.toNat_ofNat_of_lt' hlen] at hheader
    have hitems : Reads (fuel + 1 - (outputBytes (P.writer.writeContainerBegin
          (UInt32.ofNat items.length) element)).length)
        (repeatN items.length (P.readValue fuel element)) (encodeItems P.writer items)
        (items.map id) := by
      rw [encodeItems_eq]
      refine .repeatN items fun v hv => ?_
      obtain ⟨rfl, -, hread⟩ := ih v hv
      exact (hread fuel).mono (by omega)
    rw [List.map_id] at hitems
    rw [Value.encode, Value.typeId]
    cases kind <;> exact hheader.bind (hitems.bind_return _)
  · intro key element items hlen hkey helement ih
    refine hfuel fun fuel => ?_
    have hpos := P.writer.containerBeginPair_pos (UInt32.ofNat items.length) key element
    have hheader := T.containerBeginPair (fuel + 1) (UInt32.ofNat items.length) key element
      (BondDataType.isValue_of_isBasic hkey) helement
    rw [UInt32.toNat_ofNat_of_lt' hlen] at hheader
    have hitems : Reads (fuel + 1 - (outputBytes (P.writer.writeContainerBeginPair
          (UInt32.ofNat items.length) key element)).length)
        (repeatN items.length (do
          let k ← P.readValue fuel key
          let v ← P.readValue fuel element
          return (k, v))) (encodePairs P.writer items) (items.map id) := by
      rw [encodePairs_eq]
      refine .repeatN items fun kv hkv => ?_
      obtain ⟨⟨rfl, -, hkread⟩, rfl, -, hvread⟩ := ih kv hkv
      exact Reads.bind ((hkread fuel).mono (by omega))
        (((hvread fuel).mono (by omega)).bind_return fun v => (kv.1, v))
    rw [List.map_id] at hitems
    rw [Value.encode, Value.typeId, TaggedProtocol.readValue]
    exact hheader.bind (hitems.bind_return _)
  · intro s _ ih
    refine hfuel fun fuel => ?_
    have hlevels : Cut (fuel + 1) (readLevelsLoop P.reader.readFieldBegin
          (fun id type => do return (id, ← P.readValue fuel type)) (fuel + 1) (fuel + 1))
        (s.encodeBody P.writer ++ stopBytes false)
        (bodyMarks P.writer (fun v => unmarked (v.encode P.writer)) s ++ [false])
        (s.levels.map (List.map id)) :=
      cut_readLevelsLoop T.fields s
        (fun fs hfs f hf => ((ih fs hfs f hf).2 fuel).bind_return fun v => (f.1, v))
        (Nat.le_refl _) (Nat.le_refl _)
    have hmarks : bodyMarks P.writer (fun v => unmarked (v.encode P.writer)) s ++ [false]
        = unmarked (s.encodeBody P.writer ++ stopBytes false) := by
      rw [unmarked_append, bodyMarks_unmarked]
      rfl
    rw [hmarks] at hlevels
    have hread := (hlevels.mono (Nat.sub_le (fuel + 1)
      (outputBytes (P.writer.lengthBegin (UInt32.ofNat
        (s.encodeBody P.writer ++ stopBytes false).length))).length)).bind_return
        fun levels => Value.struct (.ofLevels levels)
    rw [List.map_id_fun, List.map_id, StructValue.ofLevels_levels] at hread
    rw [encode_struct, Value.typeId, TaggedProtocol.readValue]
    exact (T.structBegin _ _).bind hread

/-- Reading a value throws wherever it is cut off. -/
theorem throws_readPayload {v : Value} (h : v.wellFormed = true) {k : Nat}
    (hk : k < (v.encode P.writer).length) :
    Throws (P.readPayload v.typeId) ((v.encode P.writer).take k) := by
  refine throws_remainingLength ?_
  rw [List.length_take, Nat.min_eq_left (Nat.le_of_lt hk)]
  refine (T.reads_readValue v h (k + 1)).throws k (Nat.lt_succ_self k) ?_
  rw [unmarked, List.getElem?_map, List.getElem?_eq_getElem hk]
  rfl

end ReadTruncation

theorem FastBinary.readTruncation : ReadTruncation fastBinary where
  structBegin _ _ := .pure ()
  fields := readsFields
  containerBegin _ := reads_readContainerBegin
  containerBeginPair _ := reads_readContainerBeginPair
  read _ := reads_read

theorem CompactBinary.readTruncation (version : Version) :
    ReadTruncation (compactBinary version) where
  structBegin _ := reads_readStructBegin version
  fields := readsFields version
  containerBegin _ := reads_readContainerBegin version
  containerBeginPair _ := reads_readContainerBeginPair
  read _ := reads_read

/-! ## What is done with a field -/

/-- `PassThrough`: what is skipped is the range that is written. -/
def passThrough (reader : ProtocolReader) (type : BondDataType) : Reader (List UInt8) := do
  let before ← get
  reader.skip type
  let after ← get
  return before.remaining.take (after.pointer - before.pointer)

/-- The formats, with the bytes of a value that `Skip` steps over. -/
inductive TaggedFormat where
  | compactBinary (version : CompactBinary.Version)
  | fastBinary
deriving DecidableEq, Repr

namespace TaggedFormat

def protocol : TaggedFormat → TaggedProtocol
  | .compactBinary version => Bond.Cpp.compactBinary version
  | .fastBinary => Bond.Cpp.fastBinary

def skipMarks : TaggedFormat → SkipMarks
  | .compactBinary version => CompactBinary.skipMarks version
  | .fastBinary => FastBinary.skipMarks

def encode (F : TaggedFormat) (v : Value) : List UInt8 :=
  v.encode F.protocol.writer

/-- Whether `Skip` steps over the byte at an index of a value. -/
def StepsOver (F : TaggedFormat) (v : Value) (i : Nat) : Prop :=
  (v.passed F.protocol.writer F.skipMarks)[i]? = some true

end TaggedFormat

namespace TaggedFormat

variable (F : TaggedFormat) {v : Value}

theorem passed_length (h : v.wellFormed = true) :
    (v.passed F.protocol.writer F.skipMarks).length = (F.encode v).length := by
  cases F with
  | compactBinary version =>
      exact ((CompactBinary.truncationRules version).cut_skipType v h 0).length_eq
  | fastBinary => exact (FastBinary.truncationRules.cut_skipType v h 0).length_eq

theorem throws_read (h : v.wellFormed = true) {k : Nat} (hk : k < (F.encode v).length) :
    Throws (F.protocol.readPayload v.typeId) ((F.encode v).take k) := by
  cases F with
  | compactBinary version => exact (CompactBinary.readTruncation version).throws_readPayload h hk
  | fastBinary => exact FastBinary.readTruncation.throws_readPayload h hk

theorem throws_skip (h : v.wellFormed = true) {k : Nat} (hk : k < (F.encode v).length)
    (hover : ¬ F.StepsOver v k) :
    Throws (F.protocol.reader.skip v.typeId) ((F.encode v).take k) := by
  have hpassed : (v.passed F.protocol.writer F.skipMarks)[k]? = some false := by
    have hlt : k < (v.passed F.protocol.writer F.skipMarks).length := by rwa [F.passed_length h]
    unfold StepsOver at hover
    rw [List.getElem?_eq_getElem hlt] at hover ⊢
    simpa using hover
  cases F with
  | compactBinary version => exact (CompactBinary.truncationRules version).throws_skip h hk hpassed
  | fastBinary => exact FastBinary.truncationRules.throws_skip h hk hpassed

theorem succeeds_skip (h : v.wellFormed = true) (hlt : (F.encode v).length < 2 ^ 32) {k : Nat}
    (hk : k < (F.encode v).length)
    (hover : ∀ i, k ≤ i → i < (F.encode v).length → F.StepsOver v i) :
    Succeeds (F.protocol.reader.skip v.typeId) ((F.encode v).take k) := by
  have hpassed : ∀ p ∈ (v.passed F.protocol.writer F.skipMarks).drop k, p = true := by
    intro p hp
    obtain ⟨i, hi⟩ := List.mem_iff_getElem?.1 hp
    rw [List.getElem?_drop] at hi
    obtain ⟨hlt', -⟩ := List.getElem?_eq_some_iff.1 hi
    rw [F.passed_length h] at hlt'
    have hstep : _ = some true := hover (k + i) (Nat.le_add_right k i) hlt'
    rw [hi] at hstep
    exact Option.some.inj hstep
  cases F with
  | compactBinary version =>
      exact (CompactBinary.truncationRules version).succeeds_skip h hlt hk hpassed
  | fastBinary => exact FastBinary.truncationRules.succeeds_skip h hlt hk hpassed

end TaggedFormat

/-- There is a buffer that holds some bytes, if they are not too many. -/
theorem not_throws_of_succeeds {α : Type} {op : Reader α} {symbols : List UInt8}
    (hlt : symbols.length < 2 ^ 32) (h : Succeeds op symbols) : ¬ Throws op symbols := by
  intro hthrows
  obtain ⟨r, hr⟩ := h (.ofBlob symbols hlt) rfl
  obtain ⟨e, he⟩ := hthrows (.ofBlob symbols hlt) rfl
  rw [hr] at he
  cases he

/-- The bytes of a blob are its size and its data. -/
theorem outputBytes_writeBlob {payload : List UInt8}
    (hlt : (outputBytes (writeBlob payload)).length < 2 ^ 32) :
    payload.length < 2 ^ 32 ∧
    outputBytes (writeBlob payload) = littleEndian 4 payload.length ++ payload := by
  have hdata : outputBytes [OutputCall.write payload] = payload := by
    simp [outputBytes, OutputCall.bytes]
  have hpayload : payload.length < 2 ^ 32 := by
    rw [writeBlob, outputBytes_append, hdata, List.length_append] at hlt
    exact Nat.lt_of_le_of_lt (Nat.le_add_left _ _) hlt
  refine ⟨hpayload, ?_⟩
  rw [writeBlob, outputBytes_append, SimpleBinary.outputBytes_writeFixed_uint32 _ hpayload, hdata]

section

variable {payload : List UInt8} (hlt : (outputBytes (writeBlob payload)).length < 2 ^ 32) {k : Nat}

include hlt

/-- If the size of a blob is there then reading it succeeds, whatever else is missing. -/
theorem succeeds_readBlob (hge : 4 ≤ k) :
    Succeeds readBlob ((outputBytes (writeBlob payload)).take k) := by
  obtain ⟨hpayload, hencode⟩ := outputBytes_writeBlob hlt
  have hread : Reads (k + 1) (readUnsigned 4) (littleEndian 4 payload.length) payload.length :=
    reads_readUnsigned 4 payload.length hpayload
  have hsize := littleEndian_length 4 payload.length
  rw [hencode, List.take_append, List.take_of_length_le (by omega)]
  -- the size is read, and what follows it never fails
  refine (hread.decodes (by omega)).bind_succeeds fun b _ => ?_
  obtain ⟨r, hr⟩ := succeeds_skip payload.length _ b rfl
  refine ⟨(b.remaining.take (r.2.pointer - b.pointer), r.2), ?_⟩
  simp only [StateT.run_bind, StateT.run_get, pure_bind, hr]
  rfl

theorem throws_readBlob (hfour : k < 4) :
    Throws readBlob ((outputBytes (writeBlob payload)).take k) := by
  obtain ⟨hpayload, hencode⟩ := outputBytes_writeBlob hlt
  have hread : Reads (k + 1) (readUnsigned 4) (littleEndian 4 payload.length) payload.length :=
    reads_readUnsigned 4 payload.length hpayload
  have hsize := littleEndian_length 4 payload.length
  rw [hencode, List.take_append, Nat.sub_eq_zero_of_le (by omega), List.take_zero, List.append_nil]
  refine (hread.throws k (Nat.lt_succ_self k) ?_).bind
  rw [unmarked, List.getElem?_map, List.getElem?_eq_getElem (by omega)]
  rfl

end

/-- What is done with a field of a payload, or with the data of a marshaled `bonded`. -/
inductive FieldOperation where
  | read (F : TaggedFormat) (v : Value)
  | skip (F : TaggedFormat) (v : Value)
  | passThrough (F : TaggedFormat) (v : Value)
  | readBlob (payload : List UInt8)

namespace FieldOperation

/-- The bytes of the field. -/
def encoding : FieldOperation → List UInt8
  | .read F v => F.encode v
  | .skip F v => F.encode v
  | .passThrough F v => F.encode v
  | .readBlob payload => outputBytes (writeBlob payload)

def run : FieldOperation → Reader Unit
  | .read F v => do
      let _ ← F.protocol.readPayload v.typeId
      return ()
  | .skip F v => F.protocol.reader.skip v.typeId
  | .passThrough F v => do
      let _ ← Bond.Cpp.passThrough F.protocol.reader v.typeId
      return ()
  | .readBlob _ => do
      let _ ← SimpleBinary.readBlob
      return ()

def wellFormed : FieldOperation → Bool
  | .read _ v => v.wellFormed
  | .skip _ v => v.wellFormed
  | .passThrough _ v => v.wellFormed
  | .readBlob _ => true

/-- Whether the operation looks at the byte at an index of the field. Of a marshaled blob only the
    size is looked at. -/
def LooksAt (i : Nat) : FieldOperation → Prop
  | .read _ _ => True
  | .skip F v => ¬ F.StepsOver v i
  | .passThrough F v => ¬ F.StepsOver v i
  | .readBlob _ => i < 4

end FieldOperation

theorem throws_passThrough {reader : ProtocolReader} {type : BondDataType} {symbols : List UInt8}
    (h : Throws (reader.skip type) symbols) : Throws (passThrough reader type) symbols := by
  intro b hb
  obtain ⟨e, he⟩ := h b hb
  refine ⟨e, ?_⟩
  simp only [passThrough, StateT.run_bind, StateT.run_get, pure_bind, he]
  rfl

theorem succeeds_passThrough {reader : ProtocolReader} {type : BondDataType} {symbols : List UInt8}
    (h : Succeeds (reader.skip type) symbols) : Succeeds (passThrough reader type) symbols := by
  intro b hb
  obtain ⟨⟨u, b'⟩, hr⟩ := h b hb
  refine ⟨(b.remaining.take (b'.pointer - b.pointer), b'), ?_⟩
  simp only [passThrough, StateT.run_bind, StateT.run_get, pure_bind, hr]
  rfl

/-- An operation on a field of a payload that ends inside of the field throws if it looks at the
    first byte that is missing, and it does not throw if it looks at none of the bytes that are. -/
theorem operations_cut_off (operation : FieldOperation) (h : operation.wellFormed = true)
    (hlt : operation.encoding.length < 2 ^ 32) (k : Nat) (hk : k < operation.encoding.length) :
    (operation.LooksAt k → Throws operation.run (operation.encoding.take k)) ∧
    ((∀ i, k ≤ i → i < operation.encoding.length → ¬ operation.LooksAt i) →
      ¬ Throws operation.run (operation.encoding.take k)) := by
  have hcut : (operation.encoding.take k).length < 2 ^ 32 := by
    rw [List.length_take]
    omega
  cases operation with
  | read F v =>
      refine ⟨fun _ => (F.throws_read h hk).bind, fun hover => ?_⟩
      exact absurd trivial (hover k (Nat.le_refl k) hk)
  | skip F v =>
      refine ⟨fun hlooks => F.throws_skip h hk hlooks, fun hover => ?_⟩
      exact not_throws_of_succeeds hcut
        (F.succeeds_skip h hlt hk fun i hi hlen => not_not.1 (hover i hi hlen))
  | passThrough F v =>
      refine ⟨fun hlooks => (throws_passThrough (F.throws_skip h hk hlooks)).bind, fun hover => ?_⟩
      have hskip := F.succeeds_skip h hlt hk fun i hi hlen => not_not.1 (hover i hi hlen)
      exact not_throws_of_succeeds hcut
        ((succeeds_passThrough hskip).bind fun _ _ => succeeds_pure ())
  | readBlob payload =>
      constructor
      · intro hlooks
        exact (throws_readBlob hlt hlooks).bind
      · intro hover
        have hfour : ¬ k < 4 := hover k (Nat.le_refl k) hk
        exact not_throws_of_succeeds hcut
          ((succeeds_readBlob hlt (Nat.not_lt.1 hfour)).bind fun _ _ => succeeds_pure ())

/-- A string of two letters is stepped over behind its length. -/
theorem passed_letters :
    (Value.basic (.string [0x61, 0x62])).passed TaggedFormat.fastBinary.protocol.writer
      TaggedFormat.fastBinary.skipMarks = [false, true, true] := by
  show unmarked (varint 2) ++ marked [(0x61 : UInt8), 0x62] = _
  rw [varint_of_lt (by decide)]
  rfl

/-- The second letter of a string is stepped over, its length is looked at. -/
theorem operations_cut_off_string :
    Throws (FieldOperation.skip .fastBinary (.basic (.string [0x61, 0x62]))).run [] :=
  (operations_cut_off (.skip .fastBinary (.basic (.string [0x61, 0x62]))) (by decide)
    (by decide) 0 (by decide)).1 (by
      show ¬ _ = _
      rw [passed_letters]
      decide)

/-- A string of two letters of which the second one is cut off. -/
theorem string_cut_off : ¬ ∀ (F : TaggedFormat) (v : Value), v.wellFormed = true →
    ∀ k < (F.encode v).length,
      Throws (F.protocol.reader.skip v.typeId) ((F.encode v).take k) := by
  intro hall
  have hthrows := hall .fastBinary (.basic (.string [0x61, 0x62])) (by decide) 2 (by decide)
  refine not_throws_of_succeeds (by decide) ?_ hthrows
  refine TaggedFormat.fastBinary.succeeds_skip (by decide) (by decide)
    (by decide) fun i hi hlt => ?_
  have hlength : (TaggedFormat.fastBinary.encode (.basic (.string [0x61, 0x62]))).length = 3 := by
    decide
  obtain rfl : i = 2 := by omega
  show _ = _
  rw [passed_letters]
  rfl

end Bond.Cpp

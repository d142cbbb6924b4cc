import Bond.Java.ReaderGrammar

set_option autoImplicit false

/-! # When the readers of Java skip what they would read

The values for which `skip` of a reader passes over exactly the bytes that are read for a value: the
rules of `Skip` for each binary protocol, with the writers that write in it. -/

namespace Bond.Java

open Bond.Cpp (BondDataType BasicType)
open Bond.Cpp.CompactBinary (Version)
open Bond.Lib Bond.Managed
open Decoder Hereditary
open VarUIntHelper StringHelper BinaryStreamReader

/-- The binary protocols with a tag for each field. -/
inductive Protocol where
  | compactBinary (version : Version)
  | fastBinary
deriving DecidableEq, Repr

namespace Protocol

def format : Protocol → TwoPass.Format WriterCall Int32
  | .compactBinary version => CompactBinary.format version
  | .fastBinary => FastBinary.format

def reader : Protocol → TaggedProtocolReader
  | .compactBinary version => CompactBinary.reader version
  | .fastBinary => FastBinary.reader

def skipParts : Protocol → SkipParts
  | .compactBinary version => CompactBinary.skipParts version
  | .fastBinary => FastBinary.skipParts

/-- Whether structs are skipped field by field. -/
def byField : Protocol → Bool
  | .compactBinary .v2 => false
  | _ => true

/-- Where structs are skipped by their length, the condition that it is right. -/
def structFits : Protocol → StructValue → Prop
  | .compactBinary .v2, s => CompactBinary.SameWidths s ∧ CompactBinary.byteCount s < 2 ^ 31
  | _, _ => True

/-- What a writer of the protocol writes for a struct: `StructBondType.serialize`, with a first pass
    if the writer has one. The ids of fields are taken for what they are when unsigned. -/
def serialize (p : Protocol) (s : StructValue) : Option (List UInt8) :=
  match p with
  | .compactBinary .v2 => do
      let structLengths ← CompactBinary.firstPass (s.calls .before)
      ((s.calls .before).foldlM (CompactBinary.Writer.step .v2) ⟨[], structLengths⟩).map
        TwoPass.Pass2.output
  | .compactBinary .v1 =>
      ((s.calls .before).foldlM (CompactBinary.Writer.step .v1) ⟨[], []⟩).map TwoPass.Pass2.output
  | .fastBinary => some ((s.calls .before).flatMap FastBinary.callBytes)

theorem isWriter (p : Protocol) : IsWriter p.format := by
  cases p with
  | compactBinary version => exact CompactBinary.isWriter version
  | fastBinary => exact ⟨rfl, rfl, rfl⟩

theorem writer_v1 (calls : List WriterCall) (output : List UInt8) :
    calls.foldlM (CompactBinary.Writer.step .v1) ⟨output, []⟩
      = some ⟨output ++ calls.flatMap (CompactBinary.callBytes .v1), []⟩ := by
  induction calls generalizing output with
  | nil => simp
  | cons call calls ih =>
      have hcall : CompactBinary.Writer.step .v1 ⟨output, []⟩ call
          = some ⟨output ++ CompactBinary.callBytes .v1 call, []⟩ := by
        cases call with
        | writeStructBegin => simp [CompactBinary.Writer.step, CompactBinary.callBytes]
        | _ => rfl
      rw [List.foldlM_cons, hcall, Option.bind_eq_bind, Option.bind_some, ih, List.flatMap_cons,
        List.append_assoc]

/-- What is written for a struct is its encoding. -/
theorem serialize_eq (p : Protocol) (s : StructValue) :
    p.serialize s = some ((Value.struct s).encode p.format) := by
  have hcountsAs : CountsAs p.format ((Value.struct s).calls .before) _ _ :=
    p.isWriter.value (.struct s)
  obtain ⟨structs, hcounts⟩ := hcountsAs
  have hbegins {version : Version} (o : WriterCall)
      (ho : (CompactBinary.format version).kind o = .begins) :
      (CompactBinary.format version).bytes o = [] := by
    cases o with
    | writeStructBegin => rfl
    | _ => cases ho
  match p with
  | .compactBinary .v1 =>
      have hbytes := hcounts.flatMap_bytes (fun _ => rfl) hbegins
      unfold serialize
      dsimp only
      rw [writer_v1]
      exact congrArg some hbytes
  | .compactBinary .v2 =>
      obtain ⟨structs, hbody⟩ := (CompactBinary.isWriter .v2).structBody .before s
      have hstruct := hbody.struct (o := .writeStructBegin) (c := .writeStructEnd) rfl rfl
      have hsecond := hstruct.second [] []
      rw [List.append_nil] at hsecond
      unfold serialize
      dsimp only
      rw [StructValue.calls, CompactBinary.firstPass_struct hbody, Option.bind_eq_bind,
        Option.bind_some, CompactBinary.Writer.step_eq]
      exact congrArg (Option.map TwoPass.Pass2.output) hsecond
  | .fastBinary =>
      have hbytes := hcounts.flatMap_bytes (fun _ => rfl) fun o ho => by
        cases o with
        | writeStructBegin => rfl
        | _ => cases ho
      exact congrArg some hbytes

end Protocol

/-! ## The rules of each protocol -/

namespace CompactBinary

theorem decodesHeaders (protocolVersion : Version) :
    DecodesHeaders skipFieldBegin (format protocolVersion) where
  fieldBegin _ id h := decodes_skipFieldBegin id h
  structEnd := by
    show Decodes skipFieldBegin [0] _
    rw [skipFieldBegin, ← List.append_nil [_]]
    exact (decodes_readInt8 0).bind_pure (Decodes.pure _)
  baseEnd := by
    show Decodes skipFieldBegin [1] _
    rw [skipFieldBegin, ← List.append_nil [_]]
    exact (decodes_readInt8 1).bind_pure (Decodes.pure _)

theorem width_isBasic (type : BondDataType) (h : 0 < getFixedTypeWidth type) :
    type.isBasic = true := by
  cases type with
  | basic b => rfl
  | _ => cases h

/-- A struct that is skipped by its length. -/
theorem decodes_skipLength_iff {s : StructValue} (h : s.wellFormed encodeString = true) :
    Decodes (skipBytes (s.length (format .v2)).toInt)
        (s.encodeBody (format .v2) ++ [BondDataType.stop.toUInt8]) (pure ()) ↔
      SameWidths s ∧ byteCount s < 2 ^ 31 := by
  rw [decodes_skipBytes_iff, ← length_toInt_iff h]
  have hpos : 0 < (s.encodeBody (format .v2) ++ [BondDataType.stop.toUInt8]).length := by simp
  omega

theorem skipRules (protocolVersion : Version) :
    SkipRules (skipParts protocolVersion) (reader protocolVersion) (format protocolVersion)
      (Protocol.compactBinary protocolVersion).byField
      (Protocol.compactBinary protocolVersion).structFits where
  grammar := reader_grammar protocolVersion
  readListBegin := rfl
  readMapBegin := rfl
  skipBasic := decodes_skipBasic
  width_isBasic := width_isBasic
  width := write_length
  skipStruct s h hfits fuel hfields hfuel := by
    cases protocolVersion with
    | v1 =>
        rw [Value.encode, List.length_append] at hfuel
        exact decodes_skipFields (reader_grammar .v1) (decodesHeaders .v1) s (hfields rfl)
          (fuel + 1) (by omega)
    | v2 =>
        have hlength := (decodes_skipLength_iff h).2 hfits
        exact (decodes_decodeVarUInt32 (s.length (format .v2))).bind_pure hlength
  structFits s h hskip := by
    cases protocolVersion with
    | v1 => trivial
    | v2 =>
        refine (decodes_skipLength_iff h).1 ?_
        exact decodes_behind_header hskip (decodes_decodeVarUInt32 _) fun _ => ⟨_, rfl, rfl⟩

end CompactBinary

namespace FastBinary

theorem decodesHeaders : DecodesHeaders skipFieldBegin format where
  fieldBegin _ id h := decodes_skipFieldBegin id h
  structEnd := by
    show Decodes skipFieldBegin [0] _
    rw [skipFieldBegin, ← List.append_nil [_]]
    exact ((decodes_readInt8 0).map BondDataType.ofUInt8).bind_pure (Decodes.pure _)
  baseEnd := by
    show Decodes skipFieldBegin [1] _
    rw [skipFieldBegin, ← List.append_nil [_]]
    exact ((decodes_readInt8 1).map BondDataType.ofUInt8).bind_pure (Decodes.pure _)

theorem width_isBasic (type : BondDataType) (h : 0 < getFixedTypeWidth type) :
    type.isBasic = true := by
  cases type with
  | basic b => rfl
  | _ => cases h

theorem skipRules : SkipRules skipParts reader format Protocol.fastBinary.byField
    Protocol.fastBinary.structFits where
  grammar := reader_grammar
  readListBegin := rfl
  readMapBegin := rfl
  skipBasic := decodes_skipBasic
  width_isBasic := width_isBasic
  width := write_length
  skipStruct s _ _ fuel hfields hfuel := by
    rw [Value.encode, List.length_append] at hfuel
    exact decodes_skipFields reader_grammar decodesHeaders s (hfields rfl) (fuel + 1) (by omega)
  structFits _ _ _ := trivial

end FastBinary

/-! ## Skipping and reading -/

namespace Protocol

theorem skipRules (p : Protocol) :
    SkipRules p.skipParts p.reader p.format p.byField p.structFits := by
  cases p with
  | compactBinary version => exact CompactBinary.skipRules version
  | fastBinary => exact FastBinary.skipRules

theorem skip_eq (p : Protocol) : p.reader.skip = p.skipParts.skip := by
  cases p with
  | compactBinary version => rfl
  | fastBinary => rfl

/-- The values that `skip` of a value skips one by one. -/
def skipped (p : Protocol) : Value → List Value :=
  Bond.Java.skipped p.skipParts p.byField

/-- The keys of a map whose values have a fixed width take that width on average; a struct that is
    skipped by its length has the right length. -/
def SkipFits (p : Protocol) : Value → Prop :=
  Bond.Java.SkipFits p.skipParts p.format p.structFits

/-- Skipping a value and reading it both succeed and leave the same behind, whatever follows. -/
def SkipsAsItReads (p : Protocol) : Value → Prop :=
  Bond.Java.SkipsAsItReads p.reader p.format

end Protocol

end Bond.Java

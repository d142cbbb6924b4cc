import Mathlib.Data.Set.Defs
import Bond.Java.Slicing

set_option autoImplicit false

/-! # Field ids in Java

`StructField` (java/core/src/main/java/org/bondlib/StructBondType.java) keeps the ordinal of a field
as a `short`, which `writeFieldBegin` of a protocol writer takes as an `int`. Ordinals from 2^15 on are
negative there. -/

namespace Bond.Java

open Bond.Cpp (BondDataType)
open Bond.Cpp.CompactBinary (Version packed)
open Bond.Lib Bond.Managed
open Decoder Hereditary Varint
open StringHelper BinaryStreamReader

/-- `getId` of the `StructField` that is made with an ordinal: `(short) id` -/
def getId (ordinal : UInt16) : Int16 :=
  ordinal.toInt16

/-- The argument `id` of `writeFieldBegin`, which is given what `getId` returns. -/
def idArgument (ordinal : UInt16) : Int32 :=
  (getId ordinal).toInt32

namespace CompactBinary

/-- `writeFieldBegin` for any `int` -/
def writeFieldBeginInt (type : BondDataType) (id : Int32) : List UInt8 :=
  let value := type.toUInt8.toUInt32
  if id ≤ 5 then
    [(value ||| (id <<< 5).toUInt32).toUInt8]
  else if id ≤ 0xFF then
    [(value ||| 0xC0).toUInt8, id.toInt8.toUInt8]
  else
    (value ||| 0xE0).toUInt8 :: littleEndian 2 id.toInt16.toUInt16.toNat

/-- What `writeFieldBegin` of the `FirstPassCounter` adds for any `int`. -/
def counterFieldBegin (id : Int32) : Int32 :=
  if id ≤ 5 then 1 else if id ≤ 0xFF then 2 else 3

end CompactBinary

namespace FastBinary

/-- `writeFieldBegin` for any `int` -/
def writeFieldBeginInt (type : BondDataType) (id : Int32) : List UInt8 :=
  type.toUInt8 :: littleEndian 2 id.toInt16.toUInt16.toNat

end FastBinary

namespace Protocol

/-- What `writeFieldBegin` writes for a field with an ordinal. -/
def fieldBegin (p : Protocol) (type : BondDataType) (ordinal : UInt16) : List UInt8 :=
  match p with
  | .compactBinary _ => CompactBinary.writeFieldBeginInt type (idArgument ordinal)
  | .fastBinary => FastBinary.writeFieldBeginInt type (idArgument ordinal)

/-- What the first pass counts for a field with an ordinal. -/
def fieldCount (p : Protocol) (ordinal : UInt16) : Int32 :=
  match p with
  | .compactBinary _ => CompactBinary.counterFieldBegin (idArgument ordinal)
  | .fastBinary => 0

/-- What is written where the ids of fields come from `getId`. -/
def serialized (p : Protocol) : TwoPass.Format WriterCall Int32 where
  kind := p.format.kind
  count
    | .writeFieldBegin _ ordinal => p.fieldCount ordinal
    | call => p.format.count call
  lengthCount := p.format.lengthCount
  bytes
    | .writeFieldBegin type ordinal => p.fieldBegin type ordinal
    | call => p.format.bytes call
  lengthBytes := p.format.lengthBytes

/-- `serializeValue` of a struct: a first pass that leaves lengths behind and a second one that
    writes. -/
def serializeValue (p : Protocol) (s : StructValue) : Option (List UInt8) := do
  let counter ← (s.calls .before).foldlM p.serialized.first ⟨[], []⟩
  let writer ← (s.calls .before).foldlM p.serialized.second ⟨[], counter.lengths⟩
  return writer.output

/-- The ordinals that a protocol writes right: Compact Binary only those whose `short` is not
    negative. -/
def OrdinalFits (p : Protocol) (ordinal : UInt16) : Prop :=
  p = .fastBinary ∨ ordinal.toNat < 2 ^ 15

end Protocol

/-! ## Ids that are not negative -/

theorem idArgument_toInt (ordinal : UInt16) :
    (idArgument ordinal).toInt
      = if ordinal.toNat < 2 ^ 15 then (ordinal.toNat : Int) else ordinal.toNat - 2 ^ 16 := by
  have hsigned : (getId ordinal).toInt
      = if 2 * ordinal.toNat < 2 ^ 16 then (ordinal.toNat : Int) else ordinal.toNat - 2 ^ 16 :=
    BitVec.toInt_eq_toNat_cond ordinal.toBitVec
  rw [idArgument, Int16.toInt_toInt32, hsigned]
  split_ifs <;> omega

theorem idArgument_toInt16 (ordinal : UInt16) : (idArgument ordinal).toInt16 = getId ordinal :=
  Int16.toInt16_toInt32 _

/-- Comparisons of an argument that is not negative. -/
theorem idArgument_le {ordinal : UInt16} (h : ordinal.toNat < 2 ^ 15) (bound : Nat)
    (hbound : bound < 2 ^ 15) :
    idArgument ordinal ≤ Int32.ofNat bound ↔ ordinal ≤ UInt16.ofNat bound := by
  rw [Int32.le_iff_toInt_le, idArgument_toInt, if_pos h, Int32.toInt_ofNat_of_lt (by omega),
    UInt16.le_iff_toNat_le, UInt16.toNat_ofNat_of_lt' (show _ < 2 ^ 16 by omega)]
  omega

/-- The low byte of the argument is that of the ordinal, however the `int` is cut. -/
theorem idArgument_toInt8 (ordinal : UInt16) :
    (idArgument ordinal).toInt8.toUInt8 = ordinal.toUInt8 := by
  rw [idArgument, Int16.toInt8_toInt32]
  apply UInt8.toBitVec_inj.1
  show (ordinal.toBitVec.signExtend 8) = ordinal.toBitVec.setWidth 8
  exact BitVec.signExtend_eq_setWidth_of_le _ (by decide)

theorem idArgument_toUInt8 (ordinal : UInt16) :
    (idArgument ordinal).toUInt32.toUInt8 = ordinal.toUInt8 := by
  rw [← idArgument_toInt8]
  apply UInt8.toBitVec_inj.1
  show (idArgument ordinal).toBitVec.setWidth 8 = (idArgument ordinal).toBitVec.signExtend 8
  exact (BitVec.signExtend_eq_setWidth_of_le _ (by decide)).symm

/-- Only the low three bits of a byte are kept when it is shifted into the bits of an id. -/
theorem shiftLeft_mod (b : UInt8) : b <<< 5 = UInt8.ofNat (b.toNat % 8) <<< 5 := by
  have hall : ∀ n < 256, UInt8.ofNat n <<< 5 = UInt8.ofNat (n % 8) <<< 5 := by decide +kernel
  have hb := hall b.toNat b.toNat_lt
  rwa [UInt8.ofNat_toNat] at hb

namespace CompactBinary

/-- The header byte that an id is packed into has the low three bits of the ordinal. -/
theorem packed_idArgument (type : BondDataType) (ordinal : UInt16) :
    (type.toUInt8.toUInt32 ||| (idArgument ordinal <<< 5).toUInt32).toUInt8
      = type.toUInt8 ||| (UInt8.ofNat (ordinal.toNat % 8) <<< 5) := by
  have hshift : (idArgument ordinal <<< 5).toUInt32 = (idArgument ordinal).toUInt32 <<< 5 := rfl
  have hmod : ordinal.toUInt8.toNat % 8 = ordinal.toNat % 8 := by
    rw [UInt16.toNat_toUInt8]
    omega
  rw [UInt32.toUInt8_or, hshift, UInt32.toUInt8_shiftLeft _ _ (by decide), idArgument_toUInt8,
    UInt8.toUInt8_toUInt32, ← hmod, ← shiftLeft_mod]
  rfl

theorem writeFieldBeginInt_eq (type : BondDataType) {ordinal : UInt16}
    (h : ordinal.toNat < 2 ^ 15) :
    writeFieldBeginInt type (idArgument ordinal) = writeFieldBegin type ordinal := by
  have h5 : idArgument ordinal ≤ 5 ↔ ordinal ≤ 5 := idArgument_le h 5 (by decide)
  have hff : idArgument ordinal ≤ 0xFF ↔ ordinal ≤ 0xFF := idArgument_le h 0xFF (by decide)
  unfold writeFieldBeginInt writeFieldBegin
  simp only [h5, hff]
  split_ifs
  · rw [UInt32.toUInt8_or, UInt32.toUInt8_or]
    have hshift : (idArgument ordinal <<< 5).toUInt32 = (idArgument ordinal).toUInt32 <<< 5 := rfl
    rw [hshift, UInt32.toUInt8_shiftLeft _ _ (by decide), UInt32.toUInt8_shiftLeft _ _ (by decide),
      idArgument_toUInt8, UInt16.toUInt8_toUInt32]
  · rw [idArgument_toInt8]
  · rw [idArgument_toInt16]
    rfl

theorem idArgument_le_five {ordinal : UInt16} (h : 2 ^ 15 ≤ ordinal.toNat) :
    idArgument ordinal ≤ 5 := by
  have hlt := ordinal.toNat_lt
  rw [Int32.le_iff_toInt_le, idArgument_toInt, if_neg (by omega)]
  show (ordinal.toNat : Int) - 2 ^ 16 ≤ 5
  omega

theorem writeFieldBeginInt_negative (type : BondDataType) {ordinal : UInt16}
    (h : 2 ^ 15 ≤ ordinal.toNat) :
    writeFieldBeginInt type (idArgument ordinal)
      = [type.toUInt8 ||| (UInt8.ofNat (ordinal.toNat % 8) <<< 5)] := by
  unfold writeFieldBeginInt
  dsimp only
  rw [if_pos (idArgument_le_five h), packed_idArgument]

theorem counterFieldBegin_eq {ordinal : UInt16} (h : ordinal.toNat < 2 ^ 15) :
    counterFieldBegin (idArgument ordinal)
      = if ordinal ≤ 5 then 1 else if ordinal ≤ 0xFF then 2 else 3 := by
  have h5 : idArgument ordinal ≤ 5 ↔ ordinal ≤ 5 := idArgument_le h 5 (by decide)
  have hff : idArgument ordinal ≤ 0xFF ↔ ordinal ≤ 0xFF := idArgument_le h 0xFF (by decide)
  simp only [counterFieldBegin, h5, hff]

end CompactBinary

theorem FastBinary.writeFieldBeginInt_eq (type : BondDataType) (ordinal : UInt16) :
    writeFieldBeginInt type (idArgument ordinal) = writeFieldBegin type ordinal := by
  unfold writeFieldBeginInt
  rw [idArgument_toInt16]
  rfl

/-! ## Payloads with ids that fit -/

namespace Protocol

/-- The ordinals of the fields of a struct and of all structs in it. -/
def ordinals (s : StructValue) : Set UInt16 :=
  fun ordinal => ∃ type, WriterCall.writeFieldBegin type ordinal ∈ s.calls .before

theorem serialized_eq {p : Protocol} {call : WriterCall}
    (h : ∀ type ordinal, call = .writeFieldBegin type ordinal → p.OrdinalFits ordinal) :
    p.serialized.count call = p.format.count call ∧
      p.serialized.bytes call = p.format.bytes call := by
  cases call with
  | writeFieldBegin type ordinal =>
      have hfits := h type ordinal rfl
      cases p with
      | compactBinary version =>
          have hlt : ordinal.toNat < 2 ^ 15 := hfits.resolve_left (by simp)
          exact ⟨CompactBinary.counterFieldBegin_eq hlt,
            CompactBinary.writeFieldBeginInt_eq type hlt⟩
      | fastBinary => exact ⟨rfl, FastBinary.writeFieldBeginInt_eq type ordinal⟩
  | _ => exact ⟨rfl, rfl⟩

theorem isWriter_serialized (p : Protocol) : IsWriter p.serialized where
  kind := p.isWriter.kind
  count_baseBegin := p.isWriter.count_baseBegin
  bytes_baseBegin := p.isWriter.bytes_baseBegin

theorem serializeValue_eq (p : Protocol) (s : StructValue) :
    p.serializeValue s = some ((Value.struct s).encode p.serialized) := by
  obtain ⟨structs, hbody⟩ := p.isWriter_serialized.structBody .before s
  have hbegin : p.serialized.kind .writeStructBegin = .begins :=
    congrFun p.isWriter_serialized.kind _
  have hend : p.serialized.kind .writeStructEnd = .ends := congrFun p.isWriter_serialized.kind _
  have hsecond := (hbody.struct hbegin hend).second [] []
  rw [List.append_nil] at hsecond
  unfold serializeValue
  rw [StructValue.calls, hbody.first_struct hbegin hend, Option.bind_eq_bind, Option.bind_some]
  exact congrArg (fun writer => writer.bind fun w => some w.output) hsecond

/-- Where all ids fit, the payload is that of a writer of unsigned ids. -/
theorem encode_serialized {p : Protocol} {s : StructValue}
    (h : ∀ ordinal ∈ ordinals s, p.OrdinalFits ordinal) :
    (Value.struct s).encode p.serialized = (Value.struct s).encode p.format := by
  have hserialized : CountsAs p.serialized (s.calls .before) _ _ :=
    p.isWriter_serialized.value (.struct s)
  have hformat : CountsAs p.format (s.calls .before) _ _ := p.isWriter.value (.struct s)
  obtain ⟨structs, hserialized⟩ := hserialized
  obtain ⟨structs', hformat⟩ := hformat
  have hcongr := hformat.congr (F := p.serialized) rfl rfl rfl fun c hc =>
    serialized_eq fun type ordinal hcall => h ordinal ⟨type, hcall ▸ hc⟩
  exact hserialized.bytes_unique hcongr

/-! ## What is read back -/

/-- All structs with these ordinals are deserialized as what they are, given that what is skipped
    in them (the content of a `bonded`) fits. -/
def StructsReadBack (p : Protocol) (ids : Set UInt16) : Prop :=
  ∀ (types : Nat → StructBondType) (index : Nat) (s : StructValue),
    s.wellFormed encodeString = true → ordinals s ⊆ ids →
    Everywhere (Task.children p types) (Task.Fits p types) (.read (.struct index) (.struct s)) →
    ∀ o, (Value.struct s).asType types p.format (.struct index) = some o →
      ∃ payload, p.serializeValue s = some payload ∧
        Decodes (deserializeValue p.reader types (.struct index)) payload (pure o)

theorem structsReadBack_of_fits {p : Protocol} {ids : Set UInt16}
    (h : ∀ id ∈ ids, p.OrdinalFits id) : p.StructsReadBack ids := by
  intro types index s hwf hids hfits o ho
  refine ⟨_, p.serializeValue_eq s, ?_⟩
  rw [encode_serialized fun ordinal hordinal => h ordinal (hids hordinal)]
  have hvalid : Everywhere (Task.children p types) (Task.Valid p types)
      (.read (.struct index) (.struct s)) :=
    Task.everywhere_valid (.struct s) hwf (.struct index) ⟨hwf, o, ho⟩
  have hdone := Task.done hvalid hfits
  exact decodes_available fun left hleft => hdone o ho (left + 1) (Nat.lt_succ_of_le hleft)

end Protocol

/-! ## Negative ids -/

namespace CompactBinary

/-- What a reader makes of a header byte: of the id, only the three bits in it count. -/
theorem readFieldBegin_run {type : BondDataType} (htype : type.isValue = true) {k : Nat}
    (hk : k < 8) (rest : List UInt8) :
    readFieldBegin.run ((type.toUInt8 ||| (UInt8.ofNat k <<< 5)) :: rest)
      = (if k = 6 then (fun id : UInt8 => (type, id.toUInt16)) <$> readInt8
        else if k = 7 then (fun id => (type, UInt16.ofNat id)) <$> readBits 2
        else pure (type, UInt16.ofNat k) : Reader (BondDataType × UInt16)).run rest := by
  have hvalue : (UInt8.ofNat k).toNat = k := by
    rw [UInt8.toNat_ofNat']
    omega
  have heq (n : Nat) (hn : n < 8) : UInt8.ofNat k = UInt8.ofNat n ↔ k = n := by
    rw [← UInt8.toNat_inj, hvalue, UInt8.toNat_ofNat', Nat.mod_eq_of_lt (by omega)]
  have hwide : (UInt8.ofNat k).toUInt16 = UInt16.ofNat k := by
    apply UInt16.toNat_inj.1
    rw [UInt8.toNat_toUInt16, hvalue, UInt16.toNat_ofNat_of_lt' (show _ < 2 ^ 16 by omega)]
  obtain ⟨hlow, -, hhigh, -⟩ := packed type.toUInt8 (UInt8.ofNat k)
    (BondDataType.toUInt8_lt htype) (by omega)
  have h6 : UInt8.ofNat k = 6 ↔ k = 6 := heq 6 (by decide)
  have h7 : UInt8.ofNat k = 7 ↔ k = 7 := heq 7 (by decide)
  unfold readFieldBegin
  rw [StateT.run_bind]
  show StateT.run (ite _ _ _) rest = _
  simp only [hlow, hhigh, BondDataType.ofUInt8_toUInt8 htype, h6, h7, hwide]
  split_ifs <;> rfl

end CompactBinary

/-- `struct Switch { id: bool on; }` -/
def switchType (id : UInt16) (_ : Nat) : StructBondType :=
  .root [⟨.primitive .bool, id, .optional⟩]

def switchValue (id : UInt16) : StructValue :=
  .root [(id, .basic (.bool true))]

/-- The header of a negative id is read as one of a field with a small id, or takes bytes behind it
    for an id. -/
theorem readFieldBegin_switch (k : Nat) (hk : k < 8) :
    ∃ id' rest, id'.toNat < 8 ∧ (rest = [1, 0] ∨ rest = [0] ∨ rest = []) ∧
      CompactBinary.readFieldBegin.run
          ((BondDataType.toUInt8 (.basic .bool) ||| (UInt8.ofNat k <<< 5)) :: [1, 0])
        = pure ((.basic .bool, id'), rest) := by
  rw [CompactBinary.readFieldBegin_run rfl hk]
  split_ifs
  · exact ⟨1, [0], by decide, .inr (.inl rfl), rfl⟩
  · exact ⟨1, [], by decide, .inr (.inr rfl), rfl⟩
  · refine ⟨UInt16.ofNat k, [1, 0], ?_, .inl rfl, rfl⟩
    rwa [UInt16.toNat_ofNat_of_lt' (show _ < 2 ^ 16 by omega)]

/-- A field that the type does not know is skipped. -/
theorem readFields_unknown {reader : TaggedProtocolReader} {structFields : List StructField}
    {deserializeField : BondType → BondDataType → Reader Object} {bound : Nat} {seen : List UInt16}
    {type : BondDataType} {id : UInt16} {bytes left : List UInt8}
    (hheader : reader.readFieldBegin.run bytes = pure ((type, id), left))
    (htype : ¬ (type = .stop ∨ type = .stopBase)) (hnone : findField structFields id = none) :
    (readFields reader structFields deserializeField (bound + 1) seen).run bytes
      = (do
          reader.skip type
          readFields reader structFields deserializeField bound seen).run left := by
  rw [readFields, StateT.run_bind, hheader, pure_bind]
  simp only [hnone]
  rw [if_neg htype]

/-- No field is found behind the header of a negative id in a `Switch`. -/
theorem readFields_switch (version : Version) {id : UInt16} (hid : 2 ^ 15 ≤ id.toNat)
    (deserializeField : BondType → BondDataType → Reader Object) (bound : Nat)
    {fields : List (UInt16 × Object)} {rest : List UInt8}
    (h : (readFields (CompactBinary.reader version) [⟨.primitive .bool, id, .optional⟩]
      deserializeField bound []).run
        ((BondDataType.toUInt8 (.basic .bool) ||| (UInt8.ofNat (id.toNat % 8) <<< 5)) :: [1, 0])
      = .ok (fields, rest)) : fields = [] := by
  cases bound with
  | zero => cases h
  | succ bound =>
      obtain ⟨id', left, hid', hleft, hheader⟩ :=
        readFieldBegin_switch (id.toNat % 8) (Nat.mod_lt _ (by decide))
      have hnone : findField [⟨.primitive .bool, id, .optional⟩] id' = none := by
        have hne : id ≠ id' := fun heq => by
          rw [heq] at hid
          omega
        simp [findField, hne]
      rw [readFields_unknown hheader (by decide) hnone, StateT.run_bind] at h
      -- the field is skipped, and then the struct is at its end or there is nothing left
      have hskip (bytes : List UInt8) :
          ((CompactBinary.reader version).skip (.basic .bool)).run bytes
            = (skipBytes 1).run bytes := rfl
      rw [hskip] at h
      cases bound with
      | zero => rcases hleft with rfl | rfl | rfl <;> cases h
      | succ bound =>
          rcases hleft with rfl | rfl | rfl
          · exact (congrArg Prod.fst (Except.ok.inj h)).symm
          · cases h
          · cases h

/-- What is written for a `Switch` with a negative id. -/
theorem switch_encode (version : Version) {id : UInt16} (hid : 2 ^ 15 ≤ id.toNat) :
    (Value.struct (switchValue id)).encode (Protocol.compactBinary version).serialized
      = CompactBinary.lengthBytes version 3 ++ ((BondDataType.toUInt8 (.basic .bool) |||
          (UInt8.ofNat (id.toNat % 8) <<< 5)) :: [1, 0]) := by
  have hcount : CompactBinary.counterFieldBegin (idArgument id) = 1 :=
    if_pos (CompactBinary.idArgument_le_five hid)
  have hlength : (switchValue id).length (Protocol.compactBinary version).serialized = 3 := by
    show CompactBinary.counterFieldBegin (idArgument id) + 1 + 0 + 1 = 3
    rw [hcount]
    rfl
  have hheader := CompactBinary.writeFieldBeginInt_negative (.basic .bool) hid
  rw [Value.encode, hlength]
  show _ ++ (CompactBinary.writeFieldBeginInt (.basic .bool) (idArgument id) ++ [1] ++ [] ++ [0]) = _
  rw [hheader]
  rfl

/-- The object that a `Switch` with a negative id is deserialized as has no field. -/
theorem deserializeValue_switch (version : Version) {id : UInt16} (hid : 2 ^ 15 ≤ id.toNat)
    {levels : List (List (UInt16 × Object))} {rest : List UInt8}
    (h : (deserializeValue (CompactBinary.reader version) (switchType id) (.struct 0)).run
        ((Value.struct (switchValue id)).encode (Protocol.compactBinary version).serialized)
      = .ok (.struct levels, rest)) : levels = [[]] := by
  rw [switch_encode version hid] at h
  have hbegin : Decodes (CompactBinary.reader version).readStructBegin
      (CompactBinary.lengthBytes version 3) (pure ()) :=
    (CompactBinary.reader_grammar version).structBegin 3
  rw [deserializeValue_run, deserializeWithin, StateT.run_bind, hbegin.list_run, pure_bind] at h
  obtain ⟨levels', left, hlevels, hstruct⟩ := run_bind_ok h
  obtain rfl : levels' = levels :=
    Object.struct.inj (congrArg Prod.fst (Except.ok.inj hstruct))
  rw [switchType, deserializeValueAsBase] at hlevels
  obtain ⟨fields, left', hfields, hlevel⟩ := run_bind_ok hlevels
  obtain rfl : [fields] = levels' := congrArg Prod.fst (Except.ok.inj hlevel)
  obtain ⟨fields', left'', hread, hverify⟩ := run_bind_ok hfields
  obtain rfl := readFields_switch version hid _ _ hread
  obtain rfl : [] = fields := congrArg Prod.fst (Except.ok.inj hverify)
  rfl

namespace Protocol

end Protocol

end Bond.Java

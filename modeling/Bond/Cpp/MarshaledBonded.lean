import Bond.Cpp.CompactBinary
import Bond.Cpp.ParserDescent

set_option autoImplicit false

/-! # Marshaled payloads

A protocol without tags keeps a `bonded` as a marshaled payload: a magic number, a version, and a
struct in that protocol (cpp/inc/bond/core/detail/marshaled_bonded.h, select_protocol.h). The payload
is parsed in a buffer of its own. -/

namespace Bond.Cpp

open Decoder Varint InputBuffer

/-! ## Unread values -/

/-- A call with `std::nothrow`, as a destructor makes it: exceptions end here. -/
def nothrow (read : Reader Unit) : Reader Unit := fun b =>
  match read.run b with
  | .ok result => .ok result
  | .error (.undefinedBehavior, b') => .error (.undefinedBehavior, b')
  | .error (_, b') => .ok ((), b')

theorem decodes_nothrow {read : Reader Unit} {enc : List UInt8} (h : Decodes read enc (pure ())) :
    Decodes (nothrow read) enc (pure ()) := by
  intro b rest hb
  have hread := h b rest hb
  rw [pure_bind] at hread ⊢
  simp only [StateT.run, nothrow] at hread ⊢
  rw [hread]
  rfl

variable {n : Nat}

/-! ## The transform that reads nothing -/

/-- `Null` (cpp/inc/bond/core/null.h) for the fields of one level: a value that is not read skips
    itself. -/
def nullFields (reader : ProtocolReader) : Transform n Unit where
  expectedDepth := 0xffff
  begin_ _ := return ()
  end_ := return ()
  unknownEnd := return ()
  base _ := return false
  nonBasicTypeField field := onInput (nothrow (reader.skip field.type.id))
  basicTypeField _ _ type := onInput (nothrow (reader.skip (.basic type)))
  unknownField _ type := onInput (nothrow (reader.skip type))
  omittedField _ := return ()

/-- `Null`, whose `Base` applies it to the base struct. The levels of the hierarchy are bounded. -/
def nullTransform (reader : ProtocolReader) (S : SchemaDef n) (time : SchemaTime) :
    Nat → Transform n Unit
  | 0 => (nullFields reader).withBase fun _ => onInput (bondThrow .undefinedBehavior)
  | k + 1 => (nullFields reader).withBase fun j =>
      applyParser reader (nullTransform reader S time k) S time true j

section

variable (P : TaggedProtocol) (S : SchemaDef n) (time : SchemaTime)

theorem nullFields_on {e : Event n} (he : e.Fits) :
    RunsTo ((nullFields P.reader).on e) () (e.encoding P.writer) () () := by
  cases e with
  | nonBasicTypeField field v =>
      have hskip := P.decodes_skip v he.2
      rw [← he.1] at hskip
      exact RunsTo.lift (decodes_nothrow hskip) ()
  | basicTypeField field v =>
      obtain ⟨hbasic, hwf⟩ := he
      obtain ⟨type, htype⟩ : ∃ type, v.typeId = .basic type := by
        cases h : v.typeId <;> simp_all [BondDataType.isBasic]
      have hskip := P.decodes_skip v hwf
      rw [htype] at hskip
      rw [Transform.on, htype, basicTypeField]
      exact RunsTo.lift (decodes_nothrow hskip) ()
  | unknownField id v =>
      rw [Transform.on, unknownField, if_pos v.typeId_isValue]
      exact RunsTo.lift (decodes_nothrow (P.decodes_skip v he)) ()
  | omittedField field => exact RunsTo.pure () ()
  | unknownEnd => exact RunsTo.pure () ()

theorem handles_nullFields {es : List (Event n)} (hes : ∀ e ∈ es, e.Fits) :
    Handles P.writer (nullFields P.reader) () es () := by
  induction es with
  | nil => exact .nil ()
  | cons e es ih =>
      exact .cons (nullFields_on P (hes e List.mem_cons_self))
        (ih fun e he => hes e (List.mem_cons_of_mem _ he))

theorem descends_nullTransform :
    Descends P S time (nullTransform P.reader S time) fun _ _ => () where
  expectedDepth k := by cases k <;> rfl
  begin_ k _ _ := by cases k <;> exact RunsTo.pure () ()
  end_ k _ := by cases k <;> exact RunsTo.pure () ()
  base _ _ := rfl
  handles k _ _ h := by cases k <;> exact (handles_nullFields P h).withBase _
  after_append _ _ _ := rfl

end

/-! ## Selecting a protocol -/

/-- What `ReadVersion` of a reader accepts: its magic number, and versions up to its own. -/
structure ProtocolVersion where
  magic : Nat
  version : Nat
deriving DecidableEq, Repr

/-- `BuiltInProtocols`, as far as they are enabled -/
def builtInProtocols : List ProtocolVersion :=
  [⟨0x4243, 2⟩, ⟨0x5053, 2⟩, ⟨0x464d, 1⟩]

/-- `MarshaledBondedProtocols` of `SimpleBinaryReader` -/
def marshaledBondedProtocols : List ProtocolVersion :=
  [⟨0x4243, 2⟩]

/-- `ReadVersion` -/
def readVersion (protocol : ProtocolVersion) : Reader (Option Nat) := do
  let magic ← readUnsigned 2
  let version ← readUnsigned 2
  return if magic = protocol.magic ∧ version ≤ protocol.version then some version else none

/-- `NextProtocol`: the first of the protocols whose reader accepts the payload. Each one starts on
    a copy of the input. -/
def nextProtocol : List ProtocolVersion → Reader (ProtocolVersion × Nat)
  | [] => bondThrow .unknownProtocol
  | protocol :: protocols => do
      let input ← get
      match ← readVersion protocol with
      | some version => return (protocol, version)
      | none => do
          set input
          nextProtocol protocols

/-- Read from a buffer of its own, `CreateInputBuffer` of a range of bytes. -/
def withInput {α : Type} (blob : List UInt8) (read : Reader α) : Reader α := fun b =>
  if h : blob.length < 2 ^ 32 then
    match read.run (.ofBlob blob h) with
    | .ok (a, _) => .ok (a, b)
    | .error (e, _) => .error (e, b)
  else
    bondThrow .undefinedBehavior b

/-- `SelectProtocolAndApply` of `Null`, with the protocols that `SimpleBinaryReader` has for a
    `bonded`. -/
def applyNullMarshaled (S : SchemaDef n) (i : Fin n) : Reader Bool := do
  let (_, version) ← nextProtocol marshaledBondedProtocols
  let reader := CompactBinary.reader (if version = 2 then .v2 else .v1)
  let (done, _) ← (applyParser reader (nullTransform reader S .runtime n) S .runtime false i).run ()
  return done

/-! ## Marshaling -/

def CompactBinary.Version.toNat : CompactBinary.Version → Nat
  | .v1 => 1
  | .v2 => 2

/-- `Marshal` with a `CompactBinaryWriter` -/
def marshal (version : CompactBinary.Version) (s : StructValue) : List UInt8 :=
  littleEndian 2 0x4243 ++ littleEndian 2 version.toNat
    ++ s.encode (CompactBinary.writer version)

theorem decodes_readVersion (version : CompactBinary.Version) :
    Decodes (readVersion ⟨0x4243, 2⟩) (littleEndian 2 0x4243 ++ littleEndian 2 version.toNat)
      (pure (some version.toNat)) := by
  have hmagic := decodes_readUnsigned 2 0x4243 (by decide)
  have hversion := decodes_readUnsigned 2 version.toNat (by cases version <;> decide)
  have hle : version.toNat ≤ 2 := by cases version <;> decide
  have hread := hversion.bind_return fun v => if 0x4243 = 0x4243 ∧ v ≤ 2 then some v else none
  rw [if_pos ⟨rfl, hle⟩] at hread
  unfold readVersion
  exact hmagic.bind_pure hread

theorem decodes_nextProtocol (version : CompactBinary.Version) (protocols : List ProtocolVersion) :
    Decodes (nextProtocol (⟨0x4243, 2⟩ :: protocols))
      (littleEndian 2 0x4243 ++ littleEndian 2 version.toNat)
      (pure (⟨0x4243, 2⟩, version.toNat)) := by
  intro b rest hb
  have hread := decodes_readVersion version b rest hb
  rw [pure_bind] at hread ⊢
  simp only [nextProtocol, StateT.run_bind, StateT.run_get, pure_bind]
  rw [hread]
  rfl

/-- What a program does in a buffer of its own leaves the other buffer alone. -/
theorem decodes_withInput {α : Type} {enc rest : List UInt8} {read : Reader α} {a : α}
    (hlt : (enc ++ rest).length < 2 ^ 32) (h : Decodes read enc (pure a)) :
    Decodes (withInput (enc ++ rest) read) [] (pure a) := by
  intro b _ _
  have hread := h (.ofBlob (enc ++ rest) hlt) rest rfl
  rw [pure_bind] at hread ⊢
  simp only [StateT.run, withInput, dif_pos hlt] at hread ⊢
  rw [hread, List.length_nil, Cursor.advance_zero]
  rfl

variable {S : SchemaDef n} {i : Fin n} {is : List (Fin n)}

/-- Skipping a marshaled struct finds it well formed, whatever the levels of its schema. -/
theorem decodes_applyNullMarshaled (h : S.Hierarchy i is) (version : CompactBinary.Version)
    {s : StructValue} (hs : ∀ fs ∈ s.levels, PayloadIncreasing fs) (hwf : s.wellFormed = true) :
    Decodes (applyNullMarshaled S i) (marshal version s)
      (pure (levelsDone false is.length s.levels)) := by
  have happly := (descends_nullTransform (compactBinary version) S .runtime).runsTo_applyParser h hs
    hwf ()
  have hversion : (if version.toNat = 2 then CompactBinary.Version.v2 else .v1) = version := by
    cases version <;> rfl
  refine (decodes_nextProtocol version []).bind_pure ?_
  simp only [hversion]
  exact Decodes.bind_return happly Prod.fst

end Bond.Cpp

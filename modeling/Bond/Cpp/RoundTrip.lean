import Bond.Cpp.DoublePass
import Bond.Cpp.FastBinary

set_option autoImplicit false

/-! # Round trips

A value goes to a protocol writer as the calls that its traversal makes, and comes back from the
reader of the same protocol: by reading it as the payload describes it, and by skipping it. -/

namespace Bond.Cpp

open Decoder

namespace TaggedProtocol

variable (P : TaggedProtocol)

/-- Reading `bytes` gives back `v`, and skipping them ends at the same position: right behind them,
    whatever follows. -/
structure ReadsBack (v : Value) (bytes : List UInt8) : Prop where
  read (b : InputBuffer) (rest : List UInt8) (h : remaining b = bytes ++ rest) :
    (P.readPayload v.typeId).run b = .ok (v, advance b bytes.length)
  skip (b : InputBuffer) (rest : List UInt8) (h : remaining b = bytes ++ rest) :
    (P.reader.skip v.typeId).run b = .ok ((), advance b bytes.length)

theorem readsBack_encode {v : Value} (h : v.wellFormed = true) :
    P.ReadsBack v (v.encode P.writer) where
  read := P.decodes_readPayload v h
  skip := P.decodes_skip v h

end TaggedProtocol

/-! ## Compact Binary -/

/-- What `CompactBinaryWriter` writes for a value, `CompactBinaryReader` of the same version
    reads as this value. -/
theorem compactBinary_roundTrip (version : CompactBinary.Version) (v : Value)
    (h : v.wellFormed = true) :
    ∃ bytes, CompactBinary.writeCalls version v.calls = some bytes ∧
      ∀ (b : InputBuffer) (rest : List UInt8), remaining b = bytes ++ rest →
        ((compactBinary version).readPayload v.typeId).run b = .ok (v, advance b bytes.length) :=
  ⟨_, CompactBinary.writeCalls_calls version v, ((compactBinary version).readsBack_encode h).read⟩

/-- A struct with a base, fields with ids of all three header forms, and containers on both sides
    of the short form of the count. -/
def specimen : Value :=
  .struct (.derived
    (.root [(5, .basic (.int32 (-1))), (6, .basic (.string [104, 105]))])
    [(255, .list .list (.basic .bool) (List.replicate 6 (.basic (.bool true)))),
      (256, .map (.basic .uint64) .struct [(.basic (.uint64 300), .struct (.root []))]),
      (65535, .list .set (.basic .uint16) (List.replicate 7 (.basic (.uint16 0))))])

theorem specimen_wellFormed : specimen.wellFormed = true := by
  decide

theorem compactBinary_roundTrip_specimen :
    ∃ bytes, CompactBinary.writeCalls .v2 specimen.calls = some bytes ∧
      ∀ (b : InputBuffer) (rest : List UInt8), remaining b = bytes ++ rest →
        ((compactBinary .v2).readPayload specimen.typeId).run b
          = .ok (specimen, advance b bytes.length) :=
  compactBinary_roundTrip .v2 specimen specimen_wellFormed

/-- `Skip` moves to exactly where reading the value ends. -/
theorem compactBinary_skip_eq_read (version : CompactBinary.Version) (v : Value)
    (h : v.wellFormed = true) :
    ∃ bytes, CompactBinary.writeCalls version v.calls = some bytes ∧
      ∀ (b : InputBuffer) (rest : List UInt8), remaining b = bytes ++ rest →
        ∃ b', ((compactBinary version).readPayload v.typeId).run b = .ok (v, b') ∧
          ((compactBinary version).reader.skip v.typeId).run b = .ok ((), b') ∧
          remaining b' = rest := by
  have hback := (compactBinary version).readsBack_encode h
  refine ⟨_, CompactBinary.writeCalls_calls version v, fun b rest hb => ?_⟩
  exact ⟨_, hback.read b rest hb, hback.skip b rest hb, remaining_advance_append hb⟩

theorem compactBinary_skip_eq_read_specimen :
    ∃ bytes, CompactBinary.writeCalls .v2 specimen.calls = some bytes ∧
      ∀ (b : InputBuffer) (rest : List UInt8), remaining b = bytes ++ rest →
        ∃ b', ((compactBinary .v2).readPayload specimen.typeId).run b = .ok (specimen, b') ∧
          ((compactBinary .v2).reader.skip specimen.typeId).run b = .ok ((), b') ∧
          remaining b' = rest :=
  compactBinary_skip_eq_read .v2 specimen specimen_wellFormed

/-! ## Fast Binary -/

/-- What a `FastBinaryWriter` has written after a sequence of calls. -/
def FastBinary.writeCalls (calls : List WriterCall) : List UInt8 :=
  outputBytes (calls.flatMap FastBinary.writer.callOutput)

theorem FastBinary.writeCalls_calls (v : Value) : writeCalls v.calls = v.encode writer := by
  obtain ⟨lengths, h⟩ := v.writes (P := writer)
  exact h.bytes_eq fun _ => rfl

/-- What `FastBinaryWriter` writes for a value, `FastBinaryReader` reads as this value, and `Skip`
    moves to exactly where reading it ends. -/
theorem fastBinary_roundTrip (v : Value) (h : v.wellFormed = true) :
    ∃ bytes, FastBinary.writeCalls v.calls = bytes ∧
      ∀ (b : InputBuffer) (rest : List UInt8), remaining b = bytes ++ rest →
        ∃ b', (fastBinary.readPayload v.typeId).run b = .ok (v, b') ∧
          (fastBinary.reader.skip v.typeId).run b = .ok ((), b') ∧
          remaining b' = rest := by
  have hback := fastBinary.readsBack_encode h
  refine ⟨_, FastBinary.writeCalls_calls v, fun b rest hb => ?_⟩
  exact ⟨_, hback.read b rest hb, hback.skip b rest hb, remaining_advance_append hb⟩

theorem fastBinary_roundTrip_specimen :
    ∃ bytes, FastBinary.writeCalls specimen.calls = bytes ∧
      ∀ (b : InputBuffer) (rest : List UInt8), remaining b = bytes ++ rest →
        ∃ b', (fastBinary.readPayload specimen.typeId).run b = .ok (specimen, b') ∧
          (fastBinary.reader.skip specimen.typeId).run b = .ok ((), b') ∧
          remaining b' = rest :=
  fastBinary_roundTrip specimen specimen_wellFormed

end Bond.Cpp

import Bond.Cpp.Scalars

set_option autoImplicit false

/-! # Simple Binary

`SimpleBinaryWriter` and `SimpleBinaryReader` (cpp/inc/bond/protocol/simple_binary.h), in both
versions. A payload has no tags and no markers: a struct is its fields one after the other, the
fields of its base in front, and a container is a count and its items. -/

namespace Bond.Cpp

open Decoder Varint InputBuffer

namespace SimpleBinary

/-- `_version`. A reader takes every version but `v1` to be the second. -/
inductive Version where
  | v1 | v2
deriving DecidableEq, Repr

/-! ## Writer -/

/-- `WriteSize` -/
def writeSize (version : Version) (size : UInt32) : List OutputCall :=
  match version with
  | .v1 => writeFixed (.uint32 size)
  | .v2 => [.writeVariableUnsigned (.uint32 size)]

/-- `Write`, by the overload for the type of the value -/
def write (version : Version) (v : BasicValue) : List OutputCall :=
  match v with
  | .string units => writeSize version (UInt32.ofNat units.length) ++ [.write units]
  | .wstring units =>
      writeSize version (UInt32.ofNat units.length)
        ++ units.map fun unit => .write (littleEndian 2 unit.toNat)
  | v => writeFixed v

/-- What `MarshalToBlob` puts in front of a marshaled payload: a size that is never variable. -/
def writeBlob (payload : List UInt8) : List OutputCall :=
  writeFixed (.uint32 (UInt32.ofNat payload.length)) ++ [.write payload]

end SimpleBinary

mutual

/-- What the writer has written when it has been handed a value. The payload of a `bonded` is
    marshaled already. -/
def Value.encodeSimple (version : SimpleBinary.Version) : Value → List UInt8
  | .basic v => outputBytes (SimpleBinary.write version v)
  | .list _ _ items =>
      outputBytes (SimpleBinary.writeSize version (UInt32.ofNat items.length))
        ++ encodeSimpleItems version items
  | .map _ _ items =>
      outputBytes (SimpleBinary.writeSize version (UInt32.ofNat items.length))
        ++ encodeSimplePairs version items
  | .struct s => s.encodeSimple version
  | .bonded payload => outputBytes (SimpleBinary.writeBlob payload)

def encodeSimpleItems (version : SimpleBinary.Version) : List Value → List UInt8
  | [] => []
  | v :: vs => v.encodeSimple version ++ encodeSimpleItems version vs

def encodeSimplePairs (version : SimpleBinary.Version) : List (Value × Value) → List UInt8
  | [] => []
  | (k, v) :: kvs => (k.encodeSimple version ++ v.encodeSimple version)
      ++ encodeSimplePairs version kvs

def encodeSimpleFields (version : SimpleBinary.Version) : List (UInt16 × Value) → List UInt8
  | [] => []
  | (_, v) :: fs => v.encodeSimple version ++ encodeSimpleFields version fs

/-- The fields of a struct, those of its base first. -/
def StructValue.encodeSimple (version : SimpleBinary.Version) : StructValue → List UInt8
  | .root fields => encodeSimpleFields version fields
  | .derived base fields => base.encodeSimple version ++ encodeSimpleFields version fields

end

namespace SimpleBinary

section

variable (version : Version)

theorem encodeSimpleItems_eq (vs : List Value) :
    encodeSimpleItems version vs = vs.flatMap (Value.encodeSimple version) := by
  induction vs with
  | nil => rfl
  | cons v vs ih => rw [encodeSimpleItems, ih, List.flatMap_cons]

theorem encodeSimplePairs_eq (kvs : List (Value × Value)) :
    encodeSimplePairs version kvs =
      kvs.flatMap fun kv => kv.1.encodeSimple version ++ kv.2.encodeSimple version := by
  induction kvs with
  | nil => rfl
  | cons kv kvs ih => rw [encodeSimplePairs, ih, List.flatMap_cons]

theorem encodeSimpleFields_eq (fs : Fields) :
    encodeSimpleFields version fs = fs.flatMap fun f => f.2.encodeSimple version := by
  induction fs with
  | nil => rfl
  | cons f fs ih => rw [encodeSimpleFields, ih, List.flatMap_cons]

end

/-! ## Reader -/

/-- `ReadSize` -/
def readSize (version : Version) : Reader Nat :=
  match version with
  | .v1 => readUnsigned 4
  | .v2 => readVariableUnsigned .w32

/-- `Read`, by the overload for the type of the variable -/
def read (version : Version) (type : BasicType) : Reader BasicValue :=
  match type with
  | .string => do
      let length ← readSize version
      let units ← readBytes length
      return .string units
  | .wstring => do
      let length ← readSize version
      let units ← repeatN length (readUnsigned 2)
      return .wstring (units.map UInt16.ofNat)
  | type => readFixed type

/-- `Skip` for basic types. The size of the code units is a `size_t`, what is skipped a
    `uint32_t`. -/
def skipBasic (version : Version) (type : BasicType) : Reader Unit :=
  match type with
  | .string => readSize version >>= InputBuffer.skip
  | .wstring => do
      let length ← readSize version
      InputBuffer.skip (length * 2 % 2 ^ 32)
  | type => InputBuffer.skip type.sizeof

/-- `Skip(BondDataType)`: nothing happens for an id that is not a basic type. -/
def skip (version : Version) : BondDataType → Reader Unit
  | .basic type => skipBasic version type
  | _ => return ()

/-- `detail::ReadBlob` -/
def readBlob : Reader (List UInt8) := do
  let size ← readUnsigned 4
  let before ← get
  InputBuffer.skip size
  let after ← get
  return before.remaining.take (after.pointer - before.pointer)

/-! ### What the reader does -/

theorem outputBytes_writeFixed_uint32 (n : Nat) (h : n < 2 ^ 32) :
    outputBytes (writeFixed (.uint32 (UInt32.ofNat n))) = littleEndian 4 n := by
  have hn : (UInt32.ofNat n).toNat = n := UInt32.toNat_ofNat_of_lt' h
  rw [outputBytes_writeFixed, BasicValue.bits, hn]
  rfl

theorem decodes_readSize (version : Version) (n : Nat) (h : n < 2 ^ 32) :
    Decodes (readSize version) (outputBytes (writeSize version (UInt32.ofNat n))) (pure n) := by
  cases version with
  | v1 =>
      rw [readSize, writeSize, outputBytes_writeFixed_uint32 n h]
      exact decodes_readUnsigned 4 n h
  | v2 =>
      have hn : (UInt32.ofNat n).toNat = n := UInt32.toNat_ofNat_of_lt' h
      have hbytes : outputBytes (writeSize .v2 (UInt32.ofNat n)) = varint n := by
        simp only [writeSize, outputBytes, List.flatMap_cons, List.flatMap_nil, List.append_nil,
          bytes_writeVariableUnsigned, VarUnsigned.toNat, hn]
      rw [hbytes]
      exact decodes_readVariableUnsigned .w32 n h

/-- A string is its length and its code units. -/
theorem outputBytes_write_string {v : BasicValue} (version : Version)
    (h : v.type.isString = true) :
    outputBytes (write version v) =
      outputBytes (writeSize version (UInt32.ofNat v.stringLength)) ++ stringData v := by
  cases v with
  | string units =>
      rw [write, outputBytes_append]
      simp [outputBytes, OutputCall.bytes, stringData, BasicValue.stringLength]
  | wstring units =>
      rw [write, outputBytes_append]
      simp only [outputBytes, List.flatMap_map, bytes_write]
      rfl
  | _ => simp [BasicValue.type, BasicType.isString] at h

theorem decodes_read (version : Version) (v : BasicValue) (hwf : v.wellFormed = true) :
    Decodes (read version v.type) (outputBytes (write version v)) (pure v) := by
  have hlength := decodes_readSize version v.stringLength (stringLength_lt hwf)
  cases v with
  | string units =>
      rw [outputBytes_write_string version rfl]
      exact hlength.bind_pure ((decodes_readBytes units).bind_return _)
  | wstring units =>
      have hunits := Decodes.repeatN_pure (m := Except (BondException × InputBuffer)) units
        fun unit _ => decodes_readUnsigned 2 unit.toNat unit.toNat_lt
      have hread := hunits.bind_return fun units => BasicValue.wstring (units.map UInt16.ofNat)
      have hself : (units.map UInt16.toNat).map UInt16.ofNat = units := by
        simp [Function.comp_def]
      rw [hself] at hread
      rw [outputBytes_write_string version rfl]
      exact hlength.bind_pure hread
  | _ => exact decodes_readFixed _ rfl

/-- The size of what fits a buffer is not truncated. -/
theorem decodes_skip_mod {size : Nat} {bs : List UInt8} (h : size = bs.length) :
    Decodes (InputBuffer.skip (size % 2 ^ 32)) bs (pure ()) := by
  intro b rest hb
  have hlt := remaining_length_lt b
  rw [hb, List.length_append] at hlt
  rw [Nat.mod_eq_of_lt (by omega), h]
  exact decodes_skip bs b rest hb

theorem decodes_skipFixed (v : BasicValue) :
    Decodes (InputBuffer.skip v.type.sizeof) (outputBytes (writeFixed v)) (pure ()) := by
  have hskip := decodes_skip (littleEndian v.type.sizeof v.bits)
  rw [littleEndian_length] at hskip
  rwa [outputBytes_writeFixed]

theorem decodes_skipBasic (version : Version) (v : BasicValue) (hwf : v.wellFormed = true) :
    Decodes (skipBasic version v.type) (outputBytes (write version v)) (pure ()) := by
  have hlength := decodes_readSize version v.stringLength (stringLength_lt hwf)
  cases v with
  | string units =>
      rw [outputBytes_write_string version rfl]
      exact hlength.bind_pure (decodes_skip units)
  | wstring units =>
      have hsize : units.length * 2 = (stringData (.wstring units)).length := by
        simp [stringData, List.length_flatMap]
      rw [outputBytes_write_string version rfl]
      exact hlength.bind_pure (decodes_skip_mod hsize)
  | _ => exact decodes_skipFixed _

theorem decodes_readBlob (payload : List UInt8) (h : payload.length < 2 ^ 32) :
    Decodes readBlob (outputBytes (writeBlob payload)) (pure payload) := by
  rw [writeBlob, outputBytes_append, outputBytes_writeFixed_uint32 _ h, readBlob]
  refine (decodes_readUnsigned 4 payload.length h).bind_pure fun b rest hb => ?_
  have hpayload : outputBytes [OutputCall.write payload] = payload := by
    simp [outputBytes, OutputCall.bytes]
  rw [hpayload] at hb ⊢
  have htake := take_advance hb
  have hskip := decodes_skip payload b rest hb
  simp only [StateT.run_bind, StateT.run_get, pure_bind] at hskip ⊢
  rw [hskip]
  simp only [pure_bind, StateT.run_pure, htake]

end SimpleBinary

end Bond.Cpp

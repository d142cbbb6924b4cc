import Bond.Cpp.HandedOnce
import Bond.Cpp.StaticSkip

set_option autoImplicit false

/-! # What the static parser hands to a transform

In a payload without tags the handles are the same (cpp/inc/bond/core/value.h, bonded.h). A struct skips
itself by applying `Null`, a base as well; a `bonded` field is a marshaled payload, which is parsed in a
buffer of its own. -/

namespace Bond.Cpp

open Decoder Handle

variable {n : Nat}

/-! ## Serializing -/

/-- `Serializer` for the fields of one level -/
def staticSerializer (write : TypeDef n → Reader (List WriterCall))
    (serializeBase : Fin n → Reader (List WriterCall)) (base : Bool) :
    StaticTransform n (List WriterCall) where
  expectedDepth := 0xffff
  begin_ _ := emit [.writeStructBegin base]
  end_ := emit [.writeStructEnd base]
  base j := do
    let calls ← onInput (serializeBase j)
    emit calls
    return false
  field f := do
    emit [.writeFieldBegin f.type.id f.id]
    let calls ← onInput (write f.type)
    emit calls
    return false

section

variable (S : SchemaDef n) (version : SimpleBinary.Version) (pass : Bool)
  (marshaled : Fin n → Reader (List WriterCall))

/-- `Serializer::Write` of a map key -/
def serializeKey : BondDataType → Reader (List WriterCall)
  | .basic type => do
      let k ← SimpleBinary.read version type
      return [.write k]
  | _ => InputBuffer.bondThrow .undefinedBehavior

mutual

/-- `Serializer::Write` of a serialized value. `marshaled` is what becomes of a marshaled payload, and
    `fuel` bounds the depth of the calls. -/
def serializeStatic : Nat → TypeDef n → Reader (List WriterCall)
  | 0, _ => InputBuffer.bondThrow .undefinedBehavior
  | fuel + 1, type =>
      match type with
      | .basic type => do
          let v ← SimpleBinary.read version type
          return [.write v]
      | .list element | .set element => do
          let size ← SimpleBinary.readSize version
          let items ← repeatN size (serializeStatic fuel element)
          return .writeContainerBegin (UInt32.ofNat size) element.id :: items.flatten
      | .map key element => do
          let size ← SimpleBinary.readSize version
          let items ← repeatN size do
            let k ← serializeKey version key.id
            let v ← serializeStatic fuel element
            return k ++ v
          return .writeContainerBeginPair (UInt32.ofNat size) key.id element.id :: items.flatten
      | .struct i bondedType =>
          if bondedType then do
            let blob ← SimpleBinary.readBlob
            withInput blob (marshaled i)
          else applySerializer fuel false i

/-- `Apply` of the serializer to a struct or a base. A payload that goes to a writer of the same protocol
    and version goes as it is (`FastPassThrough`). -/
def applySerializer : Nat → Bool → Fin n → Reader (List WriterCall)
  | 0, _, _ => InputBuffer.bondThrow .undefinedBehavior
  | fuel + 1, base, i =>
      if pass then do
        let bytes ← skippedBytes do
          let _ ← applyNull S version (fuel + 1) i
          return ()
        return [.writeRange bytes]
      else do
        let transform := staticSerializer (serializeStatic fuel) (applySerializer fuel true) base
        let (_, calls) ← (StaticParser.apply (nullFor S version fuel) transform S i).run []
        return calls

end

end

/-! ## Uses -/

/-- What a transform does with a `value`. -/
inductive StaticValueUse (n : Nat) where
  /-- nothing -/
  | ignore
  /-- `Skip()`, or `Deserialize` to a variable of a type that does not match -/
  | skip
  /-- `Deserialize` to a variable of a type that matches: it has the fields of `keep` -/
  | deserialize (keep : Path n → Bool)
  /-- `Serializer::Write`; with `pass` to a writer of the same protocol and version as the reader -/
  | serialize (pass : Bool)

/-- What a transform does with a `bonded`. -/
inductive StaticBondedUse (n : Nat) where
  /-- nothing -/
  | ignore
  /-- `Skip()` -/
  | skip
  /-- `Deserialize` to a `bonded<U>`, which gets a copy of the reader -/
  | keep
  /-- `Deserialize` to an object that has the fields of `keep` -/
  | deserialize (keep : Path n → Bool)
  /-- `Apply` of a `Serializer`, where `firstPass` is `NeedPass0` -/
  | serialize (pass firstPass : Bool)
  /-- `Apply` of a transform that is handed the fields in the same way -/
  | apply

/-- A transform: what it does with the handle at each place, and with a marshaled payload. -/
structure StaticUses (n : Nat) where
  value : List Nat → StaticValueUse n
  bonded : List Nat → StaticBondedUse n
  marshaled : List Nat → Fin n → Reader (List WriterCall)

section

variable (S : SchemaDef n) (version : SimpleBinary.Version)

/-- A `value` in the hands of a transform -/
def useStaticValue (marshaled : Fin n → Reader (List WriterCall)) (fuel : Nat) (type : TypeDef n) :
    StaticValueUse n → StateT Bool Reader (List Entry)
  | .ignore => leave []
  | .skip => pay do
      skipSchema S version fuel type
      return []
  | .deserialize keep => pay do
      let _ ← deserialize S version keep fuel [] type
      return []
  | .serialize pass => pay do
      let _ ← serializeStatic S version pass marshaled fuel type
      return []

/-- A `bonded` of a struct or a base in the hands of a transform. A copy of the reader leaves the reader
    where it is, and the flag as well. -/
def useStaticBonded (marshaled : Fin n → Reader (List WriterCall)) (fuel : Nat) (base : Bool) (i : Fin n)
    (nested : Reader (List Entry)) : StaticBondedUse n → StateT Bool Reader (List Entry)
  | .ignore | .keep => leave []
  | .skip => pay do
      let _ ← applyNull S version fuel i
      return []
  | .deserialize keep => pay do
      let _ ← applyTo S version keep fuel [] i
      return []
  | .serialize pass firstPass => pay do
      if firstPass then
        -- `DoublePassApply` applies twice to the same `bonded`
        let _ ← applySerializer S version pass marshaled fuel base i
      let _ ← applySerializer S version pass marshaled fuel base i
      return []
  | .apply => pay nested

/-- A `bonded` of a marshaled payload in the hands of a transform. To keep it is to keep the payload; what
    else is done with it, is done in a buffer of its own. -/
def useMarshaled (marshaled : Fin n → Reader (List WriterCall)) (fuel : Nat) (i : Fin n) :
    StaticBondedUse n → StateT Bool Reader (List Entry)
  | .ignore => leave []
  | .skip => pay do
      skipSchema S version fuel (.struct i true)
      return []
  | .keep => pay do
      let _ ← deserialize S version (fun _ => true) fuel [] (.struct i true)
      return []
  | .deserialize _ | .serialize _ _ | .apply => pay do
      let blob ← SimpleBinary.readBlob
      let _ ← withInput blob (marshaled i)
      return []

variable (uses : StaticUses n)

/-- The transform, as the parser sees it -/
def staticHanding (fuel : Nat) (nested : Fin n → List Nat → Reader (List Entry)) (path : List Nat) :
    StaticTransform n (List Entry) where
  expectedDepth := 0xffff
  begin_ _ := return ()
  end_ := return ()
  base j := do
    hand (do let _ ← applyNull S version fuel j) path fun place =>
      useStaticBonded S version (uses.marshaled place) fuel true j (nested j place)
        (uses.bonded place)
    return false
  field f := do
    match f.type with
    | .struct i false =>
        hand (do let _ ← applyNull S version fuel i) path fun place =>
          useStaticBonded S version (uses.marshaled place) fuel false i (nested i place)
            (uses.bonded place)
    | .struct i true =>
        hand (skipSchema S version fuel (.struct i true)) path fun place =>
          useMarshaled S version (uses.marshaled place) fuel i (uses.bonded place)
    | type =>
        hand (skipSchema S version fuel type) path fun place =>
          useStaticValue S version (uses.marshaled place) fuel type (uses.value place)
    return false

/-- `Apply` of the transform to a struct or a base. `fuel` bounds the depth of the calls. -/
def applyStaticHanding : Nat → Fin n → List Nat → Reader (List Entry)
  | 0, _, _ => InputBuffer.bondThrow .undefinedBehavior
  | fuel + 1, i, path => do
      let transform := staticHanding S version uses fuel (applyStaticHanding fuel) path
      let (_, entries) ← (StaticParser.apply (nullFor S version fuel) transform S i).run []
      return entries

end

end Bond.Cpp

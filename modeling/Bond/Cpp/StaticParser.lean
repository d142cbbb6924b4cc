import Bond.Cpp.MarshaledBonded
import Bond.Cpp.SimpleBinary

set_option autoImplicit false

/-! # The static parser

`StaticParser` (cpp/inc/bond/core/parser.h) reads a payload without tags, guided by a runtime schema
alone. A value of the payload is either deserialized or skipped (cpp/inc/bond/core/value.h), and both
have to find its end from the schema. -/

namespace Bond.Cpp

open Decoder InputBuffer

variable {n : Nat}

/-! ## Transforms and the parser -/

/-- A transform as `StaticParser` sees it. A field comes with a value that the transform may read
    from the input; if it does not, the value skips itself when it is destroyed, and both are part
    of the call here. -/
structure StaticTransform (n : Nat) (τ : Type) where
  /-- `expected_depth` -/
  expectedDepth : UInt16
  begin_ : Metadata → ParserM τ Unit
  end_ : ParserM τ Unit
  /-- `Base`, with the base of the schema -/
  base : Fin n → ParserM τ Bool
  field : FieldDef n → ParserM τ Bool

namespace StaticParser

section

variable {τ : Type}

/-- `ReadFields` with a runtime schema -/
def readFields (transform : StaticTransform n τ) : List (FieldDef n) → ParserM τ Bool
  | [] => return false
  | field :: fields => do
      let done ← transform.field field
      if done then return true else readFields transform fields

/-- `SkipFields` reads the fields to the transform `null`. -/
def skipFields (null : StaticTransform n Unit) (fields : List (FieldDef n)) : Reader Unit := do
  let _ ← (readFields null fields).run ()
  return ()

/-- `ParserInheritance::Read`. Levels of the schema beyond those that the transform expects are
    skipped; the number of structs bounds the number of levels. -/
def read (null : StaticTransform n Unit) (transform : StaticTransform n τ) (S : SchemaDef n) :
    Nat → Fin n → ParserM τ Bool
  | 0, _ => onInput (bondThrow .undefinedBehavior)
  | k + 1, i =>
      match S.schemaDepth i, (S.structs i).baseDef with
      | none, _ => onInput (bondThrow .undefinedBehavior)
      | some depth, baseDef =>
          if depth > transform.expectedDepth then
            match baseDef with
            | none => onInput (bondThrow .undefinedBehavior)
            | some baseDef => do
                let done ← read null transform S k baseDef
                onInput (skipFields null (S.structs i).fields)
                return done
          else do
            transform.begin_ (S.structs i).metadata
            let done ←
              match baseDef with
              | none => pure false
              | some baseDef => transform.base baseDef
            let done ←
              if done then pure true
              else readFields transform (S.structs i).fields
            transform.end_
            return done

/-- `StaticParser::Apply`; Simple Binary has nothing to read where a struct begins. -/
def apply (null : StaticTransform n Unit) (transform : StaticTransform n τ) (S : SchemaDef n)
    (i : Fin n) : ParserM τ Bool :=
  read null transform S n i

end

end StaticParser

/-! ## Skipping -/

/-- `Null`, given how a value is skipped and how a base is applied to. -/
def nullStatic (skip : TypeDef n → Reader Unit) (applyNull : Fin n → Reader Bool) :
    StaticTransform n Unit where
  expectedDepth := 0xffff
  begin_ _ := return ()
  end_ := return ()
  base j := onInput (applyNull j)
  field f := do
    onInput (nothrow (skip f.type))
    return false

section

variable (S : SchemaDef n) (version : SimpleBinary.Version)

mutual

/-- `Skip(input, schema)` for a static parser. `fuel` bounds the depth of the calls. -/
def skipSchema : Nat → TypeDef n → Reader Unit
  | 0, _ => bondThrow .undefinedBehavior
  | fuel + 1, type =>
      match type with
      | .basic type => SimpleBinary.skipBasic version type
      | .list element | .set element => do
          -- `SkipContainer`
          let size ← SimpleBinary.readSize version
          let _ ← repeatN size (skipSchema fuel element)
          return ()
      | .map key element => do
          -- `SkipMap`
          let size ← SimpleBinary.readSize version
          let _ ← repeatN size do
            SimpleBinary.skip version key.id
            skipSchema fuel element
          return ()
      | .struct i bondedType =>
          if bondedType then do
            let blob ← SimpleBinary.readBlob
            let _ ← withInput blob (applyNullMarshaled S i)
            return ()
          else do
            let _ ← applyNull fuel i
            return ()

/-- `Apply(Null(), bonded)` -/
def applyNull : Nat → Fin n → Reader Bool
  | 0, _ => bondThrow .undefinedBehavior
  | fuel + 1, i => do
      let null := nullStatic (skipSchema fuel) (applyNull fuel)
      let (done, _) ← (StaticParser.apply null null S i).run ()
      return done

end

/-- `Null` for calls no deeper than `fuel` -/
def nullFor (fuel : Nat) : StaticTransform n Unit :=
  nullStatic (skipSchema S version fuel) (applyNull S version fuel)

theorem applyNull_succ (fuel : Nat) (i : Fin n) :
    applyNull S version (fuel + 1) i = do
      let (done, _) ← (StaticParser.apply (nullFor S version fuel) (nullFor S version fuel) S i).run
        ()
      return done := by
  rw [applyNull]
  rfl

/-! ## Deserializing -/

/-- Where a value is: the fields around it, the innermost first, each with the struct it is in. -/
abbrev Path (n : Nat) := List (Fin n × UInt16)

/-- A transform that reads the fields of `keep` and leaves the others unread, for the struct `i`. It
    builds the fields of the bases and those of the struct itself. -/
def readStatic (keep : Path n → Bool) (path : Path n) (i : Fin n) (skip : TypeDef n → Reader Unit)
    (deserialize : Path n → TypeDef n → Reader Value) (applyTo : Fin n → Reader (List Fields)) :
    StaticTransform n (List Fields × Fields) where
  expectedDepth := 0xffff
  begin_ _ := return ()
  end_ := return ()
  base j := do
    let levels ← onInput (applyTo j)
    modify fun var => (levels, var.2)
    return false
  field f := do
    if keep ((i, f.id) :: path) then do
      let v ← onInput (deserialize ((i, f.id) :: path) f.type)
      modify fun var => (var.1, var.2 ++ [(f.id, v)])
    else
      onInput (nothrow (skip f.type))
    return false

/-- `value<K>::Deserialize` for a map key -/
def deserializeKey : BondDataType → Reader Value
  | .basic type => .basic <$> SimpleBinary.read version type
  | _ => bondThrow .undefinedBehavior

variable (keep : Path n → Bool)

mutual

/-- `Deserialize` into a variable of the type that the schema describes. A `bonded` is kept as its
    marshaled payload. `fuel` bounds the depth of the calls. -/
def deserialize : Nat → Path n → TypeDef n → Reader Value
  | 0, _, _ => bondThrow .undefinedBehavior
  | fuel + 1, path, type =>
      match type with
      | .basic type => .basic <$> SimpleBinary.read version type
      | .list element => do
          let size ← SimpleBinary.readSize version
          let items ← repeatN size (deserialize fuel path element)
          return .list .list element.id items
      | .set element => do
          let size ← SimpleBinary.readSize version
          let items ← repeatN size (deserialize fuel path element)
          return .list .set element.id items
      | .map key element => do
          let size ← SimpleBinary.readSize version
          let items ← repeatN size do
            let k ← deserializeKey version key.id
            let v ← deserialize fuel path element
            return (k, v)
          return .map key.id element.id items
      | .struct i bondedType =>
          if bondedType then do
            let blob ← SimpleBinary.readBlob
            let _ ← withInput blob (nextProtocol builtInProtocols)
            return .bonded blob
          else do
            let levels ← applyTo fuel path i
            return .struct (.ofLevels levels)

/-- `Apply` of the transform that reads the fields of `keep` -/
def applyTo : Nat → Path n → Fin n → Reader (List Fields)
  | 0, _, _ => bondThrow .undefinedBehavior
  | fuel + 1, path, i => do
      let transform := readStatic keep path i (skipSchema S version fuel) (deserialize fuel)
        (applyTo fuel path)
      let (_, levels, own) ← (StaticParser.apply (nullFor S version fuel) transform S i).run ([], [])
      return levels ++ [own]

end

/-- The transform of `applyTo` -/
def readFor (fuel : Nat) (path : Path n) (i : Fin n) : StaticTransform n (List Fields × Fields) :=
  readStatic keep path i (skipSchema S version fuel) (deserialize S version keep fuel)
    (applyTo S version keep fuel path)

theorem applyTo_succ (fuel : Nat) (path : Path n) (i : Fin n) :
    applyTo S version keep (fuel + 1) path i = do
      let (_, levels, own) ← (StaticParser.apply (nullFor S version fuel)
        (readFor S version keep fuel path i) S i).run ([], [])
      return levels ++ [own] := by
  rw [applyTo]
  rfl

end

end Bond.Cpp

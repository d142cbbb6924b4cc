import Bond.Cpp.Schema
import Bond.Java.SimpleBinary

set_option autoImplicit false

/-! # Untagged skipping in Java

`skip` of `SimpleBinaryReader` (java/core/src/main/java/org/bondlib). A payload of Simple Binary
says nothing about its types; they are taken from its schema. -/

namespace Bond.Java

open Bond.Cpp (BasicType TypeDef)
open Bond.Cpp.CompactBinary (Version)
open Decoder
open BinaryStreamReader VarUIntHelper

/-! ## Schemas -/

/-- `FieldDef`, as far as it is needed to read an untagged payload -/
structure FieldDef (n : Nat) where
  id : UInt16
  type : TypeDef n
deriving DecidableEq, Repr

/-- `StructDef`, likewise -/
structure StructDef (n : Nat) where
  baseDef : Option (TypeDef n)
  fields : List (FieldDef n)
deriving DecidableEq, Repr

/-- `SchemaDef`, whose table has a struct for each `struct_def` -/
structure SchemaDef (n : Nat) where
  structs : Fin n → StructDef n
  root : TypeDef n

/-- What a struct is made of, in the order of the payload. -/
def StructDef.types {n : Nat} (structDef : StructDef n) : List (TypeDef n) :=
  structDef.baseDef.toList ++ structDef.fields.map FieldDef.type

/-! ## `skip` -/

namespace SimpleBinary

section

variable (protocolVersion : Version)

def skipString : Reader Unit := do
  let codeUnitCount ← readLength protocolVersion
  skipBytes codeUnitCount.toInt

/-- `skipWString`: the count is doubled as an `int`. -/
def skipWString : Reader Unit := do
  let codeUnitCount ← readLength protocolVersion
  skipBytes (codeUnitCount * 2).toInt

/-- `skipInt8`, …, `skipWString` -/
def skipBasic : BasicType → Reader Unit
  | .bool | .uint8 | .int8 => skipBytes 1
  | .uint16 | .int16 => skipBytes 2
  | .uint32 | .int32 | .float => skipBytes 4
  | .uint64 | .int64 | .double => skipBytes 8
  | .string => skipString protocolVersion
  | .wstring => skipWString protocolVersion

/-- `skip` of a `bonded`, which goes by its length -/
def skipBonded : Reader Unit := do
  let count ← readLength protocolVersion
  skipBytes count.toInt

variable {n : Nat}

/-- `skip` of a list or a set, given `skip` -/
def skipList (skip : TypeDef n → Reader Unit) (element : TypeDef n) : Reader Unit := do
  let numElems ← readLength protocolVersion
  let _ ← repeatN (turns numElems) (skip element)
  return ()

/-- `skip` of a map, given `skip` -/
def skipMap (skip : TypeDef n → Reader Unit) (key element : TypeDef n) : Reader Unit := do
  let numElems ← readLength protocolVersion
  let _ ← repeatN (turns numElems) do
    skip key
    skip element
  return ()

/-- `skip` of a struct, given `skip`: its base, then its fields -/
def skipStruct (skip : TypeDef n → Reader Unit) (structDef : StructDef n) : Reader Unit := do
  match structDef.baseDef with
  | some baseDef => skip baseDef
  | none => pure ()
  structDef.fields.forM fun field => skip field.type

/-- `skip`, where `fuel` bounds the depth -/
def skip (schemaDef : SchemaDef n) : Nat → TypeDef n → Reader Unit
  | 0, _ => throwException .endOfFile
  | fuel + 1, type =>
      match type with
      | .basic type => skipBasic protocolVersion type
      | .struct structDef bondedType =>
          if bondedType then
            skipBonded protocolVersion
          else
            skipStruct (skip schemaDef fuel) (schemaDef.structs structDef)
      | .list element | .set element => skipList protocolVersion (skip schemaDef fuel) element
      | .map key element => skipMap protocolVersion (skip schemaDef fuel) key element

end

/-! ## Types without bytes -/

section

variable {n : Nat} (schemaDef : SchemaDef n)

/-- A struct that has nothing but such structs in it. -/
def isHollow : Nat → TypeDef n → Bool
  | 0, _ => false
  | fuel + 1, .struct structDef bondedType =>
      !bondedType && (schemaDef.structs structDef).types.all (isHollow fuel)
  | _ + 1, _ => false

end

end SimpleBinary

end Bond.Java

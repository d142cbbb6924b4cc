import Bond.Cpp.PromotedElements
import Bond.Java.ElementTypes

set_option autoImplicit false

/-! # Promoted elements in C++ and in Java

What the two runtimes make of a payload in which the elements of a container have a type that is
promoted to the one that is expected. -/

namespace Bond.Java

open Bond.Cpp (CppSchema CppType CppValue ListKind SchemaDef SchemaTime Site TaggedProtocol)
open Bond.Lib Bond.Managed
open Decoder Hereditary
open StringHelper

namespace Protocol

/-- The protocol in C++ -/
def cpp : Protocol → TaggedProtocol
  | .compactBinary version => Bond.Cpp.compactBinary version
  | .fastBinary => Bond.Cpp.fastBinary

end Protocol

end Bond.Java

import Bond.Cpp.DeserializeExact

set_option autoImplicit false

/-! # Promoted elements in C++

What a variable gets from a container whose elements, or keys, have another type than those of the
variable's type but one that matches: a container of the promoted values. -/

namespace Bond.Cpp

open Decoder Hereditary

variable {n m : Nat}

section

variable (debug : Bool) (S : SchemaDef n) (C : CppSchema m) (time : SchemaTime)

end

variable {debug : Bool} {S : SchemaDef n} {C : CppSchema m} {time : SchemaTime}

section

variable {T X : BasicType}

end

end Bond.Cpp

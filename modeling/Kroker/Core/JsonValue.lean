import Kroker.Library.Members

/-!
# JSON values

What `json.loads` returns: a dictionary keeps its members in their order, and a number is what the
reader makes of it.
-/

namespace Kroker

inductive JsonValue (N : Type) where
  | null
  | bool (b : Bool)
  | number (n : N)
  | text (s : String)
  | list (items : List (JsonValue N))
  | object (members : List (String × JsonValue N))

namespace JsonValue

variable {N : Type}

/-- The name of the type; `numberType` names that of a number. -/
def typeName (numberType : N → String) : JsonValue N → String
  | .null => "NoneType"
  | .bool _ => "bool"
  | .number n => numberType n
  | .text _ => "str"
  | .list _ => "list"
  | .object _ => "dict"

def members? : JsonValue N → Option (List (String × JsonValue N))
  | .object members => some members
  | _ => none

theorem members?_eq_some_iff {v : JsonValue N} {members : List (String × JsonValue N)} :
    v.members? = some members ↔ v = .object members := by
  cases v <;> simp [members?]

end JsonValue

end Kroker

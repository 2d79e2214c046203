/-!
# JSON values

Members of an object keep their order and may repeat a key. Of a number that is no integer only
that much is known.
-/
namespace Stabs

inductive Json where
  | null
  | bool (b : Bool)
  | int (n : Int)
  | fraction
  | string (s : String)
  | array (elements : List Json)
  | object (members : List (String × Json))
deriving Repr, Inhabited

namespace Json

def nat (n : Nat) : Json := .int n

/-- A value that may be missing, written as `null` then. -/
def nullable {α : Type} (write : α → Json) : Option α → Json
  | some a => write a
  | none => .null

end Json

end Stabs

import Stabs.Json.Value

/-!
# Shapes of JSON values

How values of the domain are found in JSON. Members are looked up by key, wherever they stand and
whatever unknown members stand between them; a known key must not repeat. A value of the wrong
shape gives `none`. Variants are told apart by a member that holds their name.
-/
namespace Stabs.Json

def asNull? : Json → Option Unit
  | .null => some ()
  | _ => none

def asText? : Json → Option String
  | .string s => some s
  | _ => none

def asBool? : Json → Option Bool
  | .bool b => some b
  | _ => none

def asInt64? : Json → Option Int64
  | .int n => if Int64.minValue.toInt ≤ n ∧ n ≤ Int64.maxValue.toInt then some (.ofInt n) else none
  | _ => none

def asUInt64? : Json → Option UInt64
  | .int n => if 0 ≤ n ∧ n < UInt64.size then some (.ofNat n.toNat) else none
  | _ => none

def asUInt32? : Json → Option UInt32
  | .int n => if 0 ≤ n ∧ n < UInt32.size then some (.ofNat n.toNat) else none
  | _ => none

/-- A value that may be `null`. -/
def asNullable? {α : Type} (read : Json → Option α) : Json → Option (Option α)
  | .null => some none
  | v => (read v).map some

def asList? {α : Type} (read : Json → Option α) : Json → Option (List α)
  | .array vs => vs.mapM read
  | _ => none

/-- All values under a key. -/
def valuesAt {β : Type} (members : List (String × β)) (key : String) : List β :=
  members.filterMap fun (k, v) => if k = key then some v else none

/-- The members that are not under a key. -/
def without {β : Type} (members : List (String × β)) (key : String) : List (String × β) :=
  members.filter fun (k, _) => k ≠ key

/-- A member that has to be there. -/
def required {α β : Type} (members : List (String × β)) (key : String)
    (read : β → Option α) : Option α :=
  match valuesAt members key with
  | [v] => read v
  | _ => none

/-- A member that has a default value when it is left out. -/
def withDefault {α β : Type} (members : List (String × β)) (key : String) (absent : α)
    (read : β → Option α) : Option α :=
  match valuesAt members key with
  | [] => some absent
  | [v] => read v
  | _ => none

/-- A member that may be `null` or left out. -/
def nullableMember {α : Type} (members : List (String × Json)) (key : String)
    (read : Json → Option α) : Option (Option α) :=
  withDefault members key none (asNullable? read)

/-- The name of a variant, or its place in the list of all names. -/
def asVariant? (names : List String) : Json → Option String
  | .string s => if names.contains s then some s else none
  | .int n => if 0 ≤ n then names[n.toNat]? else none
  | _ => none

/-- A variant with its content: either the other members, or the elements after the first. -/
def variant? (names : List String) (key : String) : Json → Option (String × Json)
  | .object members => do
    let name ← required members key (asVariant? names)
    return (name, .object (without members key))
  | .array (v :: rest) => do
    let name ← asVariant? names v
    return (name, .array rest)
  | _ => none

end Stabs.Json

import Stabs.Json.Value

/-!
# Readings of JSON texts

A text that goes wrong somewhere may still be fine up to there, and what is wrong with it depends
on what becomes of its values. A value is either taken, or passed over because nobody asks for it.
A reading is the tree that a text spells up to its first fault, with what comes of both ways. The
fault that counts is always the first one in the order of the text.
-/
namespace Stabs.Json

/-- A text ends too early, or it goes wrong. -/
inductive ReadFault where
  | unfinished
  | malformed
deriving DecidableEq, Repr

/-- What comes of a value without parts: of taking it, and of passing it over. -/
structure Leaf (α : Type) where
  taken : Except ReadFault α
  passed : Except ReadFault Unit
deriving Repr

namespace Leaf

variable {α : Type}

/-- A value that can be taken. -/
def whole (a : α) : Leaf α := ⟨.ok a, .ok ()⟩

/-- A value that is written properly, yet none that can be taken. -/
def untakable : Leaf α := ⟨.error .malformed, .ok ()⟩

/-- A value that goes wrong, whatever becomes of it. -/
def broken (fault : ReadFault) : Leaf α := ⟨.error fault, .error fault⟩

end Leaf

/-- What a text spells where a value should stand. `missing` says that no value starts there. The
closing of an array or an object goes wrong where neither a comma nor the bracket follows. -/
inductive Reading where
  | missing (fault : ReadFault)
  | plain (leaf : Leaf Json)
  | text (leaf : Leaf String)
  | array (elements : List Reading) (closing : Except ReadFault Unit)
  | object (members : List (Reading × Reading)) (closing : Except ReadFault Unit)
deriving Repr, Inhabited

namespace Reading

/-- The key of a member has to be a text. -/
def key : Reading → Except ReadFault String
  | text leaf => leaf.taken
  | missing fault => .error fault
  | _ => .error .malformed

def passKey : Reading → Except ReadFault Unit
  | text leaf => leaf.passed
  | missing fault => .error fault
  | _ => .error .malformed

mutual

/-- Takes a value, with containers nested at most `depth` deep. -/
def take : Nat → Reading → Except ReadFault Json
  | _, missing fault => .error fault
  | _, plain leaf => leaf.taken
  | _, text leaf => leaf.taken.map .string
  | 0, array _ _ => .error .malformed
  | 0, object _ _ => .error .malformed
  | depth + 1, array elements closing => do
    let vs ← takeAll depth elements
    closing
    return .array vs
  | depth + 1, object members closing => do
    let ms ← takeMembers depth members
    closing
    return .object ms

def takeAll : Nat → List Reading → Except ReadFault (List Json)
  | _, [] => .ok []
  | depth, r :: rest => do
    let v ← take depth r
    let vs ← takeAll depth rest
    return v :: vs

def takeMembers : Nat → List (Reading × Reading) → Except ReadFault (List (String × Json))
  | _, [] => .ok []
  | depth, (k, r) :: rest => do
    let k ← k.key
    let v ← take depth r
    let ms ← takeMembers depth rest
    return (k, v) :: ms

end

mutual

/-- Passes over a value, however deep its containers are nested. -/
def pass : Reading → Except ReadFault Unit
  | missing fault => .error fault
  | plain leaf => leaf.passed
  | text leaf => leaf.passed
  | array elements closing => do
    passAll elements
    closing
  | object members closing => do
    passMembers members
    closing

def passAll : List Reading → Except ReadFault Unit
  | [] => .ok ()
  | r :: rest => do
    pass r
    passAll rest

def passMembers : List (Reading × Reading) → Except ReadFault Unit
  | [] => .ok ()
  | (k, r) :: rest => do
    k.passKey
    pass r
    passMembers rest

end

end Reading

end Stabs.Json

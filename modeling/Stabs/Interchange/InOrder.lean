import Stabs.Interchange.Shape
import Stabs.Json.Reader
import Stabs.Types.Table

/-!
# Reading in the order of the text

The parts of a unit are looked at as they come. So the first fault counts, whether it is one of the
text or a value of the wrong shape, and a value that nobody asks for is only passed over. Below
the items of a unit and the categories of its types a value is taken in full before it is looked
at.
-/
namespace Stabs

open Json

/-- Why a text is no unit: it is no JSON, it has the wrong shape, or its type table is none. -/
inductive UnitError where
  | text (fault : ReadFault)
  | shape
  | typeTable (cause : TypeTableError)
deriving DecidableEq, Repr

/-- Reads a value whose containers are nested at most so many deep. -/
abbrev InOrder (α : Type) := Nat → Reading → Except UnitError α

namespace InOrder

variable {α σ : Type}

def orText : Except ReadFault α → Except UnitError α := Except.mapError .text

def orShape : Option α → Except UnitError α
  | some a => .ok a
  | none => .error .shape

/-- The value in full. -/
def content : InOrder Json := fun depth r => orText (r.take depth)

/-- A value that nobody asks for. -/
def ignored : InOrder Unit := fun _ r => orText r.pass

/-- A value that is taken in full and looked at then. -/
def whole (read : Json → Option α) : InOrder α := fun depth r => do
  orShape (read (← content depth r))

/-- A value without parts; a container is refused at its opening bracket. -/
def scalar (read : Json → Option α) : InOrder α
  | _, .array _ _ => .error .shape
  | _, .object _ _ => .error .shape
  | depth, r => whole read depth r

/-- No value of the shape that is wanted here. -/
def refused : InOrder α := scalar fun _ => none

/-- A value that may be `null`. -/
def nullable (read : InOrder α) : InOrder (Option α)
  | depth, .plain leaf =>
    match leaf.taken with
    | .ok .null => .ok none
    | _ => (read depth (.plain leaf)).map some
  | depth, r => (read depth r).map some

def list (read : InOrder α) : InOrder (List α)
  | depth, .array elements closing => do
    let as ← elements.mapM (read (depth - 1))
    orText closing
    return as
  | depth, r => refused depth r

/-- How a record is read: a draft takes one field after the other, and is finished behind the last
one. -/
structure Fields (σ α : Type) where
  start : σ
  add : Nat → σ → String → Reading → Except UnitError σ
  finish : σ → Except UnitError α

/-- Fills a place of a draft, which must still be free. -/
def fill (place : Option α) (read : InOrder α) (depth : Nat) (r : Reading) :
    Except UnitError (Option α) :=
  match place with
  | some _ => .error .shape
  | none => (read depth r).map some

def addMembers (add : σ → String → Reading → Except UnitError σ) :
    σ → List (Reading × Reading) → Except UnitError σ
  | draft, [] => .ok draft
  | draft, (key, r) :: rest => do
    let key ← orText key.key
    addMembers add (← add draft key r) rest

/-- Elements stand for fields in order. One too many is a fault of the text. -/
def addElements (add : σ → String → Reading → Except UnitError σ) :
    σ → List String → List Reading → Except UnitError σ
  | draft, key :: keys, r :: rest => do addElements add (← add draft key r) keys rest
  | _, [], _ :: _ => .error (.text .malformed)
  | draft, _, [] => .ok draft

/-- A record that has to be an object. -/
def object (fields : Fields σ α) : InOrder α
  | depth, .object members closing => do
    let draft ← addMembers (fields.add (depth - 1)) fields.start members
    orText closing
    fields.finish draft
  | depth, r => refused depth r

/-- A record that may also be an array of its fields, in the order of their keys. -/
def record (keys : List String) (fields : Fields σ α) : InOrder α
  | depth, .array elements closing => do
    let draft ← addElements (fields.add (depth - 1)) fields.start keys elements
    orText closing
    fields.finish draft
  | depth, r => object fields depth r

/-- How deep containers may be nested. -/
def depthLimit : Nat := 127

/-- Reads a text with nothing but white space behind its value. -/
def parse (read : InOrder α) (text : String) : Except UnitError α := do
  let document := Document.ofText text
  let a ← read depthLimit document.value
  orText document.ending
  return a

end InOrder

end Stabs

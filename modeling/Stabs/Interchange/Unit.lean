import Stabs.Interchange.Program
import Stabs.Json.Writer

/-!
# The JSON form of units

A unit is an object, or an array of its fields in order. Members that a unit does not know are
passed over, whatever their value.
-/
namespace Stabs

open Json

namespace CompilationUnit

def toJson (u : CompilationUnit) : Json :=
  .object [
    ("source_file", .string u.sourceFile),
    ("types", u.types.toJson),
    ("tags", .array (u.tags.map Tag.toJson)),
    ("items", .array (u.items.map Item.toJson))]

/-- The members of a unit that have been met so far. -/
structure Draft where
  sourceFile : Option String := none
  types : Option TypeTable := none
  tags : Option (List Tag) := none
  items : Option (List Item) := none

def Draft.add (depth : Nat) (draft : Draft) (key : String) (r : Reading) :
    Except UnitError Draft :=
  match key with
  | "source_file" => do
    let sourceFile ← InOrder.fill draft.sourceFile (InOrder.scalar asText?) depth r
    return { draft with sourceFile }
  | "types" => do
    let types ← InOrder.fill draft.types TypeTable.inOrder depth r
    return { draft with types }
  | "tags" => do
    let tags ← InOrder.fill draft.tags (InOrder.list Tag.inOrder) depth r
    return { draft with tags }
  | "items" => do
    let items ← InOrder.fill draft.items (InOrder.list Item.inOrder) depth r
    return { draft with items }
  | _ => do
    InOrder.ignored depth r
    return draft

def Draft.finish (draft : Draft) : Except UnitError CompilationUnit := do
  let sourceFile ← InOrder.orShape draft.sourceFile
  let types ← InOrder.orShape draft.types
  return { sourceFile, types, tags := draft.tags.getD [], items := draft.items.getD [] }

def inOrder : InOrder CompilationUnit :=
  InOrder.record ["source_file", "types", "tags", "items"] ⟨{}, Draft.add, Draft.finish⟩

/-- Reads a unit from its text. -/
def parse (text : String) : Except UnitError CompilationUnit := InOrder.parse inOrder text

/-- The text of a unit, every field written. -/
def render (u : CompilationUnit) : String := u.toJson.pretty

end CompilationUnit

end Stabs

import Stabs.Interchange.InOrder

/-!
# The JSON form of types

A node is an object with its category under `kind`, the fields of the category, a name or `null`,
and a size or `null`. Members, enumerators and names may also be written as arrays of their
fields in order.
-/
namespace Stabs

open Json

def TypeId.ofJson? (v : Json) : Option TypeId := v.asUInt32?.map TypeId.mk

def TypeId.toJson (ty : TypeId) : Json := .nat ty.toNat

def Field.toJson (field : Field) : Json :=
  .object [
    ("name", .nullable .string field.name),
    ("ty", field.ty.toJson),
    ("bit_offset", .nat field.bitOffset.toNat),
    ("bit_size", .nat field.bitSize.toNat)]

def Field.ofJson? : Json → Option Field
  | .object members => do
    let name ← nullableMember members "name" asText?
    let ty ← required members "ty" TypeId.ofJson?
    let bitOffset ← required members "bit_offset" asUInt64?
    let bitSize ← required members "bit_size" asUInt64?
    return { name, ty, bitOffset, bitSize }
  | .array [name, ty, bitOffset, bitSize] => do
    let name ← asNullable? asText? name
    let ty ← TypeId.ofJson? ty
    let bitOffset ← bitOffset.asUInt64?
    let bitSize ← bitSize.asUInt64?
    return { name, ty, bitOffset, bitSize }
  | _ => none

def Enumerator.toJson (enumerator : Enumerator) : Json :=
  .object [("name", .string enumerator.name), ("value", .int enumerator.value.toInt)]

def Enumerator.ofJson? : Json → Option Enumerator
  | .object members => do
    let name ← required members "name" asText?
    let value ← required members "value" asInt64?
    return { name, value }
  | .array [name, value] => do
    let name ← name.asText?
    let value ← value.asInt64?
    return { name, value }
  | _ => none

def TypeName.toJson : TypeName → Json
  | .tag name => .object [("by", .string "tag"), ("name", .string name)]
  | .typedef name => .object [("by", .string "typedef"), ("name", .string name)]

/-- The way of naming that a word stands for. -/
def TypeName.ofWord? (word : String) : Option (String → TypeName) :=
  if word = "tag" then some .tag
  else if word = "typedef" then some .typedef
  else none

namespace TypeName

/-- The way of naming is a word, or an object with `null` under the word. Anything else is a fault
of the text. -/
def kindInOrder : InOrder (String → TypeName)
  | _, .missing fault => .error (.text fault)
  | depth, .text leaf => InOrder.scalar (fun v => v.asText?.bind ofWord?) depth (.text leaf)
  | depth, .object ((key, r) :: rest) closing => do
    let kind ← InOrder.scalar (fun v => v.asText?.bind ofWord?) depth key
    InOrder.scalar asNull? depth r
    if rest.isEmpty then InOrder.orText closing else throw (.text .malformed)
    return kind
  | _, _ => .error (.text .malformed)

/-- The members of a name that have been met so far. A value that comes before the way of naming is
kept as it is. -/
inductive Draft where
  | empty
  | kind (named : String → TypeName)
  | content (v : Json)
  | full (name : TypeName)

def Draft.add (depth : Nat) : Draft → String → Reading → Except UnitError Draft
  | .empty, "by", r => return .kind (← kindInOrder depth r)
  | .empty, "name", r => return .content (← InOrder.content depth r)
  | .kind named, "name", r => return .full (named (← InOrder.scalar asText? depth r))
  | .content v, "by", r => do
    let named ← kindInOrder depth r
    return .full (named (← InOrder.orShape v.asText?))
  | _, "by", _ => .error .shape
  | _, "name", _ => .error .shape
  | draft, _, r => do
    InOrder.ignored depth r
    return draft

def Draft.finish : Draft → Except UnitError TypeName
  | .full name => .ok name
  | _ => .error .shape

def inOrder : InOrder TypeName := InOrder.record ["by", "name"] ⟨.empty, Draft.add, Draft.finish⟩

end TypeName

def TypeKind.names : List String :=
  ["void", "integer", "real", "array", "record", "union", "enum", "pointer", "function"]

/-- The category and its fields, as members of the object of the node. -/
def TypeKind.toMembers (kind : TypeKind) : List (String × Json) :=
  ("kind", .string kind.category) ::
    match kind with
    | .void => []
    | .integer min max => [("min", .int min.toInt), ("max", .int max.toInt)]
    | .real => []
    | .array element length => [("element", element.toJson), ("length", .nat length.toNat)]
    | .record fields => [("fields", .array (fields.map Field.toJson))]
    | .union fields => [("fields", .array (fields.map Field.toJson))]
    | .enumeration values => [("values", .array (values.map Enumerator.toJson))]
    | .pointer target => [("target", target.toJson)]
    | .function returns => [("returns", .nullable TypeId.toJson returns)]

def TypeKind.ofMembers? (members : List (String × Json)) : Option TypeKind := do
  let kind ← required members "kind" (asVariant? names)
  match kind with
  | "void" => return .void
  | "integer" => do
    let min ← required members "min" asInt64?
    let max ← required members "max" asInt64?
    return .integer min max
  | "real" => return .real
  | "array" => do
    let element ← required members "element" TypeId.ofJson?
    let length ← required members "length" asUInt64?
    return .array element length
  | "record" => return .record (← required members "fields" (asList? Field.ofJson?))
  | "union" => return .union (← required members "fields" (asList? Field.ofJson?))
  | "enum" => return .enumeration (← required members "values" (asList? Enumerator.ofJson?))
  | "pointer" => return .pointer (← required members "target" TypeId.ofJson?)
  | "function" => return .function (← nullableMember members "returns" TypeId.ofJson?)
  | _ => none

def TypeNode.toJson (node : TypeNode) : Json :=
  .object (node.kind.toMembers ++ [
    ("name", .nullable TypeName.toJson node.name),
    ("size", .nullable (fun size : UInt64 => .nat size.toNat) node.size)])

/-- The members of a node that have been met so far; those of the category come in reverse. -/
structure TypeNode.Draft where
  name : Option (Option TypeName) := none
  size : Option (Option UInt64) := none
  category : List (String × Json) := []

def TypeNode.Draft.add (depth : Nat) (draft : Draft) (key : String) (r : Reading) :
    Except UnitError Draft :=
  match key with
  | "name" => do
    let name ← InOrder.fill draft.name (InOrder.nullable TypeName.inOrder) depth r
    return { draft with name }
  | "size" => do
    let size ← InOrder.fill draft.size (InOrder.nullable (InOrder.scalar asUInt64?)) depth r
    return { draft with size }
  | key => do
    let v ← InOrder.content depth r
    return { draft with category := (key, v) :: draft.category }

def TypeNode.Draft.finish (draft : Draft) : Except UnitError TypeNode := do
  let kind ← InOrder.orShape (TypeKind.ofMembers? draft.category.reverse)
  return { kind, name := draft.name.join, size := draft.size.join }

def TypeNode.inOrder : InOrder TypeNode := InOrder.object ⟨{}, Draft.add, Draft.finish⟩

namespace TypeTable

def toJson (types : TypeTable) : Json := .array (types.nodes.toList.map TypeNode.toJson)

/-- The nodes of a table are checked together, behind the last one. -/
def inOrder : InOrder TypeTable := fun depth r => do
  let nodes ← InOrder.list TypeNode.inOrder depth r
  (ofNodes nodes.toArray).mapError .typeTable

def parse (text : String) : Except UnitError TypeTable := InOrder.parse inOrder text

end TypeTable

end Stabs

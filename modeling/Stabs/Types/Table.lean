import Stabs.Types.Node

/-!
# Type tables

A type table owns every type of a compilation unit. Its first three entries are the built-in
`int`, `char` and `void`, each under its typedef name, and no operation can take them away.
-/
namespace Stabs

/-- Why a list of nodes is no type table, or an update of a table was refused. -/
inductive TypeTableError where
  | tooShort (length : Nat)
  | wrongBuiltins
  | unnamedBuiltin (ty : TypeId)
  | notAggregate (ty : TypeId) (category : String)
  | notEnumeration (ty : TypeId) (category : String)
  | alreadyTagged (ty : TypeId) (tag typedefName : String)
  | unknownType (ty : TypeId)
deriving DecidableEq, Repr

namespace TypeTableError

def message : TypeTableError → String
  | tooShort length => "Invalid type definition: type table has " ++ length.repr ++
      " entries, expected the int, char and void built-ins first"
  | wrongBuiltins => "Invalid type definition: type table must start with int, char and void"
  | unnamedBuiltin ty => "Invalid type definition: built-in type " ++ ty.label ++
      " must carry its typedef name"
  | notAggregate ty category => "Invalid type definition: cannot complete " ++ category ++
      " type " ++ ty.label ++ " with fields"
  | notEnumeration ty category => "Invalid type definition: cannot complete " ++ category ++
      " type " ++ ty.label ++ " with enumerators"
  | alreadyTagged ty tag name => "Invalid type definition: type " ++ ty.label ++
      " is tagged '" ++ tag ++ "'; declare typedef '" ++ name ++ "' separately"
  | unknownType ty => "Unknown type " ++ ty.label

end TypeTableError

def TypeId.int : TypeId := ⟨0⟩

def TypeId.char : TypeId := ⟨1⟩

def TypeId.void : TypeId := ⟨2⟩

namespace TypeNode

def isInteger (node : TypeNode) : Bool := node.kind matches .integer _ _

def isVoid (node : TypeNode) : Bool := node.kind matches .void

end TypeNode

/-- What the node at a place of the table must be: the first two are integers and the third is
void, each under a typedef name. -/
def TypeNode.fits (node : TypeNode) : Nat → Bool
  | 0 | 1 => node.isInteger && node.typedefName?.isSome
  | 2 => node.isVoid && node.typedefName?.isSome
  | _ => true

/-- The first three nodes stand for `int`, `char` and `void`. -/
structure HasBuiltins (nodes : Array TypeNode) : Prop where
  three : 3 ≤ nodes.size
  fits : ∀ (i : Nat) (h : i < nodes.size), nodes[i].fits i

structure TypeTable where
  nodes : Array TypeNode
  builtins : HasBuiltins nodes
deriving DecidableEq

namespace TypeTable

/-- Takes nodes as a table. Length, categories and names of the built-ins are checked in this
order. -/
def ofNodes (nodes : Array TypeNode) : Except TypeTableError TypeTable :=
  if three : 3 ≤ nodes.size then
    if kinds : nodes[0].isInteger ∧ nodes[1].isInteger ∧ nodes[2].isVoid then
      if int : nodes[0].typedefName?.isSome then
        if char : nodes[1].typedefName?.isSome then
          if void : nodes[2].typedefName?.isSome then
            .ok ⟨nodes, three, by
              rintro (_ | _ | _ | i) h <;> simp_all [TypeNode.fits]⟩
          else .error (.unnamedBuiltin .void)
        else .error (.unnamedBuiltin .char)
      else .error (.unnamedBuiltin .int)
    else .error .wrongBuiltins
  else .error (.tooShort nodes.size)

/-- The nodes of a table pass the check for the built-in types. -/
theorem ofNodes_nodes (table : TypeTable) : ofNodes table.nodes = .ok table := by
  have three := table.builtins.three
  have int := table.builtins.fits 0 (by omega)
  have char := table.builtins.fits 1 (by omega)
  have void := table.builtins.fits 2 (by omega)
  simp only [TypeNode.fits, Bool.and_eq_true] at int char void
  rw [ofNodes, dif_pos three, dif_pos ⟨int.1, char.1, void.1⟩, dif_pos int.2, dif_pos char.2,
    dif_pos void.2]

/-- A node under a typedef name. -/
def typedefNode (name : String) (kind : TypeKind) (size : Option UInt64) : TypeNode :=
  { kind, name := some (.typedef name), size }

/-- A fresh table: a 32-bit `int`, a signed 8-bit `char` and `void`. -/
def builtin : TypeTable where
  nodes := #[
    typedefNode "int" (.integer (-2147483648) 2147483647) (some 4),
    typedefNode "char" (.integer (-128) 127) (some 1),
    typedefNode "void" .void none]
  builtins := ⟨by decide, by decide⟩

instance : Inhabited TypeTable := ⟨builtin⟩

def size (table : TypeTable) : Nat := table.nodes.size

def get? (table : TypeTable) (ty : TypeId) : Option TypeNode := table.nodes[ty.toNat]?

/-- All ids with their nodes, in the order of creation. -/
def entries (table : TypeTable) : List (TypeId × TypeNode) :=
  table.nodes.toList.zipIdx.map fun (node, i) => (.ofNat i, node)

theorem builtins_push {nodes : Array TypeNode} (h : HasBuiltins nodes) (node : TypeNode) :
    HasBuiltins (nodes.push node) where
  three := by have := h.three; rw [Array.size_push]; omega
  fits i hi := by
    rw [Array.getElem_push]
    split
    · next old => exact h.fits i old
    · next new =>
      obtain ⟨k, rfl⟩ : ∃ k, i = k + 3 := ⟨i - 3, by have := h.three; omega⟩
      rfl

/-- Adds a node at the end and gives its id. -/
def add (table : TypeTable) (node : TypeNode) : TypeId × TypeTable :=
  (.ofNat table.size, ⟨table.nodes.push node, builtins_push table.builtins node⟩)

def integer (table : TypeTable) (name : String) (min max : Int64) (size : UInt64) :
    TypeId × TypeTable :=
  table.add (typedefNode name (.integer min max) (some size))

def real (table : TypeTable) (name : String) (size : UInt64) : TypeId × TypeTable :=
  table.add (typedefNode name .real (some size))

def pointerTo (table : TypeTable) (target : TypeId) : TypeId × TypeTable :=
  table.add { kind := .pointer target, size := some 4 }

/-- The size of `length` elements; it stays at the largest number where it would pass it. -/
def arraySize (element length : UInt64) : UInt64 :=
  (min (element.toNat * length.toNat) (UInt64.size - 1)).toUInt64

/-- An array is as complete as its element. -/
def arrayOf (table : TypeTable) (element : TypeId) (length : UInt64) : TypeId × TypeTable :=
  table.add
    { kind := .array element length
      size := ((table.get? element).bind (·.size)).map (arraySize · length) }

def functionReturning (table : TypeTable) (returns : Option TypeId) : TypeId × TypeTable :=
  table.add { kind := .function returns }

def record (table : TypeTable) (tag : Option String) (fields : List Field) (size : UInt64) :
    TypeId × TypeTable :=
  table.add { kind := .record fields, name := tag.map .tag, size := some size }

def union (table : TypeTable) (tag : Option String) (fields : List Field) (size : UInt64) :
    TypeId × TypeTable :=
  table.add { kind := .union fields, name := tag.map .tag, size := some size }

def enumeration (table : TypeTable) (tag : Option String) (values : List Enumerator) :
    TypeId × TypeTable :=
  table.add { kind := .enumeration values, name := tag.map .tag, size := some 4 }

/-- An incomplete record, known by its tag; `complete` may supply its layout later. -/
def declareRecord (table : TypeTable) (tag : String) : TypeId × TypeTable :=
  table.add { kind := .record [], name := some (.tag tag) }

def declareUnion (table : TypeTable) (tag : String) : TypeId × TypeTable :=
  table.add { kind := .union [], name := some (.tag tag) }

def declareEnumeration (table : TypeTable) (tag : String) : TypeId × TypeTable :=
  table.add { kind := .enumeration [], name := some (.tag tag) }

/-- A node may take the place of another when it fits wherever the old one did. -/
def Replaces (old new : TypeNode) : Prop := ∀ i, old.fits i → new.fits i

theorem builtins_set {nodes : Array TypeNode} (h : HasBuiltins nodes) {i : Nat}
    (hi : i < nodes.size) {node : TypeNode} (hr : Replaces nodes[i] node) :
    HasBuiltins (nodes.set i node) where
  three := by rw [Array.size_set]; exact h.three
  fits j hj := by
    rw [Array.size_set] at hj
    rw [Array.getElem_set]
    split
    · next e => subst e; exact hr i (h.fits i hi)
    · exact h.fits j hj

/-- A node that is neither an integer nor void is no built-in. -/
theorem replaces_of_not_builtin {old new : TypeNode} (int : old.isInteger = false)
    (void : old.isVoid = false) : Replaces old new := by
  rintro (_ | _ | _ | i) <;> simp [TypeNode.fits, int, void]

theorem replaces_of_record {old new : TypeNode} {fields : List Field}
    (h : old.kind = .record fields) : Replaces old new :=
  replaces_of_not_builtin (by rw [TypeNode.isInteger, h]) (by rw [TypeNode.isVoid, h])

theorem replaces_of_union {old new : TypeNode} {fields : List Field}
    (h : old.kind = .union fields) : Replaces old new :=
  replaces_of_not_builtin (by rw [TypeNode.isInteger, h]) (by rw [TypeNode.isVoid, h])

theorem replaces_of_enumeration {old new : TypeNode} {values : List Enumerator}
    (h : old.kind = .enumeration values) : Replaces old new :=
  replaces_of_not_builtin (by rw [TypeNode.isInteger, h]) (by rw [TypeNode.isVoid, h])

/-- Under a typedef name a node keeps its place. -/
theorem replaces_named (node : TypeNode) (name : String) :
    Replaces node { node with name := some (.typedef name) } := by
  rintro (_ | _ | _ | i) <;>
    simp [TypeNode.fits, TypeNode.isInteger, TypeNode.isVoid, TypeNode.typedefName?,
      TypeName.typedef?] <;> intros <;> assumption

/-- Puts a node in the place of one that it may replace. -/
def set (table : TypeTable) (i : Nat) (hi : i < table.nodes.size) (node : TypeNode)
    (hr : Replaces table.nodes[i] node) : TypeTable :=
  ⟨table.nodes.set i node, builtins_set table.builtins hi hr⟩

/-- Fills in the members and the size of a record or union. -/
def complete (table : TypeTable) (ty : TypeId) (fields : List Field) (size : UInt64) :
    Except TypeTableError TypeTable :=
  if hi : ty.toNat < table.nodes.size then
    match hk : table.nodes[ty.toNat].kind with
    | .record _ => .ok (table.set ty.toNat hi
        { table.nodes[ty.toNat] with kind := .record fields, size := some size }
        (replaces_of_record hk))
    | .union _ => .ok (table.set ty.toNat hi
        { table.nodes[ty.toNat] with kind := .union fields, size := some size }
        (replaces_of_union hk))
    | other => .error (.notAggregate ty other.category)
  else .error (.unknownType ty)

/-- Fills in the enumerators of an enumeration. -/
def completeEnumeration (table : TypeTable) (ty : TypeId) (values : List Enumerator) :
    Except TypeTableError TypeTable :=
  if hi : ty.toNat < table.nodes.size then
    match hk : table.nodes[ty.toNat].kind with
    | .enumeration _ => .ok (table.set ty.toNat hi
        { table.nodes[ty.toNat] with kind := .enumeration values, size := some 4 }
        (replaces_of_enumeration hk))
    | other => .error (.notEnumeration ty other.category)
  else .error (.unknownType ty)

/-- Names a node through a typedef. A tag is never replaced: a typedef of a tagged type is a
declaration of its own. -/
def setTypedefName (table : TypeTable) (ty : TypeId) (name : String) :
    Except TypeTableError TypeTable :=
  if hi : ty.toNat < table.nodes.size then
    match table.nodes[ty.toNat].name with
    | some (.tag tag) => .error (.alreadyTagged ty tag name)
    | _ => .ok (table.set ty.toNat hi
        { table.nodes[ty.toNat] with name := some (.typedef name) } (replaces_named _ name))
  else .error (.unknownType ty)

end TypeTable

end Stabs

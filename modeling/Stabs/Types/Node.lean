/-!
# Type nodes

A type is known by its id alone: two nodes denote the same type exactly when their ids agree.
A node has a category with its structure, an optional name and, once complete, a size in bytes.
-/
namespace Stabs

/-- The place of a type in its table. -/
structure TypeId where
  index : UInt32
deriving DecidableEq, Repr, Inhabited

namespace TypeId

def toNat (ty : TypeId) : Nat := ty.index.toNat

def ofNat (n : Nat) : TypeId := ⟨n.toUInt32⟩

/-- Ids are shown to the user with a number sign. -/
def label (ty : TypeId) : String := "#" ++ ty.toNat.repr

theorem toNat_ofNat {n : Nat} (h : n < UInt32.size) : (ofNat n).toNat = n :=
  UInt32.toNat_ofNat_of_lt h

theorem ofNat_toNat (ty : TypeId) : ofNat ty.toNat = ty := by
  simp [ofNat, toNat]

theorem toNat_inj {a b : TypeId} : a.toNat = b.toNat ↔ a = b :=
  ⟨fun h => by rw [← ofNat_toNat a, h, ofNat_toNat], fun h => h ▸ rfl⟩

end TypeId

/-- A type is named by the tag of its declaration or through a typedef. -/
inductive TypeName where
  | tag (name : String)
  | typedef (name : String)
deriving DecidableEq, Repr

namespace TypeName

def text : TypeName → String
  | tag name => name
  | typedef name => name

/-- The text of a name that a typedef gave. -/
def typedef? : TypeName → Option String
  | typedef name => some name
  | tag _ => none

end TypeName

/-- A member of a record or union. A member without a name only skips bits. -/
structure Field where
  name : Option String
  ty : TypeId
  bitOffset : UInt64
  bitSize : UInt64
deriving DecidableEq, Repr

structure Enumerator where
  name : String
  value : Int64
deriving DecidableEq, Repr

/-- The category of a type with the structure that the category carries. A function without a
return type returns nothing. -/
inductive TypeKind where
  | void
  | integer (min max : Int64)
  | real
  | array (element : TypeId) (length : UInt64)
  | record (fields : List Field)
  | union (fields : List Field)
  | enumeration (values : List Enumerator)
  | pointer (target : TypeId)
  | function (returns : Option TypeId)
deriving DecidableEq, Repr

def TypeKind.category : TypeKind → String
  | void => "void"
  | integer _ _ => "integer"
  | real => "real"
  | array _ _ => "array"
  | record _ => "record"
  | union _ => "union"
  | enumeration _ => "enum"
  | pointer _ => "pointer"
  | function _ => "function"

/-- A node of the type graph. A node without a size is incomplete. -/
structure TypeNode where
  kind : TypeKind
  name : Option TypeName := none
  size : Option UInt64 := none
deriving DecidableEq, Repr

namespace TypeNode

def isComplete (node : TypeNode) : Bool := node.size.isSome

/-- The typedef name of a node, if it has one. -/
def typedefName? (node : TypeNode) : Option String := node.name.bind TypeName.typedef?

end TypeNode

end Stabs

import Stabs.Interchange.Unit
import Stabs.Proofs.Json.Writer

/-!
# Numbers in the JSON form of a unit

All numbers of a unit are integers of at most 64 bits, so its JSON form can be written without
loss.
-/
namespace Stabs

namespace Json

attribute [simp] Exact.null Exact.bool Exact.string

@[simp] theorem exact_toInt (n : Int64) : Exact (.int n.toInt) := by
  have low := n.le_toInt
  have high := n.toInt_lt
  exact .int _ (by simp only [UInt64.size]; omega)

theorem exact_nat {n : Nat} (h : n < UInt64.size) : Exact (.nat n) := .int n h

@[simp] theorem exact_uint64 (n : UInt64) : Exact (.nat n.toNat) := exact_nat n.toNat_lt_size

@[simp] theorem exact_uint32 (n : UInt32) : Exact (.nat n.toNat) :=
  exact_nat (Nat.lt_trans n.toNat_lt_size (by decide))

@[simp] theorem exact_typeId (ty : TypeId) : Exact ty.toJson := exact_uint32 ty.index

theorem exact_nullable {α : Type} {write : α → Json} (h : ∀ a, Exact (write a)) (a : Option α) :
    Exact (nullable write a) := by
  cases a with
  | none => exact .null
  | some a => exact h a

theorem exact_map {α : Type} {write : α → Json} (h : ∀ a, Exact (write a)) (as : List α) :
    Exact (.array (as.map write)) := by
  apply Exact.array
  simp [h]

@[simp] theorem exact_nullableText (s : Option String) : Exact (nullable .string s) :=
  exact_nullable .string s

end Json

open Json

theorem Field.exact (field : Field) : Exact field.toJson := by
  apply Exact.object
  simp

theorem Enumerator.exact (enumerator : Enumerator) : Exact enumerator.toJson := by
  apply Exact.object
  simp

theorem TypeName.exact (name : TypeName) : Exact name.toJson := by
  cases name <;> exact .object _ (by simp)

theorem TypeKind.exact (kind : TypeKind) : ∀ m ∈ kind.toMembers, Exact m.2 := by
  cases kind <;> simp [toMembers, exact_map Field.exact, exact_map Enumerator.exact,
    exact_nullable exact_typeId]

theorem TypeNode.exact (node : TypeNode) : Exact node.toJson := by
  have name := exact_nullable TypeName.exact node.name
  have size := exact_nullable exact_uint64 node.size
  apply Exact.object
  simp only [List.mem_append]
  rintro m (inside | after)
  · exact node.kind.exact m inside
  · revert m
    simp [name, size]

theorem Location.exact (location : Location) : Exact location.toJson := by
  cases location <;> exact .object _ (by simp)

theorem Declaration.exact_toMembers (decl : Declaration) : ∀ m ∈ decl.toMembers, Exact m.2 := by
  have kind : ∀ m ∈ decl.kind.toMembers, Exact m.2 := by
    cases decl.kind <;> simp [DeclarationKind.toMembers, Location.exact]
  simpa [toMembers] using kind

theorem Declaration.exact (decl : Declaration) : Exact decl.toJson :=
  .object _ decl.exact_toMembers

theorem Tag.exact (tag : Tag) : Exact tag.toJson := by
  apply Exact.object
  simp

namespace Statement

mutual

theorem exact (statement : Statement) : Exact statement.toJson := by
  match statement with
  | .compound body | .loop body =>
    have inside := Exact.array _ (exact_toJsons body)
    exact .object _ (by simp [inside])
  | .branch thenPart otherwise =>
    have inside := Exact.array _ (exact_toJsons thenPart)
    have beside := Exact.array _ (exact_toJsons otherwise)
    exact .object _ (by simp [inside, beside])
  | .scope tags vars body =>
    have inside := Exact.array _ (exact_toJsons body)
    exact .object _ (by simp [inside, exact_map Tag.exact, exact_map Declaration.exact])

theorem exact_toJsons (statements : List Statement) : ∀ v ∈ toJsons statements, Exact v := by
  match statements with
  | [] => simp [toJsons]
  | statement :: rest =>
    simpa [toJsons, exact statement] using exact_toJsons rest

end

end Statement

theorem Item.exact (item : Item) : Exact item.toJson := by
  cases item with
  | symbol decl => exact .object _ (by simpa using decl.exact_toMembers)
  | function definition =>
    have body := Exact.array _ (Statement.exact_toJsons definition.body)
    exact .object _ (by
      simp [FunctionDefinition.toMembers, definition.decl.exact, exact_map Declaration.exact, body])

/-- Every number in the JSON form of a unit is an integer of at most 64 bits. -/
theorem CompilationUnit.exact (u : CompilationUnit) : Exact u.toJson := by
  have types := exact_map TypeNode.exact u.types.nodes.toList
  apply Exact.object
  simp [TypeTable.toJson, types, exact_map Tag.exact, exact_map Item.exact]

end Stabs

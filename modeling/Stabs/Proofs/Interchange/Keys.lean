import Stabs.Proofs.Interchange.Rearranged

/-!
# Keys in the JSON form of a unit

No object in the JSON form of a unit has a key twice, so the form is one of its own layouts.
-/
namespace Stabs

namespace Json

variable {α : Type} {write : α → Json} {v : Json} {ms : List (String × Json)} {key : String}

/-- No object in a value has a key twice. -/
inductive Keyed : Json → Prop
  | flat {v : Json} (h : v.depth = 0) : Keyed v
  | array {vs : List Json} (h : ∀ v ∈ vs, Keyed v) : Keyed (.array vs)
  | object {ms : List (String × Json)} (distinct : (ms.map Prod.fst).Nodup)
      (h : ∀ m ∈ ms, Keyed m.2) : Keyed (.object ms)

@[simp] theorem keyed_null : Keyed .null := .flat rfl

@[simp] theorem keyed_bool (b : Bool) : Keyed (.bool b) := .flat rfl

@[simp] theorem keyed_int (n : Int) : Keyed (.int n) := .flat rfl

@[simp] theorem keyed_nat (n : Nat) : Keyed (.nat n) := .flat rfl

@[simp] theorem keyed_string (s : String) : Keyed (.string s) := .flat rfl

@[simp] theorem keyed_typeId (ty : TypeId) : Keyed ty.toJson := .flat rfl

theorem keyed_nullable (h : ∀ a, Keyed (write a)) (a : Option α) : Keyed (nullable write a) := by
  cases a with
  | none => exact keyed_null
  | some a => exact h a

theorem keyed_map (h : ∀ a, Keyed (write a)) (as : List α) : Keyed (.array (as.map write)) := by
  apply Keyed.array
  simp [h]

/-- Fields that are written in full and in order stand among themselves. -/
theorem stands_self (distinct : (ms.map Prod.fst).Nodup) (h : ∀ m ∈ ms, Rearranged m.2 m.2) :
    ∀ field ∈ ms, Stands ms ms field :=
  fun field mem => .once (valuesAt_of_mem distinct mem) (h field mem)

theorem Keyed.rearranged (h : Keyed v) : Rearranged v v := by
  induction h with
  | flat h => exact .flat h
  | array _ ih => exact .array (List.forall₂_same.mpr ih)
  | object distinct _ ih =>
    exact .object (stands_self distinct ih) fun m mem unknown =>
      absurd (List.mem_map_of_mem mem) unknown

end Json

open Json

theorem Field.keyed (field : Field) : Keyed field.toJson :=
  .object (by simp) (by simp [keyed_nullable])

theorem Enumerator.keyed (enumerator : Enumerator) : Keyed enumerator.toJson :=
  .object (by simp) (by simp)

theorem TypeName.keyed (name : TypeName) : Keyed name.toJson := by
  cases name <;> exact .object (by simp) (by simp)

theorem TypeKind.distinct (kind : TypeKind) : (kind.toMembers.map Prod.fst).Nodup := by
  cases kind <;> simp [toMembers]

theorem TypeKind.keyed (kind : TypeKind) : ∀ m ∈ kind.toMembers, Keyed m.2 := by
  cases kind <;> simp [toMembers, keyed_map Field.keyed, keyed_map Enumerator.keyed,
    keyed_nullable keyed_typeId]

theorem TypeKind.restores (kind : TypeKind) : ofMembers? kind.toMembers = some kind :=
  finds (stands_self kind.distinct fun m mem => (kind.keyed m mem).rearranged)

theorem TypeNode.keyed (node : TypeNode) : Keyed node.toJson := by
  have name := keyed_nullable TypeName.keyed node.name
  have size := keyed_nullable (fun n : UInt64 => keyed_nat n.toNat) node.size
  refine .object ?_ ?_
  · cases h : node.kind <;> simp [TypeKind.toMembers]
  · simp only [List.forall_mem_append]
    exact ⟨node.kind.keyed, by simp [name, size]⟩

theorem Location.keyed (location : Location) : Keyed location.toJson := by
  cases location <;> exact .object (by simp) (by simp)

theorem Declaration.keyed_members (decl : Declaration) : ∀ m ∈ decl.toMembers, Keyed m.2 := by
  have kind : ∀ m ∈ decl.kind.toMembers, Keyed m.2 := by
    cases decl.kind <;> simp [DeclarationKind.toMembers, Location.keyed, keyed_nullable]
  simpa [toMembers] using kind

theorem Declaration.keyed (decl : Declaration) : Keyed decl.toJson := by
  refine .object ?_ decl.keyed_members
  cases h : decl.kind <;> simp [toMembers, DeclarationKind.toMembers, h]

theorem Declaration.restores (decl : Declaration) : ofJson? decl.toJson = some decl :=
  decl.finds _ decl.keyed.rearranged

theorem Tag.keyed (tag : Tag) : Keyed tag.toJson :=
  .object (by simp) (by simp [keyed_nullable])

namespace Statement

mutual

theorem keyed (statement : Statement) : Keyed statement.toJson := by
  match statement with
  | .compound body | .loop body =>
    have inside := Keyed.array (keyed_list body)
    exact .object (by simp) (by simp [inside])
  | .branch thenPart otherwise =>
    have inside := Keyed.array (keyed_list thenPart)
    have beside := Keyed.array (keyed_list otherwise)
    exact .object (by simp) (by simp [inside, beside])
  | .scope tags vars body =>
    have inside := Keyed.array (keyed_list body)
    exact .object (by simp)
      (by simp [inside, keyed_map Tag.keyed, keyed_map Declaration.keyed])

theorem keyed_list (statements : List Statement) : ∀ v ∈ toJsons statements, Keyed v := by
  match statements with
  | [] => simp [toJsons]
  | statement :: rest => simpa [toJsons, keyed statement] using keyed_list rest

end

end Statement

theorem FunctionDefinition.keyed (definition : FunctionDefinition) :
    ∀ m ∈ definition.toMembers, Keyed m.2 := by
  have body := Keyed.array (Statement.keyed_list definition.body)
  simp [toMembers, definition.decl.keyed, keyed_map Declaration.keyed, body]

theorem FunctionDefinition.restores (definition : FunctionDefinition) :
    ofJson? (.object definition.toMembers) = some definition :=
  finds_members (stands_self (by simp [toMembers]) fun m mem =>
    (definition.keyed m mem).rearranged)

theorem Item.keyed (item : Item) : Keyed item.toJson := by
  cases item with
  | symbol decl =>
    refine .object ?_ (by simpa using decl.keyed_members)
    cases h : decl.kind <;> simp [Declaration.toMembers, DeclarationKind.toMembers, h]
  | function definition =>
    exact .object (by simp [FunctionDefinition.toMembers]) (by simpa using definition.keyed)

/-- No object in the JSON form of a unit has a key twice. -/
theorem CompilationUnit.keyed (u : CompilationUnit) : Keyed u.toJson := by
  have types := keyed_map TypeNode.keyed u.types.nodes.toList
  refine .object (by simp) ?_
  simp [TypeTable.toJson, types, keyed_map Tag.keyed, keyed_map Item.keyed]

/-- The JSON form of a unit is one of its own layouts. -/
theorem CompilationUnit.rearranged_self (u : CompilationUnit) : Rearranged u.toJson u.toJson :=
  u.keyed.rearranged

end Stabs

import Stabs.Proofs.Description.Layout
import Stabs.Proofs.Unit.Scopes

/-!
# Renaming the types of a unit

A unit names its types by their places in the table. Under a renaming every type moves to another
place, and whatever refers to a type follows: the nodes of the table, tags, declarations and
statements, and the errors that a unit may lead to.
-/
namespace Stabs

variable (ρ : TypeId → TypeId)

def Field.rename (field : Field) : Field := { field with ty := ρ field.ty }

def TypeKind.rename : TypeKind → TypeKind
  | .array element length => .array (ρ element) length
  | .record fields => .record (fields.map (Field.rename ρ))
  | .union fields => .union (fields.map (Field.rename ρ))
  | .pointer target => .pointer (ρ target)
  | .function returns => .function (returns.map ρ)
  | .void => .void
  | .integer min max => .integer min max
  | .real => .real
  | .enumeration values => .enumeration values

def TypeNode.rename (node : TypeNode) : TypeNode := { node with kind := node.kind.rename ρ }

def Tag.rename (tag : Tag) : Tag := { tag with ty := ρ tag.ty }

def Declaration.rename (decl : Declaration) : Declaration := { decl with ty := ρ decl.ty }

namespace Statement

mutual

def rename : Statement → Statement
  | compound body => compound (renameAll body)
  | loop body => loop (renameAll body)
  | branch thenPart otherwise => branch (renameAll thenPart) (renameAll otherwise)
  | scope tags vars body =>
    scope (tags.map (Tag.rename ρ)) (vars.map (Declaration.rename ρ)) (renameAll body)

def renameAll : List Statement → List Statement
  | [] => []
  | statement :: rest => rename statement :: renameAll rest

end

end Statement

def FunctionDefinition.rename (definition : FunctionDefinition) : FunctionDefinition where
  decl := definition.decl.rename ρ
  params := definition.params.map (Declaration.rename ρ)
  body := Statement.renameAll ρ definition.body

def Item.rename : Item → Item
  | symbol decl => symbol (decl.rename ρ)
  | function definition => function (definition.rename ρ)

def Symbol.rename (symbol : Symbol) : Symbol := { symbol with ty := ρ symbol.ty }

def DescribeError.rename : DescribeError → DescribeError
  | unnamedType ty category => unnamedType (ρ ty) category
  | missingTypedefName ty => missingTypedefName (ρ ty)
  | notAFunctionType name ty => notAFunctionType name (ρ ty)
  | unsizedReal ty => unsizedReal (ρ ty)
  | arrayTooLong ty length => arrayTooLong (ρ ty) length
  | unknownType ty => unknownType (ρ ty)
  | parameterOutsideList name => parameterOutsideList name
  | notAParameter name kind => notAParameter name kind
  | blockNumbersExhausted last => blockNumbersExhausted last
  | noSymbol => noSymbol

namespace TypeTable

/-- The id is that of an entry. -/
def Knows (types : TypeTable) (ty : TypeId) : Prop := ∃ node, types.get? ty = some node

theorem mem_entries {types : TypeTable} {ty : TypeId} {node : TypeNode}
    (known : types.get? ty = some node) : (ty, node) ∈ types.entries := by
  refine List.mem_map.2 ⟨(node, ty.toNat), List.mk_mem_zipIdx_iff_getElem?.2 ?_, ?_⟩
  · rw [Array.getElem?_toList]
    exact known
  · exact congrArg (·, node) (TypeId.ofNat_toNat ty)

/-- The id of an entry is always found, if not the entry itself: beyond the range of an index the
ids start again. -/
theorem knows_of_mem_entries {types : TypeTable} {entry : TypeId × TypeNode}
    (mem : entry ∈ types.entries) : types.Knows entry.1 := by
  obtain ⟨⟨node, i⟩, place, rfl⟩ := List.mem_map.1 mem
  have known := List.mk_mem_zipIdx_iff_getElem?.1 place
  rw [Array.getElem?_toList] at known
  obtain ⟨bound, -⟩ := Array.getElem?_eq_some_iff.1 known
  have le : (TypeId.ofNat i).toNat ≤ i := by
    simp only [TypeId.ofNat, TypeId.toNat, UInt32.toNat_ofNat']
    exact Nat.mod_le _ _
  exact ⟨_, Array.getElem?_eq_getElem (Nat.lt_of_le_of_lt le bound)⟩

theorem knows_char (types : TypeTable) : types.Knows .char := by
  have three := types.builtins.three
  have two : TypeId.char.toNat < types.nodes.size := by
    change 1 < types.nodes.size
    omega
  exact ⟨_, Array.getElem?_eq_getElem two⟩

/-- Under a renaming one table becomes part of another. The built-in types stay where they are, the
types under a typedef name keep their order, and what else the other table holds has no typedef
name. -/
structure Renames (types others : TypeTable) : Prop where
  builtins : ρ .int = .int ∧ ρ .char = .char ∧ ρ .void = .void
  injective : ∀ a ∈ types.entries, ∀ b ∈ types.entries, ρ a.1 = ρ b.1 → a.1 = b.1
  nodes : ∀ entry ∈ types.entries, others.get? (ρ entry.1) = some (entry.2.rename ρ)
  typedefs : ∀ (i : Nat) (node : TypeNode), others.nodes[i]? = some node →
    node.typedefName?.isSome = true → ∃ entry ∈ types.entries, (ρ entry.1).toNat = i
  order : (types.entries.filter (·.2.typedefName?.isSome)).Pairwise fun a b =>
    (ρ a.1).toNat < (ρ b.1).toNat

/-- The types that the entries refer to are in the table. -/
def Closed (types : TypeTable) : Prop :=
  ∀ entry ∈ types.entries, ∀ child ∈ entry.2.children, types.Knows child

variable {ρ} {types others : TypeTable}

theorem Renames.get? (h : types.Renames ρ others) {ty : TypeId} {node : TypeNode}
    (known : types.get? ty = some node) : others.get? (ρ ty) = some (node.rename ρ) :=
  h.nodes _ (mem_entries known)

theorem Renames.inj (h : types.Renames ρ others) {a b : TypeId} (ha : types.Knows a)
    (hb : types.Knows b) : ρ a = ρ b ↔ a = b := by
  obtain ⟨node, ha⟩ := ha
  obtain ⟨node', hb⟩ := hb
  exact ⟨h.injective _ (mem_entries ha) _ (mem_entries hb), congrArg ρ⟩

end TypeTable

namespace CompilationUnit

/-- The ids of the types that a unit refers to. -/
def ids (u : CompilationUnit) : List TypeId :=
  u.types.entries.flatMap (·.2.children) ++
    (u.tags ++ u.scopes.flatMap Scope.tags).map Tag.ty ++
      (u.declarations ++ u.parameters).map Declaration.ty

/-- Every id of the unit is in range. -/
def InRange (u : CompilationUnit) : Prop := ∀ ty ∈ u.ids, u.types.Knows ty

/-- The other unit is this one with its types renamed, and perhaps with further types that nothing
refers to. -/
structure Renames (u v : CompilationUnit) : Prop where
  types : u.types.Renames ρ v.types
  sourceFile : v.sourceFile = u.sourceFile
  tags : v.tags = u.tags.map (Tag.rename ρ)
  items : v.items = u.items.map (Item.rename ρ)

theorem InRange.closed {u : CompilationUnit} (h : u.InRange) : u.types.Closed :=
  fun _ entry child mem => h child <| List.mem_append_left _ <| List.mem_append_left _ <|
    List.mem_flatMap.2 ⟨_, entry, mem⟩

theorem InRange.tag {u : CompilationUnit} (h : u.InRange) {tag : Tag}
    (mem : tag ∈ u.tags ∨ ∃ scope ∈ u.scopes, tag ∈ scope.tags) : u.types.Knows tag.ty := by
  refine h _ (List.mem_append_left _ (List.mem_append_right _ (List.mem_map_of_mem ?_)))
  exact List.mem_append.2 (mem.imp_right List.mem_flatMap.2)

theorem InRange.declaration {u : CompilationUnit} (h : u.InRange) {decl : Declaration}
    (mem : decl ∈ u.declarations ∨ decl ∈ u.parameters) : u.types.Knows decl.ty :=
  h _ (List.mem_append_right _ (List.mem_map_of_mem (List.mem_append.2 mem)))

end CompilationUnit

end Stabs

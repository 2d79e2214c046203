import Stabs.Proofs.Readback.Contents
import Stabs.Proofs.Unit.Scopes

/-!
# The names in a unit

Everything in the output of a unit that is not a number or fixed text is a name or an assembler
symbol of the unit: a symbol takes its name and its address from its declaration, and its letter
from the kind alone.
-/
namespace Stabs

/-- Every name in a unit. -/
def CompilationUnit.names (u : CompilationUnit) : List String :=
  u.types.nodes.toList.flatMap TypeNode.names ++
    (u.scopes.flatMap Scope.tags ++ u.tags).filterMap Tag.name ++
      (u.declarations ++ u.parameters).map Declaration.name

/-- The assembler symbol that a declaration stands at. -/
def Declaration.addresses (decl : Declaration) : List String :=
  match decl.kind with
  | .function info => info.address.toList
  | .var { location := .static label, .. } => [label]
  | _ => []

def CompilationUnit.addresses (u : CompilationUnit) : List String :=
  u.declarations.flatMap Declaration.addresses

/-- The letters of all kinds of symbols. -/
def Symbol.letters : List Char := ['F', 'f', 'G', 'S', 'v', 'p', 'r', 't', 'T']

/-- A symbol that takes its text from given names and addresses. -/
structure Symbol.DrawnFrom (names addresses : List String) (symbol : Symbol) : Prop where
  name : symbol.name ∈ names
  letter : ∀ c ∈ symbol.letter, c ∈ Symbol.letters
  address : ∀ label, symbol.value = .address label → label ∈ addresses

namespace Symbol

variable {types : TypeTable} {target : Target} {decl : Declaration} {symbol : Symbol}

theorem DrawnFrom.mono {names others addresses more : List String}
    (h : symbol.DrawnFrom names addresses) (hn : names ⊆ others) (ha : addresses ⊆ more) :
    symbol.DrawnFrom others more :=
  ⟨hn h.name, h.letter, fun label e => ha (h.address label e)⟩

/-- A symbol with a number for its value has no address. -/
theorem drawn_of_number {names addresses : List String} {n : Int} (name : symbol.name ∈ names)
    (letter : ∀ c ∈ symbol.letter, c ∈ letters) (value : symbol.value = .number n) :
    symbol.DrawnFrom names addresses := by
  refine ⟨name, letter, fun label e => ?_⟩
  cases value.symm.trans e

theorem drawn_ofFunction {name : String} {ty : TypeId} {info : FunctionInfo}
    (h : ofFunction? types name ty info = .ok (some symbol)) :
    symbol.DrawnFrom [name] info.address.toList := by
  unfold ofFunction? at h
  split at h
  · cases h
  · split at h
    · cases h
    · next address e =>
      cases hr : returnType types name ty with
      | error cause =>
        rw [hr] at h
        cases h
      | ok returns =>
        rw [hr] at h
        cases h
        refine ⟨List.mem_singleton_self _, ?_, ?_⟩
        · rintro c ⟨⟩
          cases info.isPublic <;> decide
        · rintro label ⟨⟩
          simp [e]

theorem drawn_ofVariable {name : String} {ty : TypeId} {info : VariableInfo}
    (h : ofVariable? target name ty info = some symbol) :
    symbol.DrawnFrom [name] (Declaration.addresses ⟨name, ty, .var info⟩) := by
  obtain ⟨isPublic, isExternal, isPermanent, _, _, _, location⟩ := info
  cases isExternal with
  | true => cases h
  | false =>
    cases location with
    | eliminated => cases h
    | static label =>
      cases isPublic with
      | true =>
        cases h
        exact drawn_of_number (List.mem_singleton_self _) (by rintro c ⟨⟩; decide) rfl
      | false =>
        cases h
        refine ⟨List.mem_singleton_self _, ?_, by rintro label ⟨⟩; exact List.mem_singleton_self _⟩
        rintro c ⟨⟩
        cases isPermanent with
        | true => exact (by decide : 'S' ∈ letters)
        | false => exact (by decide : 'v' ∈ letters)
    | register regno =>
      cases h
      exact drawn_of_number (List.mem_singleton_self _) (by rintro c ⟨⟩; decide) rfl
    | frame offset =>
      cases h
      exact drawn_of_number (List.mem_singleton_self _) (by rintro c ⟨⟩) rfl

theorem drawn_ofDeclaration (h : ofDeclaration? types target decl = .ok (some symbol)) :
    symbol.DrawnFrom [decl.name] decl.addresses := by
  obtain ⟨name, ty, kind⟩ := decl
  cases kind with
  | enumConstant => cases h
  | function info => exact drawn_ofFunction h
  | typedef =>
    cases h
    exact drawn_of_number (List.mem_singleton_self _) (by rintro c ⟨⟩; decide) rfl
  | parameter info => cases h
  | var info => exact drawn_ofVariable (Except.ok.inj h)

theorem drawn_ofParameter (h : ofParameter target decl = .ok symbol) :
    symbol.DrawnFrom [decl.name] [] := by
  obtain ⟨name, ty, kind⟩ := decl
  cases kind with
  | parameter info =>
    cases h
    exact drawn_of_number (List.mem_singleton_self _) (by rintro c ⟨⟩; decide) rfl
  | _ => cases h

theorem drawn_ofRegisterParameter (h : ofRegisterParameter? target decl = .ok (some symbol)) :
    symbol.DrawnFrom [decl.name] [] := by
  obtain ⟨name, ty, kind⟩ := decl
  cases kind with
  | parameter info =>
    obtain ⟨_, location, _, _⟩ := info
    cases location with
    | register regno =>
      cases h
      exact drawn_of_number (List.mem_singleton_self _) (by rintro c ⟨⟩; decide) rfl
    | _ => cases h
  | _ => cases h

end Symbol

theorem TypeNode.typedefName?_eq_some {node : TypeNode} {name : String} :
    node.typedefName? = some name ↔ node.name = some (.typedef name) := by
  unfold typedefName?
  cases node.name with
  | none => simp
  | some label => cases label <;> simp [TypeName.typedef?]

namespace CompilationUnit

variable {u : CompilationUnit} {name : String}

theorem mem_names_of_node {ty : TypeId} {node : TypeNode} (known : u.types.get? ty = some node)
    (mem : name ∈ node.names) : name ∈ u.names := by
  have table : node ∈ u.types.nodes.toList := by
    rw [TypeTable.get?, ← Array.getElem?_toList] at known
    exact List.mem_of_getElem? known
  exact List.mem_append_left _ (List.mem_append_left _ (List.mem_flatMap.2 ⟨node, table, mem⟩))

theorem mem_names_of_tag {tag : Tag} (written : tag ∈ u.writtenTags)
    (named : tag.name = some name) : name ∈ u.names := by
  refine List.mem_append_left _ (List.mem_append_right _ (List.mem_filterMap.2 ⟨tag, ?_, named⟩))
  rcases List.mem_append.1 written with mem | mem
  · exact List.mem_append_left _ mem
  · split at mem
    · cases mem
    · exact List.mem_append_right _ mem

theorem mem_names_of_declaration {decl : Declaration}
    (mem : decl ∈ u.declarations ∨ decl ∈ u.parameters) : decl.name ∈ u.names :=
  List.mem_append_right _ (List.mem_map_of_mem (List.mem_append.2 mem))

end CompilationUnit

/-- A unit describes symbols that take their text from its names and addresses. -/
theorem Task.drawn_of_due {u : CompilationUnit} {target : Target} {task : Task} {c : Context}
    {symbol : Symbol} (mem : task ∈ ofUnit u target) (due : task.due u.types c = some symbol) :
    symbol.DrawnFrom u.names u.addresses := by
  have own {decl : Declaration} (declared : decl ∈ u.declarations ∨ decl ∈ u.parameters) :
      [decl.name] ⊆ u.names := by
    intro name mem
    rw [List.mem_singleton.1 mem]
    exact CompilationUnit.mem_names_of_declaration declared
  cases origin_of_mem mem with
  | sourceFile => cases due
  | enter => cases due
  | leave => cases due
  | @typedef entry mem' named' =>
    rw [Task.due] at due
    split at due
    · cases due
    · simp only [Option.map_eq_some_iff, Option.bind_eq_some_iff] at due
      obtain ⟨name, ⟨node, known, hn⟩, rfl⟩ := due
      refine Symbol.drawn_of_number (CompilationUnit.mem_names_of_node known ?_)
        (by rintro c ⟨⟩; decide) rfl
      simp [Symbol.ofTypedef, TypeNode.names, TypeNode.typedefName?_eq_some.1 hn, TypeName.text]
  | @tag tag _ written h =>
    obtain ⟨name, hn, ⟨-, rfl⟩ | ⟨node, -, -, rfl⟩⟩ := mem_ofTag.1 h
    · cases due
    · rw [Task.due] at due
      split at due
      · cases due
      · cases due
        exact Symbol.drawn_of_number (CompilationUnit.mem_names_of_tag written hn)
          (by rintro c ⟨⟩; decide) rfl
  | @declaration decl _ declared h =>
    obtain ⟨cause, -, rfl⟩ | ⟨s, choice, rfl⟩ := mem_ofChoice.1 h
    · cases due
    · cases due
      refine (Symbol.drawn_ofDeclaration choice).mono (own (.inl declared)) fun label mem => ?_
      exact List.mem_flatMap.2 ⟨decl, declared, mem⟩
  | @parameter param _ declared h =>
    obtain ⟨cause, -, rfl⟩ | ⟨s, choice, rfl⟩ := mem_ofChoice.1 h
    · cases due
    · cases due
      cases hp : Symbol.ofParameter target param with
      | error cause =>
        rw [hp] at choice
        cases choice
      | ok s =>
        rw [hp] at choice
        cases choice
        exact (Symbol.drawn_ofParameter hp).mono (own (.inr declared)) (List.nil_subset _)
  | @registerParameter param _ declared h =>
    obtain ⟨cause, -, rfl⟩ | ⟨s, choice, rfl⟩ := mem_ofChoice.1 h
    · cases due
    · cases due
      exact (Symbol.drawn_ofRegisterParameter choice).mono (own (.inr declared))
        (List.nil_subset _)

end Stabs

import Stabs.Proofs.Description.Layout
import Stabs.Proofs.Unit.Scopes

/-!
# The types that a unit demands

Typedefs and tags ask for their types in full, symbols and the bodies of other types only mention
them. A type that is asked for in full is required unless it is an incomplete record, union or
enumeration; one that is mentioned is required unless it is referred to by name. What a required
type refers to is mentioned in turn.
-/
namespace Stabs

open TypeDescription

namespace TypeNode

/-- Records, unions and enumerations can be referred to by name. -/
def isAggregate (node : TypeNode) : Bool :=
  node.kind matches .record _ | .union _ | .enumeration _

/-- An aggregate that has no definition to write. -/
def isForward (node : TypeNode) : Bool := node.isAggregate && !node.isComplete

/-- An aggregate that is only named where it is mentioned. -/
def isReferredToByName (node : TypeNode) : Bool :=
  node.isAggregate && (node.name.isSome || !node.isComplete)

theorem isSome_aggregate? (node : TypeNode) :
    (aggregate? node.kind).isSome = node.isAggregate := by
  unfold isAggregate
  cases node.kind <;> rfl

theorem crossReference?_true_eq_none {node : TypeNode} :
    crossReference? node true = none ↔ node.isForward = false := by
  have same := node.isSome_aggregate?
  unfold crossReference? isForward
  cases h : aggregate? node.kind <;> cases hc : node.isComplete <;> simp_all

theorem crossReference?_false_eq_none {node : TypeNode} :
    crossReference? node false = none ↔ node.isReferredToByName = false := by
  have same := node.isSome_aggregate?
  unfold crossReference? isReferredToByName
  cases h : aggregate? node.kind <;> cases hc : node.isComplete <;> cases hn : node.name <;>
    simp_all

end TypeNode

/-- A declaration of a variable that has storage in this unit. -/
def VariableInfo.isEmitted (info : VariableInfo) : Bool :=
  !info.isExternal && info.location ≠ .eliminated

/-- A declaration of a function that has code in this unit. -/
def FunctionInfo.isEmitted (info : FunctionInfo) : Bool :=
  !info.isExternal && info.address.isSome

variable (u : CompilationUnit)

/-- A type whose definition a typedef or a tag asks for. -/
inductive AskedInFull : TypeId → Prop
  | entry {ty : TypeId} {node : TypeNode} (mem : (ty, node) ∈ u.types.entries)
      (named : node.typedefName?.isSome = true) : AskedInFull ty
  | tag {tag : Tag} {node : TypeNode} (written : tag ∈ u.writtenTags)
      (named : tag.name.isSome = true) (known : u.types.get? tag.ty = some node)
      (complete : node.isComplete = true) : AskedInFull tag.ty
  | typedef {decl : Declaration} (mem : decl ∈ u.declarations) (kind : decl.kind = .typedef) :
      AskedInFull decl.ty

/-- A type that a symbol has or that the body of a required type refers to. -/
inductive Mentioned : TypeId → Prop
  | stored {decl : Declaration} {info : VariableInfo} (mem : decl ∈ u.declarations)
      (kind : decl.kind = .var info) (emitted : info.isEmitted = true) : Mentioned decl.ty
  | returned {decl : Declaration} {info : FunctionInfo} {node : TypeNode}
      {returns : Option TypeId} (mem : decl ∈ u.declarations) (kind : decl.kind = .function info)
      (emitted : info.isEmitted = true) (known : u.types.get? decl.ty = some node)
      (function : node.kind = .function returns) : Mentioned (returns.getD .void)
  | parameter {param : Declaration} (mem : param ∈ u.parameters) : Mentioned param.ty
  | ofFull {ty child : TypeId} {node : TypeNode} (asked : AskedInFull u ty)
      (known : u.types.get? ty = some node) (complete : node.isForward = false)
      (mem : child ∈ node.children) : Mentioned child
  | ofMentioned {ty child : TypeId} {node : TypeNode} (mentioned : Mentioned ty)
      (known : u.types.get? ty = some node) (spelt : node.isReferredToByName = false)
      (mem : child ∈ node.children) : Mentioned child

/-- The types that have to be defined: the least set that holds what is asked for in full, as far
as it is complete, and what is mentioned without a name to refer to it by. -/
inductive Required : TypeId → Prop
  | full {ty : TypeId} {node : TypeNode} (asked : AskedInFull u ty)
      (known : u.types.get? ty = some node) (complete : node.isForward = false) : Required ty
  | mentioned {ty : TypeId} {node : TypeNode} (mentioned : Mentioned u ty)
      (known : u.types.get? ty = some node) (spelt : node.isReferredToByName = false) :
      Required ty

/-- A reference that the unit has a reason to write. -/
def Demanded : Piece → Prop
  | .reference ty true => AskedInFull u ty
  | .reference ty false => Mentioned u ty
  | _ => True

variable {u}

theorem mentioned_of_required {ty child : TypeId} {node : TypeNode} (h : Required u ty)
    (known : u.types.get? ty = some node) (mem : child ∈ node.children) : Mentioned u child := by
  cases h with
  | full asked known' complete =>
    cases known.symm.trans known'
    exact .ofFull asked known complete mem
  | mentioned mentioned known' spelt =>
    cases known.symm.trans known'
    exact .ofMentioned mentioned known spelt mem

/-- A reference that may be written in full where it stands defines a required type. -/
theorem required_of_demanded {ty : TypeId} {full : Bool} {node : TypeNode}
    (h : Demanded u (.reference ty full)) (known : u.types.get? ty = some node)
    (clear : crossReference? node full = none) : Required u ty := by
  cases full with
  | true => exact .full h known (TypeNode.crossReference?_true_eq_none.1 clear)
  | false => exact .mentioned h known (TypeNode.crossReference?_false_eq_none.1 clear)

theorem demanded_iff {ty : TypeId} :
    (∃ full, Demanded u (.reference ty full)) ↔ AskedInFull u ty ∨ Mentioned u ty := by
  constructor
  · rintro ⟨full, h⟩
    cases full with
    | true => exact .inl h
    | false => exact .inr h
  · rintro (h | h)
    · exact ⟨true, h⟩
    · exact ⟨false, h⟩

end Stabs

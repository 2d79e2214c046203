import Stabs.Proofs.Description.Steps

/-!
# The body of a definition

The body of a type refers to its children, each time by a reference of its own. It runs into a
fault if a real type has no size or if the length of an array leaves no room for a bound, and
otherwise it refers to every child.
-/
namespace Stabs

/-- The tokens that stand only behind the number of a reference. -/
def Token.follows : Token → Bool
  | equals => true
  | crossReference _ _ => true
  | _ => false

namespace TypeNode

open TypeDescription (namedFields)

/-- The types that the body of a definition refers to. -/
def children (node : TypeNode) : List TypeId :=
  match node.kind with
  | .array element _ => [element]
  | .record fields => (namedFields fields).map (·.2.ty)
  | .union fields => (namedFields fields).map (·.2.ty)
  | .pointer target => [target]
  | .function returns => [returns.getD .void]
  | _ => []

/-- A type whose body has no fault: a real type needs a size, and the length of an array has to
leave room for a signed bound. -/
def isDefinable (node : TypeNode) : Bool :=
  match node.kind with
  | .real => node.size.isSome
  | .array _ length => length.toNat ≤ Int64.maxValue.toInt
  | _ => true

end TypeNode

namespace TypeDescription

/-- What a piece in the body of a type may be. -/
def Piece.InBody (node : TypeNode) : Piece → Prop
  | .mark (.token token) => token.follows = false ∧ ∀ n, token ≠ .number n
  | .mark .safePoint => True
  | .reference child full => full = false ∧ child ∈ node.children
  | .fault _ => node.isDefinable = false

variable {ty child : TypeId} {n : TypeNumber} {node : TypeNode} {category : Aggregate}
  {size : Option UInt64} {fields : List Field} {p : Piece}

theorem inBody_token {token : Token} (follows : token.follows = false)
    (number : ∀ n, token ≠ .number n) : (Piece.token token).InBody node := ⟨follows, number⟩

theorem inBody_separated {α : Type} {item : α → List Piece} {l : List α}
    (h : ∀ a ∈ l, ∀ p ∈ item a, p.InBody node) (mem : p ∈ separated item l) : p.InBody node := by
  by_cases mark : p = .mark .safePoint
  · subst mark
    trivial
  · obtain ⟨a, inList, mem⟩ := exists_of_mem_separated mem mark
    exact h a inList p mem

theorem inBody_aggregateLayout
    (children : ∀ member ∈ namedFields fields, member.2.ty ∈ node.children)
    (mem : p ∈ aggregateLayout category size fields) : p.InBody node := by
  simp only [aggregateLayout, List.mem_cons, List.mem_append, List.not_mem_nil, or_false] at mem
  rcases mem with rfl | mem | rfl
  · exact inBody_token rfl nofun
  · refine inBody_separated (fun member inFields q hq => ?_) mem
    simp only [memberPieces, List.mem_cons, List.not_mem_nil, or_false] at hq
    rcases hq with rfl | rfl | rfl
    · exact inBody_token rfl nofun
    · exact ⟨rfl, children member inFields⟩
    · exact inBody_token rfl nofun
  · exact inBody_token rfl nofun

/-- A body holds its own tokens, references to the children of its type, and perhaps a fault. -/
theorem inBody_of_mem_layout (mem : p ∈ layout ty n node) : p.InBody node := by
  unfold layout at mem
  cases hk : node.kind with
  | void =>
    simp only [hk, List.mem_singleton] at mem
    exact mem ▸ inBody_token rfl nofun
  | integer =>
    simp only [hk, List.mem_singleton] at mem
    subst mem
    unfold integerRange
    split <;> exact inBody_token rfl nofun
  | real =>
    simp only [hk] at mem
    split at mem <;> cases List.mem_singleton.1 mem
    · exact inBody_token rfl nofun
    · next unsized => simp [Piece.InBody, TypeNode.isDefinable, hk, unsized]
  | array element length =>
    simp only [hk] at mem
    split at mem
    · simp only [List.mem_cons, List.not_mem_nil, or_false] at mem
      rcases mem with rfl | rfl
      · exact inBody_token rfl nofun
      · exact ⟨rfl, by simp [TypeNode.children, hk]⟩
    · next long =>
      cases List.mem_singleton.1 mem
      simpa [Piece.InBody, TypeNode.isDefinable, hk] using long
  | record fields =>
    simp only [hk] at mem
    refine inBody_aggregateLayout (fun member inFields => ?_) mem
    simpa [TypeNode.children, hk] using ⟨_, _, inFields, rfl⟩
  | union fields =>
    simp only [hk] at mem
    refine inBody_aggregateLayout (fun member inFields => ?_) mem
    simpa [TypeNode.children, hk] using ⟨_, _, inFields, rfl⟩
  | enumeration values =>
    simp only [hk, List.mem_cons, List.mem_append, List.not_mem_nil, or_false] at mem
    rcases mem with rfl | mem | rfl
    · exact inBody_token rfl nofun
    · refine inBody_separated (fun v _ q hq => ?_) mem
      rw [enumeratorPieces, List.mem_singleton] at hq
      exact hq ▸ inBody_token rfl nofun
    · exact inBody_token rfl nofun
  | pointer target =>
    simp only [hk, List.mem_cons, List.not_mem_nil, or_false] at mem
    rcases mem with rfl | rfl
    · exact inBody_token rfl nofun
    · exact ⟨rfl, by simp [TypeNode.children, hk]⟩
  | function returns =>
    simp only [hk, List.mem_cons, List.not_mem_nil, or_false] at mem
    rcases mem with rfl | rfl
    · exact inBody_token rfl nofun
    · exact ⟨rfl, by simp [TypeNode.children, hk]⟩

/-- A type that cannot be defined has a fault in its body. -/
theorem isDefinable_of_layout (sound : ∀ cause, .fault cause ∉ layout ty n node) :
    node.isDefinable = true := by
  unfold layout at sound
  unfold TypeNode.isDefinable
  cases hk : node.kind with
  | real => cases hs : node.size <;> simp_all
  | array element length =>
    by_cases room : length.toNat ≤ Int64.maxValue.toInt
    · simpa using room
    · simp [hk, room] at sound
  | _ => rfl

theorem fault_notMem_layout :
    (∀ cause, .fault cause ∉ layout ty n node) ↔ node.isDefinable = true := by
  refine ⟨isDefinable_of_layout, fun definable cause mem => ?_⟩
  have stuck : node.isDefinable = false := inBody_of_mem_layout mem
  simp [definable] at stuck

theorem mem_aggregateLayout (mem : child ∈ (namedFields fields).map (·.2.ty)) :
    .reference child false ∈ aggregateLayout category size fields := by
  obtain ⟨member, inFields, rfl⟩ := List.mem_map.1 mem
  refine List.mem_cons_of_mem _ (List.mem_append_left _ (mem_separated inFields ?_))
  exact List.mem_cons_of_mem _ List.mem_cons_self

/-- The body of a type that can be defined refers to every child. -/
theorem mem_layout_of_child (definable : node.isDefinable = true) (mem : child ∈ node.children) :
    .reference child false ∈ layout ty n node := by
  unfold layout
  unfold TypeNode.children at mem
  cases hk : node.kind with
  | record => simp only [hk] at mem ⊢; exact mem_aggregateLayout mem
  | union => simp only [hk] at mem ⊢; exact mem_aggregateLayout mem
  | array element length =>
    have room : length.toNat ≤ Int64.maxValue.toInt := by
      simpa [TypeNode.isDefinable, hk] using definable
    simp_all
  | _ => simp_all

end TypeDescription

end Stabs

import Stabs.Proofs.Description.References

/-!
# Where a description has its safe points

The safe points of a description can be read off its tokens. One stands between the end of a member
and the name of the next, one between two enumerators, and none anywhere else.
-/
namespace Stabs

namespace Token

/-- The tokens that an item with others behind it may end in. -/
def endsItem : Token → Bool
  | extent _ _ => true
  | enumerator _ _ => true
  | _ => false

/-- Whether a safe point stands between two tokens: the first ends a member or is an enumerator, and
the second starts another one. -/
def meets : Token → Token → Bool
  | extent _ _, member _ => true
  | enumerator _ _, enumerator _ _ => true
  | _, _ => false

theorem meets_eq_false {t : Token} (h : t.endsItem = false) (u : Token) : t.meets u = false := by
  cases t <;> first | rfl | cases h

/-- An item ends in a semicolon or a comma. -/
theorem text_of_meets {t u : Token} (h : t.meets u = true) :
    ∃ s, t.text = s ++ ";" ∨ t.text = s ++ "," := by
  cases t with
  | extent bitOffset bitSize => exact ⟨_, .inl rfl⟩
  | enumerator name value => exact ⟨_, .inr rfl⟩
  | _ => cases h

end Token

namespace TypeDescription

/-- Marks behind the token `prev` have their safe points where the tokens ask for them; `safe` tells
whether one stands in front. -/
def Spaced (prev : Token) (safe : Bool) : List Mark → Prop
  | [] => safe = false
  | .token u :: marks => prev.meets u = safe ∧ Spaced u false marks
  | .safePoint :: marks => safe = false ∧ Spaced prev true marks

/-- Pieces behind the token `prev` that leave such marks. A reference starts with a number and does
not end in an item. -/
def Spacing (prev : Token) (safe : Bool) : List Piece → Prop
  | [] => safe = false
  | .mark (.token u) :: pieces => prev.meets u = safe ∧ Spacing u false pieces
  | .mark .safePoint :: pieces => safe = false ∧ Spacing prev true pieces
  | .reference _ _ :: pieces => safe = false ∧ ∀ u, u.endsItem = false → Spacing u false pieces
  | .fault _ :: _ => True

variable {types : TypeTable} {N M : Numbering} {prev : Token} {safe : Bool}
  {pending rest : List Piece} {ms : List Mark}

/-- A safe point has the token that asks for it behind it. -/
theorem Spaced.exists_token (h : Spaced prev true ms) :
    ∃ u rest, ms = .token u :: rest ∧ prev.meets u = true := by
  cases ms with
  | nil => cases h
  | cons m ms =>
    cases m with
    | token u => exact ⟨u, ms, rfl, h.1⟩
    | safePoint => cases h.1

theorem spacing_members (members : List (String × Field)) {bitOffset bitSize : Nat}
    (h : Spacing .close false rest) : Spacing (.extent bitOffset bitSize) false
      ((members.flatMap fun m => .mark .safePoint :: memberPieces m) ++ .token .close :: rest) := by
  induction members generalizing bitOffset bitSize with
  | nil => exact ⟨rfl, h⟩
  | cons m members ih =>
    exact ⟨rfl, rfl, rfl, fun u quiet => ⟨Token.meets_eq_false quiet _, ih⟩⟩

theorem spacing_enumerators (values : List Enumerator) {name : String} {value : Int}
    (h : Spacing .close false rest) : Spacing (.enumerator name value) false
      ((values.flatMap fun v => .mark .safePoint :: enumeratorPieces v) ++ .token .close :: rest) := by
  induction values generalizing name value with
  | nil => exact ⟨rfl, h⟩
  | cons v values ih => exact ⟨rfl, rfl, ih⟩

theorem spacing_aggregate {category : Aggregate} {size : Option UInt64} {fields : List Field}
    (quiet : prev.endsItem = false) (h : Spacing .close false rest) :
    Spacing prev false (aggregateLayout category size fields ++ rest) := by
  rw [aggregateLayout, List.cons_append, List.append_assoc]
  refine ⟨Token.meets_eq_false quiet _, ?_⟩
  cases namedFields fields with
  | nil => exact ⟨rfl, h⟩
  | cons m members =>
    rw [separated, List.append_assoc]
    exact ⟨rfl, rfl, fun u quiet => ⟨Token.meets_eq_false quiet _, spacing_members members h⟩⟩

/-- The body of a type has its safe points where its tokens ask for them. -/
theorem spacing_layout (ty : TypeId) (n : TypeNumber) (node : TypeNode)
    (quiet : prev.endsItem = false) (h : ∀ u, u.endsItem = false → Spacing u false rest) :
    Spacing prev false (layout ty n node ++ rest) := by
  have first (u : Token) := Token.meets_eq_false quiet u
  unfold layout
  cases node.kind with
  | void => exact ⟨first _, h _ rfl⟩
  | integer min max =>
    refine ⟨first _, h _ ?_⟩
    unfold integerRange
    split <;> rfl
  | real =>
    cases node.size with
    | some size => exact ⟨first _, h _ rfl⟩
    | none => trivial
  | array element length =>
    dsimp only
    split
    · exact ⟨first _, rfl, h⟩
    · trivial
  | record fields => exact spacing_aggregate quiet (h _ rfl)
  | union fields => exact spacing_aggregate quiet (h _ rfl)
  | enumeration values =>
    rw [List.cons_append, List.append_assoc]
    refine ⟨first _, ?_⟩
    cases values with
    | nil => exact ⟨rfl, h _ rfl⟩
    | cons v values =>
      rw [separated, List.append_assoc]
      exact ⟨rfl, spacing_enumerators values (h _ rfl)⟩
  | pointer target => exact ⟨first _, rfl, h⟩
  | function returns => exact ⟨first _, rfl, h⟩

/-- A description written to its end has its safe points where its tokens ask for them. -/
theorem Steps.spaced (h : Steps types N pending ms M []) (spacing : Spacing prev safe pending) :
    Spaced prev safe ms := by
  generalize e : ([] : List Piece) = none at h
  induction h generalizing prev safe with
  | refl => subst e; exact spacing
  | @cons N M N' p pending body left ms rest first more ih =>
    subst e
    have number (n : TypeNumber) : prev.meets (.number n) = false := by cases prev <;> rfl
    cases first with
    | mark m =>
      cases m with
      | token u => exact ⟨spacing.1, ih spacing.2 rfl⟩
      | safePoint => exact ⟨spacing.1, ih spacing.2 rfl⟩
    | unknown => exact absurd ⟨_, _, rfl⟩ more.not_stopped
    | settled =>
      obtain ⟨rfl, behind⟩ := spacing
      exact ⟨number _, ih (behind _ rfl) rfl⟩
    | crossReferenced =>
      obtain ⟨rfl, behind⟩ := spacing
      exact ⟨number _, rfl, rfl, ih (behind _ rfl) rfl⟩
    | unnamed => exact absurd ⟨_, _, rfl⟩ more.not_stopped
    | defined =>
      obtain ⟨rfl, behind⟩ := spacing
      exact ⟨number _, rfl, ih (spacing_layout _ _ _ rfl behind) rfl⟩

end TypeDescription

end Stabs

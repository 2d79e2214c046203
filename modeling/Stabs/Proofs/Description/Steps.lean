import Stabs.Describe.Type
import Stabs.Proofs.Numbering

/-!
# Descriptions as a list of pieces

A description in progress is the list of pieces still to be written: marks for the emitter and
references to types. A reference expands to its number and, where it introduces the type, to the
pieces of its body, which go in front of what was pending. So the recursion through the type graph
becomes one sequence of steps, and an invariant of numbering and pending pieces is kept by a
description once every expansion keeps it.
-/
namespace Stabs.TypeDescription

/-- What a description leaves on the emitter: tokens, and the safe points between them. -/
inductive Mark where
  | token (token : Token)
  | safePoint
deriving DecidableEq

/-- What is still to be written. A description ends in failure at a `fault`. -/
inductive Piece where
  | mark (mark : Mark)
  | reference (ty : TypeId) (full : Bool)
  | fault (cause : DescribeError)
deriving DecidableEq

abbrev Piece.token (token : Token) : Piece := .mark (.token token)

/-- The pieces of every item, with a safe point between two of them. -/
def separated {α : Type} (item : α → List Piece) : List α → List Piece
  | [] => []
  | a :: rest => item a ++ rest.flatMap fun b => .mark .safePoint :: item b

theorem exists_of_mem_separated {α : Type} {item : α → List Piece} {l : List α} {p : Piece}
    (h : p ∈ separated item l) (mark : p ≠ .mark .safePoint) : ∃ a ∈ l, p ∈ item a := by
  cases l with
  | nil => cases h
  | cons a rest =>
    simp only [separated, List.mem_append, List.mem_flatMap, List.mem_cons] at h
    rcases h with h | ⟨b, mem, rfl | h⟩
    · exact ⟨a, List.mem_cons_self, h⟩
    · exact absurd rfl mark
    · exact ⟨b, List.mem_cons_of_mem _ mem, h⟩

theorem mem_separated {α : Type} {item : α → List Piece} {l : List α} {a : α} {p : Piece}
    (mem : a ∈ l) (h : p ∈ item a) : p ∈ separated item l := by
  cases l with
  | nil => cases mem
  | cons b rest =>
    rcases List.mem_cons.1 mem with rfl | mem
    · exact List.mem_append_left _ h
    · exact List.mem_append_right _ (List.mem_flatMap.2 ⟨a, mem, List.mem_cons_of_mem _ h⟩)

def memberPieces (member : String × Field) : List Piece :=
  [.token (.member member.1), .reference member.2.ty false,
    .token (.extent member.2.bitOffset.toNat member.2.bitSize.toNat)]

def enumeratorPieces (v : Enumerator) : List Piece := [.token (.enumerator v.name v.value.toInt)]

def aggregateLayout (category : Aggregate) (size : Option UInt64) (fields : List Field) :
    List Piece :=
  .token (.aggregate category (size.getD 0).toNat) ::
    (separated memberPieces (namedFields fields) ++ [.token .close])

/-- The pieces of the body that defines a type. -/
def layout (ty : TypeId) (n : TypeNumber) (node : TypeNode) : List Piece :=
  match node.kind with
  | .void => [.token (.itself n)]
  | .integer min max => [.token (integerRange ty min max)]
  | .real =>
    match node.size with
    | some size => [.token (.range .int size.toNat 0)]
    | none => [.fault (.unsizedReal ty)]
  | .array element length =>
    if length.toNat ≤ Int64.maxValue.toInt then
      [.token (.bounds (length.toNat - 1)), .reference element false]
    else [.fault (.arrayTooLong ty length)]
  | .record fields => aggregateLayout .record node.size fields
  | .union fields => aggregateLayout .union node.size fields
  | .enumeration values =>
    .token .enumeration :: (separated enumeratorPieces values ++ [.token .close])
  | .pointer target => [.token .pointer, .reference target false]
  | .function returns => [.token .function, .reference (returns.getD .void) false]

/-- The first piece of a description with the marks it leaves, the numbering after it and the
pieces that take its place. -/
inductive Expands (types : TypeTable) (N : Numbering) :
    Piece → List Mark → Numbering → List Piece → Prop
  | mark (m : Mark) : Expands types N (.mark m) [m] N []
  | unknown {ty : TypeId} {full : Bool} (missing : types.get? ty = none) :
      Expands types N (.reference ty full) [] N [.fault (.unknownType ty)]
  | settled {ty : TypeId} {full : Bool} {node : TypeNode} (known : types.get? ty = some node)
      (enough : isSettled (N.status (N.allocate ty).1) full = true) :
      Expands types N (.reference ty full) [.token (.number (N.allocate ty).1)]
        (N.allocate ty).2 []
  | crossReferenced {ty : TypeId} {full : Bool} {node : TypeNode} {category : Aggregate}
      {name : TypeName} (known : types.get? ty = some node)
      (unsettled : isSettled (N.status (N.allocate ty).1) full = false)
      (crossed : crossReference? node full = some category) (named : node.name = some name) :
      Expands types N (.reference ty full)
        [.token (.number (N.allocate ty).1), .token .equals,
          .token (.crossReference category name.text)]
        (N.introduce ty .crossReferenced) []
  | unnamed {ty : TypeId} {full : Bool} {node : TypeNode} {category : Aggregate}
      (known : types.get? ty = some node)
      (unsettled : isSettled (N.status (N.allocate ty).1) full = false)
      (crossed : crossReference? node full = some category) (unnamed : node.name = none) :
      Expands types N (.reference ty full)
        [.token (.number (N.allocate ty).1), .token .equals] (N.allocate ty).2
        [.fault (.unnamedType ty node.kind.category)]
  | defined {ty : TypeId} {full : Bool} {node : TypeNode} (known : types.get? ty = some node)
      (unsettled : isSettled (N.status (N.allocate ty).1) full = false)
      (clear : crossReference? node full = none) :
      Expands types N (.reference ty full)
        [.token (.number (N.allocate ty).1), .token .equals] (N.introduce ty .defined)
        (layout ty (N.allocate ty).1 node)

/-- Some pieces are written, from the front, and others are left. -/
inductive Steps (types : TypeTable) :
    Numbering → List Piece → List Mark → Numbering → List Piece → Prop
  | refl (N : Numbering) (pending : List Piece) : Steps types N pending [] N pending
  | cons {N M N' : Numbering} {p : Piece} {pending body left : List Piece} {ms rest : List Mark}
      (first : Expands types N p ms M body) (more : Steps types M (body ++ pending) rest N' left) :
      Steps types N (p :: pending) (ms ++ rest) N' left

namespace Steps

variable {types : TypeTable} {N M N' : Numbering} {pending middle left others : List Piece}
  {ms ms' : List Mark}

theorem single {p : Piece} {body : List Piece} (first : Expands types N p ms M body) :
    Steps types N [p] ms M body := by
  have step := cons first (refl M (body ++ []))
  rwa [List.append_nil, List.append_nil] at step

theorem trans (first : Steps types N pending ms M middle)
    (second : Steps types M middle ms' N' left) : Steps types N pending (ms ++ ms') N' left := by
  induction first with
  | refl => exact second
  | cons expansion _ ih =>
    rw [List.append_assoc]
    exact cons expansion (ih second)

/-- Pieces further back wait for their turn. -/
theorem append (h : Steps types N pending ms N' left) (others : List Piece) :
    Steps types N (pending ++ others) ms N' (left ++ others) := by
  induction h with
  | refl => exact refl _ _
  | cons expansion _ ih =>
    rw [List.append_assoc] at ih
    exact cons expansion ih

/-- A description written to its end wrote the front of its pieces first. -/
theorem split (h : Steps types N (pending ++ others) ms N' []) :
    ∃ front M back, Steps types N pending front M [] ∧ Steps types M others back N' [] ∧
      ms = front ++ back := by
  generalize e : pending ++ others = all at h
  generalize n : ([] : List Piece) = none at h
  induction h generalizing pending with
  | refl N all =>
    subst n
    obtain ⟨rfl, rfl⟩ := List.append_eq_nil_iff.1 e
    exact ⟨[], N, [], refl _ _, refl _ _, rfl⟩
  | @cons N M N' p tail body left ms rest first more ih =>
    subst n
    cases pending with
    | nil =>
      rw [List.nil_append] at e
      exact ⟨[], N, ms ++ rest, refl _ _, e ▸ cons first more, rfl⟩
    | cons q waiting =>
      obtain ⟨rfl, rfl⟩ := List.cons_eq_cons.1 e
      obtain ⟨front, K, back, hf, hb, rfl⟩ := ih (List.append_assoc body waiting others) rfl
      exact ⟨ms ++ front, K, back, cons first hf, hb, (List.append_assoc ..).symm⟩

/-- Nothing is written where nothing is pending. -/
theorem of_nil (h : Steps types N [] ms N' left) : ms = [] ∧ N' = N := by
  cases h
  exact ⟨rfl, rfl⟩

/-- A mark in front is written as it is. -/
theorem of_mark {m : Mark} (h : Steps types N (.mark m :: pending) ms N' []) :
    ∃ rest, ms = m :: rest ∧ Steps types N pending rest N' [] := by
  cases h with
  | cons first more =>
    cases first
    exact ⟨_, rfl, more⟩

/-- A piece in front is written before the others. -/
theorem of_cons {p : Piece} (h : Steps types N (p :: pending) ms N' []) :
    ∃ front M back, Steps types N [p] front M [] ∧ Steps types M pending back N' [] ∧
      ms = front ++ back :=
  @split types N N' [p] pending ms h

end Steps

end Stabs.TypeDescription

import Stabs.Proofs.Unit.Order
import Stabs.Samples

/-!
# Markers are brackets

The markers of a unit are read off its function bodies. They nest as the blocks do, the left ones
carry the numbers from the first block on in the order in which the blocks are entered, and every
number has one left and one right marker.
-/
namespace Stabs

namespace Record

def isMarker : Record → Bool
  | marker _ _ => true
  | _ => false

def label? : Record → Option String
  | marker _ label => some label
  | _ => none

end Record

namespace Statement

/-- How many blocks the statements enter, from inside or from outside of a scope. -/
def entered (enclosed : Bool) (statements : List Statement) : Nat :=
  if enclosed then (allScopes statements).length else allBlocks statements

mutual

/-- The markers of a statement whose first block has the number `next`. A scope that is enclosed by
another one is a block. -/
def markers (enclosed : Bool) (next : Nat) : Statement → List Record
  | compound body => allMarkers enclosed next body
  | loop body => allMarkers enclosed next body
  | branch thenPart otherwise =>
    allMarkers enclosed next thenPart ++
      allMarkers enclosed (next + entered enclosed thenPart) otherwise
  | scope _ _ body =>
    if enclosed then .left next :: (allMarkers true (next + 1) body ++ [.right next])
    else allMarkers true next body

def allMarkers (enclosed : Bool) (next : Nat) : List Statement → List Record
  | [] => []
  | statement :: rest =>
    markers enclosed next statement ++ allMarkers enclosed (next + entered enclosed [statement]) rest

end

end Statement

/-- The markers of items, with the blocks numbered through. -/
def Item.markers (next : Nat) : List Item → List Record
  | [] => []
  | item :: rest => Statement.allMarkers false next item.body ++
      markers (next + Statement.allBlocks item.body) rest

def CompilationUnit.markers (u : CompilationUnit) (first : Nat) : List Record :=
  Item.markers first u.items

/-- A left marker and a right one of the same number around what is nested in between. -/
inductive Nested : List Record → Prop
  | nil : Nested []
  | block (n : Nat) {inner rest : List Record} (inside : Nested inner) (behind : Nested rest) :
      Nested (.left n :: (inner ++ .right n :: rest))

/-- Markers of `count` blocks that are numbered from `next` on. -/
structure Numbered (next count : Nat) (markers : List Record) : Prop where
  nested : Nested markers
  lefts : markers.filter (·.code = .leftBracket) = (List.range' next count).map .left
  pairs : markers.Perm ((List.range' next count).flatMap fun n => [.left n, .right n])

theorem Nested.append {a b : List Record} (ha : Nested a) (hb : Nested b) : Nested (a ++ b) := by
  induction ha with
  | nil => exact hb
  | block n inside _ _ ih =>
    rw [List.cons_append, List.append_assoc, List.cons_append]
    exact .block n inside ih

namespace Numbered

theorem nil (next : Nat) : Numbered next 0 [] := ⟨.nil, rfl, .refl _⟩

theorem append {next n m : Nat} {a b : List Record} (ha : Numbered next n a)
    (hb : Numbered (next + n) m b) : Numbered next (n + m) (a ++ b) where
  nested := ha.nested.append hb.nested
  lefts := by
    rw [List.filter_append, ha.lefts, hb.lefts, ← List.map_append, List.range'_append_1]
  pairs := by
    rw [← List.range'_append_1, List.flatMap_append]
    exact ha.pairs.append hb.pairs

theorem block {next n : Nat} {inner : List Record} (h : Numbered (next + 1) n inner) :
    Numbered next (n + 1) (.left next :: (inner ++ [.right next])) where
  nested := .block next h.nested .nil
  lefts := by
    have left : (Record.left next).code = .leftBracket := rfl
    have right : (Record.right next).code = .rightBracket := rfl
    rw [List.range'_succ, List.map_cons, ← h.lefts]
    simp [left, right]
  pairs := by
    rw [List.range'_succ, List.flatMap_cons]
    have moved : (inner ++ [Record.right next]).Perm (.right next :: inner) :=
      List.perm_append_singleton ..
    exact (moved.trans (h.pairs.cons _)).cons _

end Numbered

namespace Statement

theorem entered_cons (enclosed : Bool) (statement : Statement) (rest : List Statement) :
    entered enclosed (statement :: rest) =
      entered enclosed [statement] + entered enclosed rest := by
  cases enclosed <;> simp [entered, allScopes, allBlocks]

theorem entered_compound (enclosed : Bool) (body : List Statement) :
    entered enclosed [.compound body] = entered enclosed body := by
  cases enclosed <;> simp [entered, allScopes, allBlocks, scopes, blocks]

theorem entered_loop (enclosed : Bool) (body : List Statement) :
    entered enclosed [.loop body] = entered enclosed body := by
  cases enclosed <;> simp [entered, allScopes, allBlocks, scopes, blocks]

theorem entered_branch (enclosed : Bool) (thenPart otherwise : List Statement) :
    entered enclosed [.branch thenPart otherwise] =
      entered enclosed thenPart + entered enclosed otherwise := by
  cases enclosed <;> simp [entered, allScopes, allBlocks, scopes, blocks]

theorem entered_scope (tags : List Tag) (vars : List Declaration) (body : List Statement) :
    entered true [.scope tags vars body] = entered true body + 1 ∧
      entered false [.scope tags vars body] = entered true body := by
  simp [entered, allScopes, allBlocks, scopes, blocks]

mutual

/-- The markers of a statement are numbered from the next block on. -/
theorem numbered_markers (enclosed : Bool) (next : Nat) (statement : Statement) :
    Numbered next (entered enclosed [statement]) (markers enclosed next statement) := by
  cases statement with
  | compound body =>
    rw [markers, entered_compound]
    exact numbered_allMarkers enclosed next body
  | loop body =>
    rw [markers, entered_loop]
    exact numbered_allMarkers enclosed next body
  | branch thenPart otherwise =>
    rw [markers, entered_branch]
    exact (numbered_allMarkers enclosed next thenPart).append
      (numbered_allMarkers enclosed _ otherwise)
  | scope tags vars body =>
    rw [markers]
    cases enclosed with
    | true =>
      rw [if_pos rfl, (entered_scope tags vars body).1]
      exact (numbered_allMarkers true (next + 1) body).block
    | false =>
      rw [if_neg nofun, (entered_scope tags vars body).2]
      exact numbered_allMarkers true next body

theorem numbered_allMarkers (enclosed : Bool) (next : Nat) (statements : List Statement) :
    Numbered next (entered enclosed statements) (allMarkers enclosed next statements) := by
  cases statements with
  | nil => cases enclosed <;> exact .nil next
  | cons statement rest =>
    rw [allMarkers, entered_cons]
    exact (numbered_markers enclosed next statement).append (numbered_allMarkers enclosed _ rest)

end

end Statement

theorem CompilationUnit.numbered_markers (u : CompilationUnit) (first : Nat) :
    Numbered first u.blocks (u.markers first) := by
  unfold blocks markers
  induction u.items generalizing first with
  | nil => exact .nil first
  | cons item rest ih =>
    rw [Item.markers, List.flatMap_cons, Statement.allBlocks_append]
    exact (Statement.numbered_allMarkers false first item.body).append (ih _)

theorem label_inj {head : String} {a b : Nat} (h : head ++ a.repr = head ++ b.repr) : a = b := by
  have digits := congrArg String.toList h
  rw [String.toList_append, String.toList_append, List.append_cancel_left_eq, Nat.toList_repr,
    Nat.toList_repr] at digits
  rw [← Nat.ofDigitChars_ten_toDigits (n := a), digits, Nat.ofDigitChars_ten_toDigits]

theorem left_label_ne_right (a b : Nat) : "LBB" ++ a.repr ≠ "LBE" ++ b.repr := by
  intro h
  have digits := congrArg String.toList h
  rw [String.toList_append, String.toList_append] at digits
  simp at digits

/-- The labels of all markers are different. -/
theorem Numbered.distinct {next count : Nat} {markers : List Record}
    (h : Numbered next count markers) : (markers.filterMap Record.label?).Nodup := by
  refine (h.pairs.filterMap Record.label?).nodup_iff.2 ?_
  have labels : ((List.range' next count).flatMap fun n => [Record.left n, .right n]).filterMap
      Record.label? = (List.range' next count).flatMap fun n => ["LBB" ++ n.repr, "LBE" ++ n.repr] := by
    rw [List.filterMap_flatMap]
    rfl
  have ascending : (List.range' next count).Pairwise (· < ·) := List.pairwise_lt_range'
  rw [labels, List.nodup_iff_pairwise_ne, List.pairwise_flatMap]
  refine ⟨fun n _ => by simp, ascending.imp fun {a b} less x hx y hy => ?_⟩
  have ne : a ≠ b := Nat.ne_of_lt less
  simp only [List.mem_cons, List.not_mem_nil, or_false] at hx hy
  rcases hx with rfl | rfl <;> rcases hy with rfl | rfl
  · exact fun e => ne (label_inj e)
  · exact left_label_ne_right a b
  · exact (left_label_ne_right b a).symm
  · exact fun e => ne (label_inj e)

/-- Only markers have labels. -/
theorem filterMap_label (records : List Record) :
    (records.filter Record.isMarker).filterMap Record.label? = records.filterMap Record.label? := by
  rw [List.filterMap_filter]
  congr
  funext record
  cases record <;> rfl

/-- The markers among the records of entries. -/
def markersOf (entries : List Entry) : List Record :=
  (entries.flatMap Entry.records).filter Record.isMarker

theorem markersOf_append (a b : List Entry) :
    markersOf (a ++ b) = markersOf a ++ markersOf b := by
  rw [markersOf, List.flatMap_append, List.filter_append, markersOf, markersOf]

theorem filter_segments (code : Code) (value : Placement) (segment : Segment)
    (marks : List TypeDescription.Mark) :
    (segments code value segment marks).filter Record.isMarker = [] := by
  refine List.filter_eq_nil_iff.2 fun record mem => ?_
  have text := isSome_text?_segments code value segment marks record mem
  cases record with
  | symbol => exact Bool.false_ne_true
  | _ => cases text

/-- A description adds no marker. -/
theorem markersOf_description (symbol : Symbol) (marks : List TypeDescription.Mark)
    (entries : List Entry) : markersOf (.description symbol marks :: entries) = markersOf entries := by
  rw [markersOf, List.flatMap_cons, List.filter_append, markersOf]
  exact congrArg (· ++ _) (filter_segments _ _ _ marks)

theorem WritesTags.markers {tags : List Tag} {entries : List Entry}
    (h : WritesTags tags entries) : markersOf entries = [] := by
  induction h with
  | nil => rfl
  | skip _ _ ih => exact ih
  | written marks _ _ ih => rw [markersOf_description, ih]

theorem WritesChosen.markers {choice : Declaration → Except DescribeError (Option Symbol)}
    {decls : List Declaration} {entries : List Entry} (h : WritesChosen choice decls entries) :
    markersOf entries = [] := by
  induction h with
  | nil => rfl
  | skip _ _ ih => exact ih
  | written marks _ _ ih => rw [markersOf_description, ih]

variable {u : CompilationUnit} {target : Target} {entries : List Entry} {next next' : Nat}

theorem WritesScope.markers {tags : List Tag} {vars params : List Declaration}
    (h : WritesScope u target tags vars params entries) : markersOf entries = [] := by
  obtain ⟨first, second, third⟩ := h
  rw [markersOf_append, markersOf_append, first.markers, second.markers, third.markers]
  rfl

theorem WritesSymbol.markers {decl : Declaration} (h : WritesSymbol u target decl entries) :
    markersOf entries = [] := by
  obtain ⟨first, second⟩ := h
  rw [markersOf_append, first.markers, second.markers]
  rfl

mutual

/-- Where the entries of a statement are written, its markers are. -/
theorem WritesStatement.markers {statement : Statement} {enclosed : Bool}
    {params : List Declaration} {entries : List Entry} {next next' : Nat}
    (h : WritesStatement u target enclosed params next statement entries next') :
    markersOf entries = statement.markers enclosed next ∧
      next' = next + Statement.entered enclosed [statement] := by
  cases h with
  | compound inner =>
    rw [Statement.markers, Statement.entered_compound]
    exact inner.markers
  | loop inner =>
    rw [Statement.markers, Statement.entered_loop]
    exact inner.markers
  | branch before behind =>
    obtain ⟨first, rfl⟩ := before.markers
    obtain ⟨second, rfl⟩ := behind.markers
    rw [Statement.markers, Statement.entered_branch, markersOf_append, first, second, Nat.add_assoc]
    exact ⟨rfl, rfl⟩
  | @outermost _ vars tags _ _ body _ _ scope inner =>
    obtain ⟨inside, rfl⟩ := inner.markers
    rw [Statement.markers, markersOf_append, scope.markers, inside,
      (Statement.entered_scope tags vars body).2]
    exact ⟨rfl, rfl⟩
  | @block _ vars tags _ _ body _ entries scope inner =>
    obtain ⟨inside, rfl⟩ := inner.markers
    have around : markersOf (.record (.left next) :: (entries ++ [.record (.right next)])) =
        .left next :: (markersOf entries ++ [.right next]) :=
      congrArg (Record.left next :: ·) (markersOf_append entries [.record (.right next)])
    rw [Statement.markers, markersOf_append, scope.markers, around, inside,
      (Statement.entered_scope tags vars body).1]
    exact ⟨rfl, by omega⟩

theorem WritesStatements.markers {statements : List Statement} {enclosed : Bool}
    {params : List Declaration} {entries : List Entry} {next next' : Nat}
    (h : WritesStatements u target enclosed params next statements entries next') :
    markersOf entries = Statement.allMarkers enclosed next statements ∧
      next' = next + Statement.entered enclosed statements := by
  cases h with
  | nil => cases enclosed <;> exact ⟨rfl, rfl⟩
  | @cons _ _ _ _ _ statement rest _ _ head tail =>
    obtain ⟨first, rfl⟩ := head.markers
    obtain ⟨second, rfl⟩ := tail.markers
    rw [Statement.allMarkers, Statement.entered_cons enclosed statement rest, markersOf_append,
      first, second, Nat.add_assoc]
    exact ⟨rfl, rfl⟩

end

theorem WritesItem.markers {item : Item} (h : WritesItem u target next item entries next') :
    markersOf entries = Statement.allMarkers false next item.body ∧
      next' = next + Statement.allBlocks item.body := by
  cases h with
  | symbol symbol => exact ⟨symbol.markers, rfl⟩
  | function symbol params body =>
    obtain ⟨inside, rfl⟩ := body.markers
    rw [markersOf_append, markersOf_append, symbol.markers, params.markers, inside]
    exact ⟨rfl, rfl⟩

theorem WritesItems.markers {items : List Item}
    (h : WritesItems u target next items entries next') :
    markersOf entries = Item.markers next items ∧
      next' = next + Statement.allBlocks (items.flatMap Item.body) := by
  induction h with
  | nil => exact ⟨rfl, rfl⟩
  | cons head _ ih =>
    obtain ⟨first, rfl⟩ := head.markers
    obtain ⟨second, rfl⟩ := ih
    rw [Item.markers, List.flatMap_cons, Statement.allBlocks_append, markersOf_append, first, second,
      Nat.add_assoc]
    exact ⟨rfl, rfl⟩

theorem WritesPrelude.markers (h : WritesPrelude u target entries) : markersOf entries = [] := by
  obtain @⟨typedefs, named⟩ := h
  change markersOf typedefs = []
  induction typedefs with
  | nil => rfl
  | cons entry typedefs ih =>
    obtain ⟨ty, node, name, marks, -, -, rfl⟩ := named _ List.mem_cons_self
    rw [markersOf_description]
    exact ih fun entry mem => named entry (List.mem_cons_of_mem _ mem)

theorem WritesUnit.markers (h : WritesUnit u target entries next) :
    markersOf entries = u.markers target.firstBlock.toNat ∧
      next = target.firstBlock.toNat + u.blocks := by
  obtain ⟨front, items⟩ := h
  obtain ⟨behind, rfl⟩ := items.markers
  rw [markersOf_append, front.markers, behind]
  exact ⟨rfl, rfl⟩

/-- The markers of a unit are those of its function bodies and nothing else, with the blocks
numbered from the first one on in the order in which they are entered, and no number wraps around.
They are nested, each number has one left and one right marker, and all labels are different. The
tags and variables of a block are described in front of its left marker, and all that is nested in
it is written between its markers. -/
theorem Writer.describe_markers {writer after : Writer} {records : List Record}
    (h : writer.describe u = (.ok records, after)) :
    records.filter Record.isMarker = u.markers writer.target.firstBlock.toNat ∧
      Numbered writer.target.firstBlock.toNat u.blocks (records.filter Record.isMarker) ∧
        writer.target.firstBlock.toNat + u.blocks < UInt32.size ∧
          (records.filterMap Record.label?).Nodup ∧
            ∃ entries, records = entries.flatMap Entry.records ∧
              WritesUnit u writer.target entries (writer.target.firstBlock.toNat + u.blocks) := by
  obtain ⟨entries, next, written, bound, rfl⟩ := Writer.describe_writes h
  obtain ⟨same, rfl⟩ := written.markers
  have numbered := u.numbered_markers writer.target.firstBlock.toNat
  rw [← same, markersOf] at numbered
  refine ⟨same, numbered, bound, ?_, entries, rfl, written⟩
  rw [← filterMap_label]
  exact numbered.distinct

/-- A scope in a loop is a block, and so are the scopes of the two branches inside it. -/
theorem Samples.nestedScopes_markers :
    ∃ records after, (Writer.ofTarget {}).describe nestedScopes = (.ok records, after) ∧
      records.filter Record.isMarker =
        [.left 2, .left 3, .right 3, .left 4, .right 4, .right 2] ∧
      (records.filterMap Record.label?).Nodup := by
  have run : ((Writer.ofTarget {}).describe nestedScopes).1.toOption.isSome = true := by
    decide +kernel
  cases h : (Writer.ofTarget {}).describe nestedScopes with
  | mk result after =>
    rw [h] at run
    cases result with
    | error cause => cases run
    | ok records =>
      obtain ⟨markers, -, -, distinct, -⟩ := Writer.describe_markers h
      exact ⟨records, after, rfl, markers.trans (by decide +kernel), distinct⟩

end Stabs

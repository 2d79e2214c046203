import Stabs.Proofs.Unit.Journal
import Stabs.Samples

/-!
# Units with more items

Nothing that a unit writes looks at the items behind. A declaration, a statement or an item is
written from the types and the tags of its unit alone, so a unit with further items writes what the
shorter one does and goes on from there. The output is only appended to, numbers stay with their
types and statuses move forward.
-/
namespace Stabs

open TypeDescription

namespace CompilationUnit

/-- The unit with further items behind its own. -/
def append (u : CompilationUnit) (more : List Item) : CompilationUnit :=
  { u with items := u.items ++ more }

end CompilationUnit

variable {u v : CompilationUnit} {target : Target} {c c' : Context}

namespace Context

theorem emitSymbol_congr (types : u.types = v.types) (tags : u.tags = v.tags) (decl : Declaration)
    (isLocal : Bool) : emitSymbol u target decl isLocal = emitSymbol v target decl isLocal := by
  rw [emitSymbol, emitSymbol, types, tags]

mutual

/-- A statement is written from the types and the tags of the unit. -/
theorem walk_congr (types : u.types = v.types) (tags : u.tags = v.tags) (depth : Nat)
    (params : List Declaration) (statement : Statement) :
    walk u target depth params statement = walk v target depth params statement := by
  cases statement with
  | compound body =>
    rw [walk, walk]
    exact walkAll_congr types tags depth [] body
  | loop body =>
    rw [walk, walk]
    exact walkAll_congr types tags depth [] body
  | branch thenPart otherwise =>
    rw [walk, walk, walkAll_congr types tags depth [] thenPart,
      walkAll_congr types tags depth [] otherwise]
  | scope names vars body =>
    rw [walk, walk, types, walkAll_congr types tags (depth + 1) [] body]
    simp only [emitSymbol_congr types tags]

theorem walkAll_congr (types : u.types = v.types) (tags : u.tags = v.tags) (depth : Nat)
    (params : List Declaration) (statements : List Statement) :
    walkAll u target depth params statements = walkAll v target depth params statements := by
  cases statements with
  | nil => rw [walkAll, walkAll]
  | cons statement rest =>
    rw [walkAll, walkAll, walk_congr types tags depth params statement,
      walkAll_congr types tags depth params rest]

end

theorem emitItem_congr (types : u.types = v.types) (tags : u.tags = v.tags) (item : Item) :
    emitItem u target item = emitItem v target item := by
  cases item with
  | symbol decl => exact emitSymbol_congr types tags decl false
  | function definition =>
    rw [emitItem, emitItem, emitFunction, emitFunction, emitSymbol_congr types tags, types,
      walkAll_congr types tags]

/-- A unit with further items is the unit, and then these items. -/
theorem emitUnit_append (u : CompilationUnit) (target : Target) (more : List Item) :
    emitUnit (u.append more) target =
      (do emitUnit u target; forM more (emitItem u target)) := by
  have same : emitItem (u.append more) target = emitItem u target :=
    funext (emitItem_congr rfl rfl)
  have items : (u.append more).items = u.items ++ more := rfl
  simp only [emitUnit, same, items, List.forM_append, bind_assoc]
  rfl

/-- Further items add to the output and move the numbering forward. -/
theorem emitItems_extends {more : List Item}
    (h : forM more (emitItem u target) c = .ok () c') :
    c.out.records.toList <+: c'.out.records.toList ∧ c.numbering.Grows c'.numbering := by
  rw [emitItems_eq] at h
  obtain ⟨journal, performs⟩ := performAll_ok h
  exact ⟨⟨_, performs.toList_records.symm⟩, performs.grows⟩

end Context

/-- A unit that can be described with further items can be described without them. The records of
the shorter unit stand at the front of those of the longer one, every number it gave out is the
number of the same type, and no status is behind the one it had. -/
theorem Writer.describe_append {writer after : Writer} {records : List Record} {more : List Item}
    (h : writer.describe (u.append more) = (.ok records, after)) :
    ∃ front before, writer.describe u = (.ok front, before) ∧ front <+: records ∧
      (∀ ty n, before.context.numbering.number? ty = some n →
        after.context.numbering.number? ty = some n) ∧
      ∀ ty, (before.context.numbering.statusOf ty).rank ≤
        (after.context.numbering.statusOf ty).rank := by
  rw [Writer.describe, Context.reset_eq] at h
  split at h
  · next _ last run =>
    cases h
    rw [Context.emitUnit_append] at run
    obtain ⟨_, c, unit, items⟩ := Context.bind_ok run
    obtain ⟨front, grows⟩ := Context.emitItems_extends items
    rw [Writer.describe, Context.reset_eq]
    rw [unit]
    exact ⟨_, _, rfl, front, fun _ _ => grows.number?, grows.status⟩
  · cases h

namespace Samples

/-- The list of nodes before its function: the node is described by its typedef already. -/
theorem linkedList_append : ∃ records after front before,
    (Writer.ofTarget {}).describe linkedList = (.ok records, after) ∧
      (Writer.ofTarget {}).describe { linkedList with items := linkedList.items.take 2 } =
        (.ok front, before) ∧
      front <+: records ∧
      (∀ ty n, before.context.numbering.number? ty = some n →
        after.context.numbering.number? ty = some n) ∧
      ∀ ty, (before.context.numbering.statusOf ty).rank ≤
        (after.context.numbering.statusOf ty).rank := by
  have run : ((Writer.ofTarget {}).describe linkedList).1.toOption.isSome = true := by
    decide +kernel
  cases h : (Writer.ofTarget {}).describe linkedList with
  | mk result after =>
    rw [h] at run
    cases result with
    | error cause => cases run
    | ok records =>
      obtain ⟨front, before, first, rest⟩ := @Writer.describe_append
        { linkedList with items := linkedList.items.take 2 } _ _ _ (linkedList.items.drop 2) h
      exact ⟨records, after, front, before, rfl, first, rest⟩

end Samples

end Stabs

import Stabs.Proofs.Unit.Closure
import Stabs.Proofs.Unit.Declarations

/-!
# Which tags are described

A tag is due if it has a name and its type is complete. The tags of blocks are all flushed, those of
the file only in front of an item. A tag that is flushed has its type defined afterwards, and the
body of a defined type stands in one place. A type that is defined is never described for a tag
again, so no type has two descriptions for tags. What is left out are the tags of a file without
items: there a complete type may end as a cross-reference, or without a number.
-/
namespace Stabs

open TypeDescription

/-- A tag that has a name, of a type that is complete. -/
structure Tag.Due (types : TypeTable) (tag : Tag) : Prop where
  named : tag.name.isSome = true
  complete : ∃ node, types.get? tag.ty = some node ∧ node.isComplete = true

/-- A type that is defined, with its body in one place of the output. -/
def WrittenOnce (N : Numbering) (records : List Record) (ty : TypeId) : Prop :=
  N.statusOf ty = .defined ∧ ∃ n, N.number? ty = some n ∧
    (references (records.flatMap Record.tokens)).count ⟨n, .definition⟩ = 1

/-- The number that a description starts with. -/
def Description.number? (d : Description) : Option TypeNumber := d.row?.bind Row.number

/-- The types that entries describe for tags. -/
def taggedOf (entries : List Entry) : List TypeId :=
  ((entries.filterMap Entry.symbol?).filter (·.letter = some 'T')).map Symbol.ty

/-- A tag is only flushed if its type is complete, and other symbols do not look like tags. -/
def Task.TagsComplete (types : TypeTable) : Task → Prop
  | .tag _ ty => ∃ node, types.get? ty = some node ∧ node.isComplete = true
  | .symbol s => s.letter ≠ some 'T'
  | _ => True

variable {u : CompilationUnit} {target : Target} {types : TypeTable} {N : Numbering}
  {c c' : Context} {task : Task} {tasks : List Task} {entries journal : List Entry} {ty : TypeId}

theorem taggedOf_append (a b : List Entry) : taggedOf (a ++ b) = taggedOf a ++ taggedOf b := by
  rw [taggedOf, List.filterMap_append, List.filter_append, List.map_append, taggedOf, taggedOf]

theorem taggedOf_description (symbol : Symbol) (marks : List Mark) :
    taggedOf [.description symbol marks] =
      if symbol.letter = some 'T' then [symbol.ty] else [] := by
  rw [taggedOf, symbols_description]
  by_cases tag : symbol.letter = some 'T' <;> simp [tag]

/-- The types that are described for tags are found in the records. -/
theorem numbers_tags (fits : ∀ entry ∈ entries, entry.Fits N) :
    ((descriptions (entries.flatMap Entry.records)).filter Description.isTag).map
      Description.number? = (taggedOf entries).map N.number? := by
  have rows := map_filter_of_map_eq (described_entries fits) id
  have numbers := congrArg (List.map fun row : Option Row => row.bind Row.number) rows
  have start : Description.number? = fun d => d.row?.bind Row.number := rfl
  simpa [taggedOf, start, Function.comp_def, Symbol.row] using numbers

/-- A definition that is written is written once. -/
theorem Orderly.count_definition {refs : List Reference} {n : TypeNumber}
    (h : Orderly types N refs) (mem : ⟨n, .definition⟩ ∈ refs) :
    refs.count ⟨n, .definition⟩ = 1 := by
  obtain ⟨before, behind, rfl, first⟩ := List.eq_append_cons_of_mem mem
  have second : ⟨n, .definition⟩ ∉ behind := by
    intro again
    obtain ⟨middle, rest, rfl⟩ := List.append_of_mem again
    have fits := h.fits (before ++ ⟨n, .definition⟩ :: middle) ⟨n, .definition⟩ rest
      (by rw [List.append_assoc, List.cons_append])
    cases fits.once (List.mem_append_right _ List.mem_cons_self)
  rw [List.count_append, List.count_cons_self, List.count_eq_zero_of_not_mem first,
    List.count_eq_zero_of_not_mem second]

theorem Orderly.writtenOnce {records : List Record}
    (h : Orderly types N (references (records.flatMap Record.tokens)))
    (defined : N.statusOf ty = .defined) : WrittenOnce N records ty := by
  have seen : N.statusOf ty ≠ .unseen := by simp [defined]
  obtain ⟨n, number⟩ := Numbering.exists_number seen
  exact ⟨defined, n, number, h.count_definition ((h.defined ty n number).1 defined)⟩

namespace Task

theorem tagsComplete_of_chosen {choice : Except DescribeError (Option Symbol)} {row : Option Row}
    (shows : Shows .empty choice row) (h : task ∈ ofChoice choice) : task.TagsComplete types := by
  obtain ⟨cause, -, rfl⟩ | ⟨symbol, chosen, rfl⟩ := mem_ofChoice.1 h
  · trivial
  · exact (shows _ chosen).2 symbol rfl

theorem tagsComplete_of_mem (h : task ∈ ofUnit u target) : task.TagsComplete u.types := by
  cases origin_of_mem h with
  | tag mem flushed =>
    obtain ⟨name, -, ⟨-, rfl⟩ | ⟨node, known, complete, rfl⟩⟩ := mem_ofTag.1 flushed
    · trivial
    · exact ⟨node, known, complete⟩
  | declaration mem chosen =>
    exact tagsComplete_of_chosen (Symbol.shows_ofDeclaration? _) chosen
  | parameter mem chosen =>
    have shows := @Symbol.shows_ofParameter u.types target .empty
    exact tagsComplete_of_chosen (shows _) chosen
  | registerParameter mem chosen =>
    have shows := @Symbol.shows_ofRegisterParameter? u.types target .empty
    exact tagsComplete_of_chosen (shows _) chosen
  | _ => trivial

end Task

/-- A type is described for a tag when it is not defined yet, and is defined then. -/
theorem Acts.tagged (h : Acts types c task entries c') (sound : Sound types c.numbering)
    (complete : task.TagsComplete types) : (taggedOf entries).Nodup ∧ ∀ ty ∈ taggedOf entries,
      c.numbering.statusOf ty ≠ .defined ∧ c'.numbering.statusOf ty = .defined := by
  cases h with
  | @described _ symbol marks M due steps =>
    rw [taggedOf_description]
    split
    · next tag =>
      refine ⟨List.pairwise_singleton _ _, fun ty mem => ?_⟩
      cases List.mem_singleton.1 mem
      have done := steps.done sound _ List.mem_cons_self
      cases task with
      | typedef ty =>
        rw [Task.due] at due
        split at due
        · cases due
        · obtain ⟨name, -, rfl⟩ := Option.map_eq_some_iff.1 due
          cases tag
      | tag name ty =>
        rw [Task.due] at due
        split at due
        · cases due
        · next waiting =>
          cases due
          obtain ⟨node, known, -, defined, -⟩ := done
          obtain ⟨node', known', complete⟩ := complete
          cases known.symm.trans known'
          refine ⟨waiting, defined (TypeNode.crossReference?_true_eq_none.2 ?_)⟩
          simp [TypeNode.isForward, complete]
      | symbol other =>
        cases due
        exact absurd tag complete
      | _ => cases due
    · exact ⟨List.nodup_nil, List.forall_mem_nil _⟩
  | _ => exact ⟨List.nodup_nil, List.forall_mem_nil _⟩

/-- Across all tasks the types that are described for tags are distinct. -/
theorem Performs.tagged (h : Performs types c tasks journal c') (sound : Sound types c.numbering)
    (complete : ∀ task ∈ tasks, task.TagsComplete types) :
    (taggedOf journal).Nodup ∧ ∀ ty ∈ taggedOf journal,
      c.numbering.statusOf ty ≠ .defined ∧ c'.numbering.statusOf ty = .defined := by
  induction h with
  | nil => exact ⟨List.nodup_nil, List.forall_mem_nil _⟩
  | cons first rest ih =>
    obtain ⟨distinct, now⟩ := first.tagged sound (complete _ List.mem_cons_self)
    obtain ⟨others, later⟩ := ih (first.sound sound) fun task mem =>
      complete task (List.mem_cons_of_mem _ mem)
    have before := first.grows
    have after := rest.grows
    rw [taggedOf_append]
    refine ⟨List.nodup_append.2 ⟨distinct, others, ?_⟩, fun ty mem => ?_⟩
    · rintro ty mem _ again rfl
      exact (later ty again).1 (now ty mem).2
    · rcases List.mem_append.1 mem with mem | mem
      · exact ⟨(now ty mem).1, after.defined (now ty mem).2⟩
      · exact ⟨fun defined => (later ty mem).1 (before.defined defined), (later ty mem).2⟩

/-- The tags of the file come up if there is an item; else the blocks have no tags either. -/
theorem CompilationUnit.mem_writtenTags {tag : Tag} :
    tag ∈ u.writtenTags ↔ tag ∈ u.scopes.flatMap Scope.tags ∨ u.items ≠ [] ∧ tag ∈ u.tags := by
  unfold CompilationUnit.writtenTags
  cases u.items <;> simp

/-- A tag that is flushed and due requires its type. -/
theorem Tag.Due.required {tag : Tag} (due : tag.Due u.types) (mem : tag ∈ u.writtenTags) :
    Required u tag.ty := by
  obtain ⟨named, node, known, complete⟩ := due
  refine .full (.tag mem named known complete) known ?_
  simp [TypeNode.isForward, complete]

/-- The types that a unit describes for tags are distinct, and defined in the end. -/
theorem Writer.describe_tagged {writer after : Writer} {records : List Record}
    (h : writer.describe u = (.ok records, after)) : ∃ tys : List TypeId, tys.Nodup ∧
      ((descriptions records).filter Description.isTag).map Description.number? =
        tys.map after.context.numbering.number? ∧
      ∀ ty ∈ tys, after.context.numbering.statusOf ty = .defined := by
  obtain ⟨journal, c, performs, rfl, same⟩ := describe_ok h
  have sound := sound_empty u.types
  obtain ⟨distinct, defined⟩ := performs.tagged sound fun _ => Task.tagsComplete_of_mem
  rw [same]
  exact ⟨taggedOf journal, distinct, numbers_tags (performs.fits), fun ty mem =>
    (defined ty mem).2⟩

/-- Which tags a unit describes. Those that are flushed have their types written once, and the
types that are described for tags are distinct. The types of all tags that are due are written,
those of the file included, if the unit has an item or requires them for something else, and in no
other case. -/
theorem Writer.describe_tags {writer after : Writer} {records : List Record}
    (h : writer.describe u = (.ok records, after)) :
    (∀ tag ∈ u.writtenTags, tag.Due u.types →
      WrittenOnce after.context.numbering records tag.ty) ∧
    (∃ tys : List TypeId, tys.Nodup ∧
      ((descriptions records).filter Description.isTag).map Description.number? =
        tys.map after.context.numbering.number? ∧
      ∀ ty ∈ tys, after.context.numbering.statusOf ty = .defined) ∧
    ((∀ tag ∈ u.tags ++ u.scopes.flatMap Scope.tags, tag.Due u.types →
      WrittenOnce after.context.numbering records tag.ty) ↔
        u.items ≠ [] ∨ ∀ tag ∈ u.tags, tag.Due u.types → Required u tag.ty) := by
  have required (ty : TypeId) := (describe_closure h ty).1
  have written {ty : TypeId} (needed : Required u ty) :
      WrittenOnce after.context.numbering records ty :=
    (describe_orderly h).1.writtenOnce ((required ty).2 needed)
  have flushed : ∀ tag ∈ u.writtenTags, tag.Due u.types →
      WrittenOnce after.context.numbering records tag.ty :=
    fun tag mem due => written (due.required mem)
  refine ⟨flushed, describe_tagged h, fun all => ?_, fun covered tag mem due => ?_⟩
  · by_cases items : u.items = []
    · refine .inr fun tag mem due => (required tag.ty).1 ?_
      exact (all tag (List.mem_append_left _ mem) due).1
    · exact .inl items
  · rcases List.mem_append.1 mem with mem | mem
    · rcases covered with items | needed
      · exact flushed tag (CompilationUnit.mem_writtenTags.2 (.inr ⟨items, mem⟩)) due
      · exact written (needed tag mem due)
    · exact flushed tag (CompilationUnit.mem_writtenTags.2 (.inl mem)) due

namespace Samples

/-- The record of the sample is written once, for its tag, behind a cross-reference. -/
theorem forwardReferences_tags : ∃ records after,
    (Writer.ofTarget {}).describe forwardReferences = (.ok records, after) ∧
      Tag.Due forwardReferences.types ⟨some "node", ⟨3⟩⟩ ∧
        WrittenOnce after.context.numbering records ⟨3⟩ := by
  have run : ((Writer.ofTarget {}).describe forwardReferences).1.toOption.isSome = true := by
    decide +kernel
  cases h : (Writer.ofTarget {}).describe forwardReferences with
  | mk result after =>
    rw [h] at run
    cases result with
    | error cause => cases run
    | ok records =>
      have due : Tag.Due forwardReferences.types ⟨some "node", ⟨3⟩⟩ := ⟨rfl, _, rfl, rfl⟩
      obtain ⟨flushed, -⟩ := Writer.describe_tags h
      exact ⟨records, after, rfl, due, flushed ⟨some "node", ⟨3⟩⟩ (by decide) due⟩

/-- Without its items the unit never gets to its tags: the pointer leaves a cross-reference to the
complete record, and nothing defines it. -/
theorem forwardReferences_untagged : ∃ records after,
    (Writer.ofTarget {}).describe { forwardReferences with items := [] } = (.ok records, after) ∧
      ∃ tag ∈ forwardReferences.tags, tag.Due forwardReferences.types ∧
        after.context.numbering.statusOf tag.ty = .crossReferenced := by
  have run : ((Writer.ofTarget {}).describe
        { forwardReferences with items := [] }).1.toOption.isSome = true ∧
      ((Writer.ofTarget {}).describe
        { forwardReferences with items := [] }).2.context.numbering.statusOf ⟨3⟩ =
          .crossReferenced := by
    decide +kernel
  cases h : (Writer.ofTarget {}).describe { forwardReferences with items := [] } with
  | mk result after =>
    rw [h] at run
    obtain ⟨done, crossed⟩ := run
    cases result with
    | error cause => cases done
    | ok records =>
      exact ⟨records, after, rfl, ⟨some "node", ⟨3⟩⟩, by decide, ⟨rfl, _, rfl, rfl⟩, crossed⟩

end Samples

end Stabs

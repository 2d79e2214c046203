import Stabs.Proofs.Renaming.Tasks
import Stabs.Proofs.Unit.Journal
import Stabs.Samples

/-!
# Type ids do not show

The output depends on the type table only up to the ids of its types. Under a renaming every task of
a unit comes to the same, so a renamed unit has the same text, and its types have the numbers and
the statuses that they had before.
-/
namespace Stabs

variable {ρ : TypeId → TypeId}

namespace Context

variable {types others : TypeTable} {c c' : Context} {task : Task} {tasks : List Task}

/-- A context that knows of no types but those of the table. -/
structure Within (types : TypeTable) (c : Context) : Prop where
  numbering : c.numbering.Within types
  typedefs : ∀ ty ∈ c.typedefsWritten, types.Knows ty

theorem within_fresh (types : TypeTable) (firstBlock : UInt32) :
    (fresh firstBlock).Within types where
  numbering := by
    rw [Numbering.Within, fresh, Numbering.order_empty]
    exact List.forall_mem_nil _
  typedefs := List.forall_mem_nil _

theorem rename_fresh (firstBlock : UInt32) : (fresh firstBlock).rename ρ = fresh firstBlock := by
  rw [rename, fresh, Numbering.rename_empty]
  rfl

/-- What a task describes is about a type of the table. -/
theorem knows_of_due {symbol : Symbol} (h : task.due types c = some symbol)
    (known : task.Within types) : types.Knows symbol.ty := by
  cases task with
  | typedef ty =>
    rw [Task.due] at h
    split at h
    · cases h
    · obtain ⟨name, -, rfl⟩ := Option.map_eq_some_iff.1 h
      exact known
  | tag name ty =>
    rw [Task.due] at h
    split at h <;> cases h
    exact known
  | symbol s => cases h; exact known
  | _ => cases h

theorem Within.acts {entries : List Entry} (acts : Acts types c task entries c')
    (closed : types.Closed) (known : task.Within types) (within : c.Within types) :
    c'.Within types := by
  cases acts with
  | described due steps =>
    have reference := knows_of_due due known
    refine ⟨steps.within closed within.numbering fun p mem => List.mem_singleton.1 mem ▸ reference,
      fun ty mem => ?_⟩
    cases task with
    | typedef noted =>
      rcases List.mem_insert_iff.1 mem with rfl | mem
      · exact known
      · exact within.typedefs ty mem
    | _ => exact within.typedefs ty mem
  | _ => exact ⟨within.numbering, within.typedefs⟩

theorem contains_typedefs_rename (h : types.Renames ρ others) (within : c.Within types)
    {ty : TypeId} (known : types.Knows ty) :
    (c.rename ρ).typedefsWritten.contains (ρ ty) = c.typedefsWritten.contains ty := by
  rw [Bool.eq_iff_iff, List.contains_iff_mem, List.contains_iff_mem]
  refine ⟨fun mem => ?_, List.mem_map_of_mem⟩
  obtain ⟨written, mem, same⟩ := List.mem_map.1 mem
  exact (h.inj (within.typedefs written mem) known).1 same ▸ mem

/-- A renamed typedef is described as the typedef is. -/
theorem emitTypedef_rename (h : types.Renames ρ others) (closed : types.Closed)
    (within : c.Within types) {ty : TypeId} (known : types.Knows ty)
    (waiting : c.typedefsWritten.contains ty = false) :
    emitTypedef others (ρ ty) (c.rename ρ) =
      renamed ρ (Context.rename ρ) (emitTypedef types ty c) := by
  obtain ⟨node, found⟩ := known
  cases named : node.typedefName? with
  | none =>
    have named' : (node.rename ρ).typedefName? = none := named
    simp only [emitTypedef, found, h.get? found, named, named']
    rfl
  | some name =>
    have noted : (c.rename ρ).typedefsWritten.insert (ρ ty) =
        (c.typedefsWritten.insert ty).map ρ := by
      have waiting' := (contains_typedefs_rename h within ⟨node, found⟩).trans waiting
      rw [List.insert_of_not_mem (by simpa using waiting'),
        List.insert_of_not_mem (by simpa using waiting)]
      rfl
    rw [emitTypedef_eq (h.get? found) named, emitTypedef_eq found named, noted]
    exact @describe_rename ρ types others h closed (.ofTypedef name ty) ⟨node, found⟩
      { c with typedefsWritten := c.typedefsWritten.insert ty } within.numbering

/-- A renamed task does what the task does, up to names. -/
theorem perform_rename (h : types.Renames ρ others) (closed : types.Closed)
    (known : task.Within types) (within : c.Within types) :
    perform others (task.rename ρ) (c.rename ρ) =
      renamed ρ (Context.rename ρ) (perform types task c) := by
  cases task with
  | sourceFile path label => rfl
  | typedef ty =>
    rw [Task.rename, perform_typedef, perform_typedef, contains_typedefs_rename h within known]
    cases waiting : c.typedefsWritten.contains ty with
    | true => rfl
    | false => exact emitTypedef_rename h closed within known waiting
  | tag name ty =>
    have status : (c.rename ρ).numbering.statusOf (ρ ty) = c.numbering.statusOf ty :=
      Numbering.statusOf_rename h within.numbering known
    rw [Task.rename, perform_tag, perform_tag, status]
    split
    · rfl
    · exact @describe_rename ρ types others h closed (.ofTag name ty) known c within.numbering
  | symbol s => exact describe_rename h closed known within.numbering
  | reject cause => rfl
  | enter =>
    rw [Task.rename, perform_enter, perform_enter]
    change (if c.nextBlock.toNat + 1 < UInt32.size then _ else _) = _
    split <;> rfl
  | leave block => rfl

/-- Renamed tasks, one after the other, do what the tasks do. -/
theorem performAll_rename (h : types.Renames ρ others) (closed : types.Closed)
    (known : ∀ task ∈ tasks, task.Within types) (within : c.Within types) :
    performAll others (tasks.map (Task.rename ρ)) (c.rename ρ) =
      renamed ρ (Context.rename ρ) (performAll types tasks c) := by
  induction tasks generalizing c with
  | nil => rfl
  | cons task tasks ih =>
    have first := perform_rename h closed (known task List.mem_cons_self) within
    rw [List.map_cons, performAll_cons, performAll_cons]
    simp only [Bind.bind, EStateM.bind, first]
    cases done : perform types task c with
    | error cause c₁ => rfl
    | ok _ c₁ =>
      obtain ⟨entries, acts⟩ := perform_ok done
      exact ih (fun t mem => known t (List.mem_cons_of_mem _ mem))
        (within.acts acts closed (known task List.mem_cons_self))

theorem performAll_within (closed : types.Closed) (known : ∀ task ∈ tasks, task.Within types)
    (within : c.Within types) (h : performAll types tasks c = .ok () c') : c'.Within types := by
  obtain ⟨journal, performs⟩ := performAll_ok h
  clear h
  induction performs with
  | nil => exact within
  | cons first _ ih =>
    exact ih (fun t mem => known t (List.mem_cons_of_mem _ mem))
      (within.acts first closed (known _ List.mem_cons_self))

/-- A renamed unit is described as the unit is. -/
theorem emitUnit_rename {u v : CompilationUnit} (h : u.Renames ρ v) (range : u.InRange)
    (target : Target) : emitUnit v target (fresh target.firstBlock) =
      renamed ρ (Context.rename ρ) (emitUnit u target (fresh target.firstBlock)) := by
  rw [emitUnit_eq, emitUnit_eq, Task.ofUnit_rename h target range]
  have all := performAll_rename h.types range.closed (@Task.within_ofUnit target u range)
    (within_fresh u.types target.firstBlock)
  rwa [rename_fresh] at all

end Context

/-- A unit and the same unit under a renaming have the same text, and each type has the same number
and the same status in both, if any. A unit without a text has none under a renaming either, and the
reasons differ in names alone. -/
theorem Writer.generate_renames {u v : CompilationUnit} (h : u.Renames ρ v) (range : u.InRange)
    (writer : Writer) :
    (∀ text after, writer.generate u = (.ok text, after) →
      ∃ after', writer.generate v = (.ok text, after') ∧ ∀ ty, u.types.Knows ty →
        after'.context.numbering.number? (ρ ty) = after.context.numbering.number? ty ∧
          after'.context.numbering.statusOf (ρ ty) = after.context.numbering.statusOf ty) ∧
      ∀ cause after, writer.generate u = (.error cause, after) →
        ∃ after', writer.generate v = (.error (cause.rename ρ), after') := by
  have run := Context.emitUnit_rename h range writer.target
  simp only [generate, describe, Context.reset_eq]
  rw [run]
  cases done : Context.emitUnit u writer.target (.fresh writer.target.firstBlock) with
  | error cause c =>
    refine ⟨fun _ _ eq => (by cases eq), fun cause' after eq => ?_⟩
    cases eq
    exact ⟨_, rfl⟩
  | ok _ c =>
    rw [Context.emitUnit_eq] at done
    have within := Context.performAll_within range.closed (Task.within_ofUnit range)
      (Context.within_fresh _ _) done
    refine ⟨fun text after eq => ?_, fun _ _ eq => (by cases eq)⟩
    cases eq
    exact ⟨_, rfl, fun ty known => ⟨Numbering.number?_rename h.types within.numbering known,
      Numbering.statusOf_rename h.types within.numbering known⟩⟩

namespace Samples

/-- Moves the pointer of `forwardReferences` in front of the record that it points to. -/
def moved (ty : TypeId) : TypeId :=
  if ty = ⟨3⟩ then ⟨5⟩ else if ty = ⟨4⟩ then ⟨3⟩ else if ty = ⟨5⟩ then ⟨6⟩ else ty

/-- The unit `forwardReferences` with its types moved, and one more that nothing refers to. -/
def movedReferences : CompilationUnit where
  sourceFile := "forward.c"
  types := table [
    TypeTable.typedefNode "node_ptr" (.pointer ⟨5⟩) (some 4),
    { kind := .pointer .int, size := some 4 },
    { kind := .record [⟨some "self", ⟨3⟩, 0, 32⟩], name := some (.tag "node"), size := some 4 },
    { kind := .record [], name := some (.tag "hidden") }]
  tags := [⟨some "node", ⟨5⟩⟩, ⟨some "hidden", ⟨6⟩⟩]
  items := [
    .symbol ⟨"handle", ⟨6⟩, .typedef⟩,
    .symbol ⟨"token", ⟨6⟩, .typedef⟩]

theorem movedReferences_renames : forwardReferences.Renames moved movedReferences where
  types := {
    builtins := by decide
    injective := by decide +kernel
    nodes := by decide +kernel
    order := by decide +kernel
    typedefs := fun i node found named => by
      have all : ∀ place ∈ movedReferences.types.nodes.toList.zipIdx,
          place.1.typedefName?.isSome = true → ∃ entry ∈ forwardReferences.types.entries,
            (moved entry.1).toNat = place.2 := by decide +kernel
      rw [← Array.getElem?_toList] at found
      exact all (node, i) (List.mk_mem_zipIdx_iff_getElem?.2 found) named }
  sourceFile := rfl
  tags := rfl
  items := rfl

theorem forwardReferences_inRange : forwardReferences.InRange := by
  have all : ∀ ty ∈ forwardReferences.ids, (forwardReferences.types.get? ty).isSome = true := by
    decide +kernel
  exact fun ty mem => Option.isSome_iff_exists.1 (all ty mem)

/-- The record and the pointer swap places; text and numbers stay. -/
theorem movedReferences_generate :
    forwardReferences.Renames moved movedReferences ∧ forwardReferences.InRange ∧
      ∃ text after after',
        (Writer.ofTarget {}).generate forwardReferences = (.ok text, after) ∧
          (Writer.ofTarget {}).generate movedReferences = (.ok text, after') ∧
            after.context.numbering.number? ⟨3⟩ = some ⟨5⟩ ∧
              after'.context.numbering.number? ⟨5⟩ = some ⟨5⟩ := by
  refine ⟨movedReferences_renames, forwardReferences_inRange, ?_⟩
  have written : ((Writer.ofTarget {}).generate forwardReferences).1.toOption.isSome = true := by
    decide +kernel
  have number : ((Writer.ofTarget {}).generate forwardReferences).2.context.numbering.number? ⟨3⟩ =
    some ⟨5⟩ := by decide +kernel
  cases run : (Writer.ofTarget {}).generate forwardReferences with
  | mk result after =>
    rw [run] at written number
    cases result with
    | error cause => cases written
    | ok text =>
      obtain ⟨after', same, numbers⟩ := (Writer.generate_renames movedReferences_renames
        forwardReferences_inRange (Writer.ofTarget {})).1 text after run
      have moved := (numbers ⟨3⟩ ⟨_, rfl⟩).1
      exact ⟨text, after, after', rfl, same, number, moved.trans number⟩

end Samples

end Stabs

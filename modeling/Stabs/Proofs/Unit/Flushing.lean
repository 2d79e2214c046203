import Stabs.Proofs.Unit.Journal

/-!
# Flushing tags and typedefs

Tags and typedefs are written where they are still due. A flush that succeeds leaves none of them
due, nothing that is written later makes one due again, and a flush of what is not due does
nothing.
-/
namespace Stabs

open TypeDescription

variable {types : TypeTable} {c c' : Context} {task : Task} {tasks : List Task}
  {entries journal : List Entry}

namespace Task

/-- A typedef that is out, or a tag whose type is defined. -/
def Idle (c : Context) : Task → Prop
  | .typedef ty => ty ∈ c.typedefsWritten
  | .tag _ ty => c.numbering.statusOf ty = .defined
  | _ => False

theorem due_of_idle (idle : task.Idle c) : task.due types c = none := by
  cases task with
  | typedef ty => exact if_pos (List.contains_iff_mem.2 idle)
  | tag name ty => exact if_pos idle
  | _ => exact idle.elim

/-- The tasks that a flush may have: typedefs, complete tags, and what is rejected. -/
def Flushes (types : TypeTable) : Task → Prop
  | .typedef _ => True
  | .tag _ ty => ∃ node, types.get? ty = some node ∧ node.isComplete = true
  | .reject _ => True
  | _ => False

theorem flushes_ofTag {tag : Tag} (mem : task ∈ ofTag types tag) : task.Flushes types := by
  obtain ⟨name, -, ⟨-, rfl⟩ | ⟨node, known, complete, rfl⟩⟩ := mem_ofTag.1 mem
  · trivial
  · exact ⟨node, known, complete⟩

theorem flushes_ofTypedefs (mem : task ∈ ofTypedefs types) : task.Flushes types := by
  obtain ⟨entry, -, rfl⟩ := List.mem_map.1 mem
  trivial

end Task

/-- Nothing that succeeds does a task that is rejected. -/
theorem Acts.not_reject {cause : DescribeError} : ¬ Acts types c (.reject cause) entries c' := by
  intro acts
  cases acts with
  | described due => cases due

theorem Acts.typedefs_subset (h : Acts types c task entries c') :
    c.typedefsWritten ⊆ c'.typedefsWritten := by
  intro ty mem
  rw [Context.written_acts h]
  cases task with
  | typedef other => exact List.mem_insert_of_mem mem
  | _ => exact mem

/-- What is not due stays so. -/
theorem Acts.keeps_idle (h : Acts types c task entries c') {other : Task} (idle : other.Idle c) :
    other.Idle c' := by
  cases other with
  | typedef ty => exact h.typedefs_subset idle
  | tag name ty => exact h.grows.defined idle
  | _ => exact idle

theorem Performs.keeps_idle (h : Performs types c tasks journal c') {other : Task}
    (idle : other.Idle c) : other.Idle c' :=
  h.keeps other.Idle (fun acts idle => acts.keeps_idle idle) idle

/-- A task of a flush is not due behind its turn. -/
theorem Acts.idle (h : Acts types c task entries c') (flushes : task.Flushes types) :
    task.Idle c' := by
  cases task with
  | typedef ty =>
    rw [Task.Idle, Context.written_acts h]
    exact List.mem_insert_self
  | tag name ty =>
    obtain ⟨node, known, complete⟩ := flushes
    cases h with
    | tagOut out => exact out
    | described due steps =>
      rw [Task.due] at due
      split at due <;> cases due
      exact steps.defined_of_full known (by simp [crossReference?, complete])
  | reject => exact absurd h Acts.not_reject
  | _ => exact flushes.elim

theorem Performs.idle (h : Performs types c tasks journal c') (mem : task ∈ tasks)
    (flushes : task.Flushes types) : task.Idle c' := by
  induction h with
  | nil => cases mem
  | cons first rest ih =>
    rcases List.mem_cons.1 mem with rfl | mem
    · exact rest.keeps_idle (first.idle flushes)
    · exact ih mem

/-- Tasks that are not due write nothing. -/
theorem Performs.of_idle (h : Performs types c tasks journal c')
    (idle : ∀ task ∈ tasks, task.Idle c) : journal = [] ∧ c' = c := by
  induction h with
  | nil => exact ⟨rfl, rfl⟩
  | @cons c _ _ task _ _ _ first rest ih =>
    obtain ⟨own, later⟩ := List.forall_mem_cons.1 idle
    cases first with
    | described due =>
      rw [Task.due_of_idle own] at due
      cases due
    | typedefOut | tagOut => exact ih later
    | _ => exact own.elim

namespace Context

/-- Tasks that are not due leave everything as it is. -/
theorem performAll_of_idle (idle : ∀ task ∈ tasks, task.Idle c) :
    performAll types tasks c = .ok () c := by
  induction tasks with
  | nil => rfl
  | cons task tasks ih =>
    have first : perform types task c = .ok () c := by
      have own := idle task List.mem_cons_self
      cases task with
      | typedef ty => rw [perform_typedef, if_pos (List.contains_iff_mem.2 own)]
      | tag name ty => exact (perform_tag types name ty c).trans (if_pos own)
      | _ => exact own.elim
    rw [performAll_cons, bind_of_ok first]
    exact ih fun task mem => idle task (List.mem_cons_of_mem _ mem)

/-- A flush that succeeds has left nothing to flush. -/
theorem idle_of_flush (h : performAll types tasks c = .ok () c')
    (flushes : ∀ task ∈ tasks, task.Flushes types) : ∀ task ∈ tasks, task.Idle c' := by
  obtain ⟨journal, performs⟩ := performAll_ok h
  exact fun task mem => performs.idle mem (flushes task mem)

end Context

end Stabs

import Stabs.Proofs.Unit.Walk

/-!
# The journal of a unit

The journal lists what the tasks of a unit added to the output, one entry after the other, and the
records of a unit are those of its journal. Every invariant of the numbering that descriptions keep
holds after the whole unit.
-/
namespace Stabs

open TypeDescription

/-- Performs all tasks, from one context to another. -/
inductive Performs (types : TypeTable) : Context → List Task → List Entry → Context → Prop
  | nil (c : Context) : Performs types c [] [] c
  | cons {c c₁ c₂ : Context} {task : Task} {tasks : List Task} {entries journal : List Entry}
      (first : Acts types c task entries c₁) (rest : Performs types c₁ tasks journal c₂) :
      Performs types c (task :: tasks) (entries ++ journal) c₂

namespace Context

theorem performAll_ok {types : TypeTable} {tasks : List Task} {c c' : Context}
    (h : performAll types tasks c = .ok () c') : ∃ journal, Performs types c tasks journal c' := by
  induction tasks generalizing c with
  | nil => cases h; exact ⟨[], .nil _⟩
  | cons task tasks ih =>
    rw [performAll_cons] at h
    simp only [Bind.bind, EStateM.bind] at h
    cases hp : perform types task c with
    | error cause c₁ => rw [hp] at h; cases h
    | ok _ c₁ =>
      rw [hp] at h
      obtain ⟨entries, first⟩ := perform_ok hp
      obtain ⟨journal, rest⟩ := ih h
      exact ⟨entries ++ journal, .cons first rest⟩

/-- The tasks before the one that fails are performed. -/
theorem performAll_error {types : TypeTable} {tasks : List Task} {c c' : Context}
    {cause : DescribeError} (h : performAll types tasks c = .error cause c') :
    ∃ before task later journal c₁, tasks = before ++ task :: later ∧
      Performs types c before journal c₁ ∧ Fails types c₁ task cause := by
  induction tasks generalizing c with
  | nil => cases h
  | cons task tasks ih =>
    rw [performAll_cons] at h
    simp only [Bind.bind, EStateM.bind] at h
    cases hp : perform types task c with
    | error cause' c₁ =>
      rw [hp] at h
      cases h
      exact ⟨[], task, tasks, [], _, rfl, .nil _, perform_error hp⟩
    | ok _ c₁ =>
      rw [hp] at h
      obtain ⟨entries, first⟩ := perform_ok hp
      obtain ⟨before, failing, later, journal, c₂, rfl, rest, fails⟩ := ih h
      exact ⟨task :: before, failing, later, entries ++ journal, c₂, rfl, .cons first rest, fails⟩

end Context

namespace Performs

variable {types : TypeTable} {c c' : Context} {tasks : List Task} {journal : List Entry}

/-- What every task keeps, holds after all of them. -/
theorem keeps (Inv : Context → Prop)
    (step : ∀ {c c' : Context} {task : Task} {entries : List Entry}, Acts types c task entries c' →
      Inv c → Inv c') (h : Performs types c tasks journal c') (inv : Inv c) : Inv c' := by
  induction h with
  | nil => exact inv
  | cons first _ ih => exact ih (step first inv)

/-- What holds of the entries that each task writes, from any context, holds of the journal. -/
theorem forall_entries (P : Entry → Prop) (h : Performs types c tasks journal c')
    (each : ∀ task ∈ tasks, ∀ {c c' : Context} {entries : List Entry},
      Acts types c task entries c' → ∀ entry ∈ entries, P entry) : ∀ entry ∈ journal, P entry := by
  induction h with
  | nil => exact List.forall_mem_nil _
  | cons first _ ih =>
    have rest := ih fun task mem => each task (List.mem_cons_of_mem _ mem)
    exact List.forall_mem_append.2 ⟨each _ List.mem_cons_self first, rest⟩

end Performs

theorem records_acts {types : TypeTable} {c c' : Context} {task : Task} {entries : List Entry}
    (h : Acts types c task entries c') :
    c'.out.records = c.out.records ++ (entries.flatMap Entry.records).toArray := by
  cases h with
  | described due steps => simp [Emitter.described_eq, Entry.records]
  | typedefOut out => simp
  | tagOut out => simp
  | _ =>
    simp [Emitter.sourceFile, Emitter.marker, Emitter.push, Context.entered, Entry.records]

/-- The output grows by the records of the journal. -/
theorem Performs.records {types : TypeTable} {c c' : Context} {tasks : List Task}
    {journal : List Entry} (h : Performs types c tasks journal c') :
    c'.out.records = c.out.records ++ (journal.flatMap Entry.records).toArray := by
  induction h with
  | nil => simp
  | cons first _ ih => simp [ih, records_acts first]

theorem Performs.toList_records {types : TypeTable} {c c' : Context} {tasks : List Task}
    {journal : List Entry} (h : Performs types c tasks journal c') :
    c'.out.records.toList = c.out.records.toList ++ journal.flatMap Entry.records := by
  simp [h.records]

theorem Acts.sound {types : TypeTable} {c c' : Context} {task : Task} {entries : List Entry}
    (h : Acts types c task entries c') (sound : Sound types c.numbering) :
    Sound types c'.numbering := by
  cases h with
  | described _ steps => exact steps.sound sound
  | _ => exact sound

theorem Acts.grows {types : TypeTable} {c c' : Context} {task : Task} {entries : List Entry}
    (h : Acts types c task entries c') : c.numbering.Grows c'.numbering := by
  cases h with
  | described _ steps => exact steps.grows
  | _ => exact .refl _

theorem Performs.sound {types : TypeTable} {c c' : Context} {tasks : List Task}
    {journal : List Entry} (h : Performs types c tasks journal c')
    (sound : Sound types c.numbering) : Sound types c'.numbering :=
  h.keeps (fun c => Sound types c.numbering) Acts.sound sound

theorem Performs.grows {types : TypeTable} {c c' : Context} {tasks : List Task}
    {journal : List Entry} (h : Performs types c tasks journal c') :
    c.numbering.Grows c'.numbering := by
  induction h with
  | nil => exact .refl _
  | cons first _ ih => exact first.grows.trans ih

/-- A unit that is described performs all of its tasks, and hands over the records of its
journal. -/
theorem Writer.describe_ok {writer after : Writer} {u : CompilationUnit} {records : List Record}
    (h : writer.describe u = (.ok records, after)) :
    ∃ journal c, Performs u.types (.fresh writer.target.firstBlock)
        (Task.ofUnit u writer.target) journal c ∧
      records = journal.flatMap Entry.records ∧ after.context.numbering = c.numbering := by
  rw [Writer.describe, Context.reset_eq] at h
  rw [Context.emitUnit_eq] at h
  split at h
  · next c eq =>
    obtain ⟨journal, performs⟩ := Context.performAll_ok eq
    cases h
    refine ⟨journal, c, performs, ?_, rfl⟩
    rw [performs.records]
    simp [Context.fresh, Emitter.empty]
  · cases h

theorem Writer.describe_error {writer after : Writer} {u : CompilationUnit}
    {cause : DescribeError} (h : writer.describe u = (.error cause, after)) :
    ∃ before task later journal c,
      Task.ofUnit u writer.target = before ++ task :: later ∧
        Performs u.types (.fresh writer.target.firstBlock) before journal c ∧
          Fails u.types c task cause := by
  rw [Writer.describe, Context.reset_eq] at h
  rw [Context.emitUnit_eq] at h
  split at h
  · cases h
  · next cause' c eq => cases h; exact Context.performAll_error eq

end Stabs

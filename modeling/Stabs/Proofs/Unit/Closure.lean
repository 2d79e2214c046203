import Stabs.Proofs.Unit.Requests
import Stabs.Samples

/-!
# Which types a unit defines

A unit defines the types that it requires, cross-references the other types that it demands, and
gives no number to the rest. Every request is done at the end and so is the body of every defined
type, hence whatever is demanded is reached in any order; a type is only reached on demand, hence
nothing else is.
-/
namespace Stabs

open TypeDescription

/-- The type of an id is named by a typedef. -/
def TypeTable.IsTypedef (types : TypeTable) (ty : TypeId) : Prop :=
  ∃ node, types.get? ty = some node ∧ node.typedefName?.isSome = true

/-- What holds once a unit is described: all that it asks for is done, and all that the bodies of
its defined types refer to. -/
structure Fulfilled (u : CompilationUnit) (N : Numbering) : Prop where
  sound : Sound u.types N
  closed : Closed u.types N []
  requests : ∀ p ∈ u.requests, Done u.types N p
  typedefs : ∀ entry ∈ u.types.entries, entry.2.typedefName?.isSome = true →
    u.types.IsTypedef entry.1

/-- A numbering with no type in it that the unit does not demand. -/
structure Justified (u : CompilationUnit) (N : Numbering) : Prop where
  seen : ∀ ty, N.statusOf ty ≠ .unseen → AskedInFull u ty ∨ Mentioned u ty
  defined : ∀ ty, N.statusOf ty = .defined → Required u ty

variable {u : CompilationUnit} {target : Target} {types : TypeTable} {c c' : Context}
  {task : Task} {tasks : List Task} {entries journal : List Entry} {ty : TypeId}

namespace Task

theorem request_of_due {symbol : Symbol} (due : task.due types c = some symbol) :
    task.request = [symbol.reference] := by
  cases task with
  | typedef ty =>
    rw [Task.due] at due
    split at due
    · cases due
    · obtain ⟨name, -, rfl⟩ := Option.map_eq_some_iff.1 due
      rfl
  | tag name ty =>
    rw [Task.due] at due
    split at due
    · cases due
    · cases due
      rfl
  | symbol s => cases due; rfl
  | _ => cases due

theorem mem_written {typedefs : List TypeId} (h : ty ∈ task.written typedefs) :
    ty ∈ typedefs ∨ task = .typedef ty := by
  cases task with
  | typedef ty' =>
    rcases List.mem_insert_iff.1 h with rfl | h
    · exact .inr rfl
    · exact .inl h
  | _ => exact .inl h

end Task

/-- A task has what it requested, and a typedef has its name. -/
structure Task.Settled (types : TypeTable) (N : Numbering) (task : Task) : Prop where
  done : ∀ p ∈ task.request, Done types N p
  named : ∀ ty, task = .typedef ty → types.IsTypedef ty

theorem Task.Settled.grows {N M : Numbering} (h : task.Settled types N) (grows : N.Grows M) :
    task.Settled types M where
  done p mem := (h.done p mem).grows grows
  named := h.named

theorem Task.isTypedef_of_due {symbol : Symbol}
    (due : (Task.typedef ty).due types c = some symbol) : types.IsTypedef ty := by
  rw [Task.due] at due
  split at due
  · cases due
  · simp only [Option.map_eq_some_iff, Option.bind_eq_some_iff] at due
    obtain ⟨name, ⟨node, known, named⟩, -⟩ := due
    exact ⟨node, known, by simp [named]⟩

/-- The typedefs that are out are settled. -/
def Context.TypedefsSettled (types : TypeTable) (c : Context) : Prop :=
  ∀ ty ∈ c.typedefsWritten, (Task.typedef ty).Settled types c.numbering

theorem Acts.settled (h : Acts types c task entries c') (sound : Sound types c.numbering)
    (out : c.TypedefsSettled types) :
    task.Settled types c'.numbering ∧ c'.TypedefsSettled types := by
  cases h with
  | @described _ symbol marks N due steps =>
    have settled : task.Settled types N :=
      { done := by rw [Task.request_of_due due]; exact steps.done sound
        named := by rintro ty rfl; exact Task.isTypedef_of_due due }
    refine ⟨settled, fun ty mem => ?_⟩
    rcases Task.mem_written mem with old | rfl
    · exact (out ty old).grows steps.grows
    · exact settled
  | typedefOut mem => exact ⟨out _ mem, out⟩
  | @tagOut name ty defined =>
    have seen : c.numbering.statusOf ty ≠ .unseen := by simp [defined]
    obtain ⟨node, known⟩ := sound.known ty seen
    have clear := sound.complete ty node known defined
    refine ⟨⟨fun p hp => ?_, nofun⟩, out⟩
    cases List.mem_singleton.1 hp
    exact ⟨node, known, seen, fun _ => defined, fun crossed => absurd clear crossed⟩
  | _ => exact ⟨⟨nofun, nofun⟩, out⟩

namespace Performs

/-- Every task is settled at the end. -/
theorem settled (h : Performs types c tasks journal c') (sound : Sound types c.numbering)
    (out : c.TypedefsSettled types) : ∀ task ∈ tasks, task.Settled types c'.numbering := by
  induction h with
  | nil => exact nofun
  | cons first rest ih =>
    obtain ⟨settled, out'⟩ := first.settled sound out
    intro task mem
    rcases List.mem_cons.1 mem with rfl | mem
    · exact settled.grows (rest.grows)
    · exact ih (first.sound sound) out' task mem

theorem closed (h : Performs types c tasks journal c') (sound : Sound types c.numbering)
    (closed : Closed types c.numbering []) : Closed types c'.numbering [] := by
  refine (h.keeps (fun c => Sound types c.numbering ∧ Closed types c.numbering []) ?_
    ⟨sound, closed⟩).2
  intro c c' task entries first ⟨sound, closed⟩
  refine ⟨first.sound sound, ?_⟩
  cases first with
  | described _ steps => exact steps.closed sound fun x node n known defined number p mem =>
      (closed x node n known defined number p mem).imp nofun id
  | _ => exact closed

theorem fulfilled {block : UInt32}
    (h : Performs u.types (.fresh block) (Task.ofUnit u target) journal c') :
    Fulfilled u c'.numbering := by
  have settled := h.settled (sound_empty u.types) nofun
  refine ⟨h.sound (sound_empty u.types), h.closed (sound_empty u.types) (closed_empty u.types),
    fun p mem => ?_, fun entry mem named => ?_⟩
  · obtain ⟨task, inUnit, hp⟩ := Task.mem_request.2 mem
    exact (settled task inUnit).done p hp
  · exact (settled _ (Task.mem_ofUnit_of_typedef mem named)).named _ rfl

end Performs

namespace Fulfilled

variable {N : Numbering} {child : TypeId} {node : TypeNode}

theorem layout_done (h : Fulfilled u N) (known : u.types.get? ty = some node)
    (defined : N.statusOf ty = .defined) : ∃ n, ∀ p ∈ layout ty n node, Done u.types N p := by
  have seen : N.statusOf ty ≠ .unseen := by simp [defined]
  obtain ⟨n, number⟩ := Numbering.exists_number seen
  exact ⟨n, fun p mem => (h.closed ty node n known defined number p mem).resolve_left nofun⟩

theorem done_of_child (h : Fulfilled u N) (known : u.types.get? ty = some node)
    (defined : N.statusOf ty = .defined) (mem : child ∈ node.children) :
    Done u.types N (.reference child false) := by
  obtain ⟨n, done⟩ := h.layout_done known defined
  have definable := isDefinable_of_layout fun cause fault => done _ fault
  exact done _ (mem_layout_of_child definable mem)

theorem done_of_askedInFull (h : Fulfilled u N) (asked : AskedInFull u ty) :
    Done u.types N (.reference ty true) :=
  h.requests _ (CompilationUnit.mem_requests_of_askedInFull asked)

/-- Whatever is mentioned is done, by induction on the way that leads to it. -/
theorem done_of_mentioned (h : Fulfilled u N) (mentioned : Mentioned u ty) :
    Done u.types N (.reference ty false) := by
  induction mentioned with
  | stored mem kind emitted =>
    refine h.requests _ (CompilationUnit.mem_requests_of_declaration mem ?_)
    simp [Declaration.request, kind, emitted]
  | @returned decl info node returns mem kind emitted known function =>
    refine h.requests _ (CompilationUnit.mem_requests_of_declaration mem ?_)
    have result : Symbol.returnType u.types decl.name decl.ty = .ok (returns.getD .void) :=
      Symbol.returnType_eq_ok.2 ⟨node, returns, known, function, rfl⟩
    simp [Declaration.request, kind, emitted, result]
  | @parameter param mem =>
    have done := fun p hp => h.requests p (CompilationUnit.mem_requests_of_parameter mem hp)
    unfold Declaration.parameterRequest at done
    split at done
    · exact done _ List.mem_cons_self
    · exact (done _ List.mem_cons_self).elim
  | ofFull asked known complete mem =>
    obtain ⟨node, known', -, defined, -⟩ := h.done_of_askedInFull asked
    cases known.symm.trans known'
    exact h.done_of_child known (defined (TypeNode.crossReference?_true_eq_none.2 complete)) mem
  | ofMentioned _ known spelt mem ih =>
    obtain ⟨node, known', -, defined, -⟩ := ih
    cases known.symm.trans known'
    exact h.done_of_child known (defined (TypeNode.crossReference?_false_eq_none.2 spelt)) mem

theorem defined_of_required (h : Fulfilled u N) (required : Required u ty) :
    N.statusOf ty = .defined := by
  cases required with
  | full asked known complete =>
    obtain ⟨node, known', -, defined, -⟩ := h.done_of_askedInFull asked
    cases known.symm.trans known'
    exact defined (TypeNode.crossReference?_true_eq_none.2 complete)
  | mentioned mentioned known spelt =>
    obtain ⟨node, known', -, defined, -⟩ := h.done_of_mentioned mentioned
    cases known.symm.trans known'
    exact defined (TypeNode.crossReference?_false_eq_none.2 spelt)

theorem seen_of_demanded (h : Fulfilled u N) (demanded : AskedInFull u ty ∨ Mentioned u ty) :
    N.statusOf ty ≠ .unseen := by
  rcases demanded with asked | mentioned
  · exact (h.done_of_askedInFull asked).choose_spec.2.1
  · exact (h.done_of_mentioned mentioned).choose_spec.2.1

end Fulfilled

namespace TypeDescription

variable {N M : Numbering} {p : Piece} {ms : List Mark} {pending body : List Piece}

/-- The body of a type that is defined on demand demands what it refers to. -/
theorem Expands.demanded (h : Expands u.types N p ms M body) (demanded : Demanded u p) :
    ∀ q ∈ body, Demanded u q := by
  intro q mem
  cases q with
  | mark => trivial
  | fault => trivial
  | reference child full =>
    cases h with
    | mark => cases mem
    | unknown => cases List.mem_singleton.1 mem
    | settled => cases mem
    | crossReferenced => cases mem
    | unnamed => cases List.mem_singleton.1 mem
    | defined known _ clear =>
      obtain ⟨rfl, children⟩ := inBody_of_mem_layout mem
      exact mentioned_of_required (required_of_demanded demanded known clear) known children

/-- Only a reference to a type makes it seen. -/
theorem Expands.newly_seen (h : Expands types N p ms M body) (sound : Sound types N)
    (before : N.statusOf ty = .unseen) (after : M.statusOf ty ≠ .unseen) :
    ∃ full, p = .reference ty full := by
  cases h with
  | mark => exact absurd before after
  | unknown => exact absurd before after
  | settled known enough => exact absurd before (allocate_of_settled sound enough ▸ after)
  | @crossReferenced _ full =>
    rw [Numbering.statusOf_introduce sound.tidy] at after
    split at after
    · next same => subst same; exact ⟨full, rfl⟩
    · exact absurd before after
  | unnamed => exact absurd before (Numbering.statusOf_allocate sound.tidy _ ty ▸ after)
  | @defined _ full =>
    rw [Numbering.statusOf_introduce sound.tidy] at after
    split at after
    · next same => subst same; exact ⟨full, rfl⟩
    · exact absurd before after

theorem Expands.justified (h : Expands u.types N p ms M body) (sound : Sound u.types N)
    (justified : Justified u N) (demanded : Demanded u p) : Justified u M where
  seen ty after := by
    by_cases before : N.statusOf ty = .unseen
    · obtain ⟨full, rfl⟩ := h.newly_seen sound before after
      exact demanded_iff.1 ⟨full, demanded⟩
    · exact justified.seen ty before
  defined ty after := by
    by_cases before : N.statusOf ty = .defined
    · exact justified.defined ty before
    · obtain ⟨full, node, rfl, known, clear, -, -⟩ := h.newly_defined sound before after
      exact required_of_demanded demanded known clear

theorem Steps.justified (h : Steps u.types N pending ms M []) (sound : Sound u.types N)
    (justified : Justified u N) (demanded : ∀ p ∈ pending, Demanded u p) : Justified u M := by
  refine (h.keeps_of_done (fun N left => Sound u.types N ∧ Justified u N ∧
    ∀ p ∈ left, Demanded u p) ?_ ⟨sound, justified, demanded⟩).2.1
  intro N M p ms body left first ⟨sound, justified, demanded⟩
  have head := demanded p List.mem_cons_self
  rcases first.sound sound with sound' | stopped
  · refine .inl ⟨sound', first.justified sound justified head, fun q mem => ?_⟩
    rcases List.mem_append.1 mem with mem | mem
    · exact first.demanded head q mem
    · exact demanded q (List.mem_cons_of_mem _ mem)
  · exact .inr stopped

end TypeDescription

theorem Performs.justified (h : Performs u.types c tasks journal c')
    (demanded : ∀ task ∈ tasks, ∀ p ∈ task.request, Demanded u p)
    (sound : Sound u.types c.numbering) (justified : Justified u c.numbering) :
    Justified u c'.numbering := by
  induction h with
  | nil => exact justified
  | cons first _ ih =>
    apply ih (fun task mem => demanded task (List.mem_cons_of_mem _ mem)) (first.sound sound)
    cases first with
    | described due steps =>
      apply steps.justified sound justified
      exact Task.request_of_due due ▸ demanded _ List.mem_cons_self
    | _ => exact justified

theorem justified_empty (u : CompilationUnit) : Justified u .empty where
  seen _ seen := absurd rfl seen
  defined := nofun

theorem Performs.justified_ofUnit {block : UInt32}
    (h : Performs u.types (.fresh block) (Task.ofUnit u target) journal c') :
    Justified u c'.numbering := by
  refine h.justified (fun task mem p hp => ?_) (sound_empty u.types) (justified_empty u)
  exact CompilationUnit.demanded_of_mem_requests (Task.mem_request.1 ⟨task, mem, hp⟩)

namespace Fulfilled

variable {N : Numbering}

theorem statusOf_eq_defined (h : Fulfilled u N) (justified : Justified u N) :
    N.statusOf ty = .defined ↔ Required u ty :=
  ⟨justified.defined ty, h.defined_of_required⟩

theorem number?_eq_none (h : Fulfilled u N) (justified : Justified u N) :
    N.number? ty = none ↔ ¬ (AskedInFull u ty ∨ Mentioned u ty) := by
  constructor
  · intro none demanded
    exact h.seen_of_demanded demanded (Numbering.statusOf_of_none none)
  · intro idle
    cases hn : N.number? ty with
    | none => rfl
    | some n => exact absurd (justified.seen ty (h.sound.seen ty (by simp [hn]))) idle

theorem statusOf_eq_crossReferenced (h : Fulfilled u N) (justified : Justified u N) :
    N.statusOf ty = .crossReferenced ↔
      ¬ Required u ty ∧ (AskedInFull u ty ∨ Mentioned u ty) := by
  rw [← h.statusOf_eq_defined justified]
  constructor
  · intro crossed
    exact ⟨by simp [crossed], justified.seen ty (by simp [crossed])⟩
  · rintro ⟨undefined, demanded⟩
    have seen := h.seen_of_demanded demanded
    cases hs : N.statusOf ty with
    | unseen => exact absurd hs seen
    | crossReferenced => rfl
    | defined => exact absurd hs undefined

end Fulfilled

/-- A unit leaves a type defined if it requires the type, cross-referenced if it demands the type
and does not require it, and without a number otherwise. -/
theorem Writer.describe_closure {writer after : Writer} {u : CompilationUnit}
    {records : List Record} (h : writer.describe u = (.ok records, after)) (ty : TypeId) :
    (after.context.numbering.statusOf ty = .defined ↔ Required u ty) ∧
      (after.context.numbering.statusOf ty = .crossReferenced ↔
        ¬ Required u ty ∧ (AskedInFull u ty ∨ Mentioned u ty)) ∧
      (after.context.numbering.number? ty = none ↔ ¬ (AskedInFull u ty ∨ Mentioned u ty)) := by
  obtain ⟨journal, c, performs, -, same⟩ := Writer.describe_ok h
  rw [same]
  have fulfilled := performs.fulfilled
  have justified := performs.justified_ofUnit
  exact ⟨fulfilled.statusOf_eq_defined justified, fulfilled.statusOf_eq_crossReferenced justified,
    fulfilled.number?_eq_none justified⟩

/-- The record that a pointer mentions is required for its tag; the one without a definition is
only demanded. -/
theorem Samples.forwardReferences_closure :
    ∃ records after, (Writer.ofTarget {}).describe forwardReferences = (.ok records, after) ∧
      Required forwardReferences ⟨3⟩ ∧ ¬ Required forwardReferences ⟨5⟩ ∧
        (AskedInFull forwardReferences ⟨5⟩ ∨ Mentioned forwardReferences ⟨5⟩) := by
  have run : ((Writer.ofTarget {}).describe forwardReferences).1.isOk = true ∧
      ((Writer.ofTarget {}).describe forwardReferences).2.context.numbering.statusOf ⟨3⟩ =
        .defined ∧
      ((Writer.ofTarget {}).describe forwardReferences).2.context.numbering.statusOf ⟨5⟩ =
        .crossReferenced := by
    decide +kernel
  cases h : (Writer.ofTarget {}).describe forwardReferences with
  | mk result after =>
    rw [h] at run
    cases result with
    | error cause => cases run.1
    | ok records =>
      have node := (Writer.describe_closure h ⟨3⟩).1.1 run.2.1
      have hidden := (Writer.describe_closure h ⟨5⟩).2.1.1 run.2.2
      exact ⟨records, after, rfl, node, hidden.1, hidden.2⟩

end Stabs

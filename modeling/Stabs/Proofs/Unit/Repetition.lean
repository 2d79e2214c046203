import Stabs.Proofs.Unit.Flushing
import Stabs.Proofs.Unit.Succession

/-!
# Flushing again

Whatever is done for a unit, and whether or not it succeeds, numbers stay with their types, statuses
only move forward, and a typedef that is out stays out. A flush that succeeded is therefore over for
good: repeated at once or at any later time, it changes nothing.
-/
namespace Stabs

open TypeDescription

namespace Context

/-- The context that a step leaves behind, also when it fails. -/
def left {α : Type} : EStateM.Result DescribeError Context α → Context
  | .ok _ c => c
  | .error _ c => c

/-- Why a step failed, if it did. -/
def fault? {α : Type} : EStateM.Result DescribeError Context α → Option DescribeError
  | .ok _ _ => none
  | .error cause _ => some cause

theorem eq_ok_of_fault? {result : EStateM.Result DescribeError Context Unit}
    (h : fault? result = none) : result = .ok () (left result) := by
  cases result with
  | ok _ c => rfl
  | error cause c => cases h

/-- Nothing that is numbered or written is taken back. -/
structure Extends (c c' : Context) : Prop where
  numbering : c.numbering.Grows c'.numbering
  typedefs : c.typedefsWritten ⊆ c'.typedefsWritten

/-- What can be done for a unit that is in progress. -/
inductive Operation where
  | symbol (decl : Declaration) (isLocal : Bool)
  | parameters (params : List Declaration)
  | registerParameters (params : List Declaration)
  | typedef (ty : TypeId)
  | typedefs
  | tags (list : List Tag)
  | function (definition : FunctionDefinition)
  | walk (depth : Nat) (params : List Declaration) (statements : List Statement)

def Operation.run (u : CompilationUnit) (target : Target) : Operation → Emitting Unit
  | symbol decl isLocal => emitSymbol u target decl isLocal
  | parameters params => emitParameters u.types target params
  | registerParameters params => emitRegisterParameters u.types target params
  | typedef ty => emitTypedef u.types ty
  | typedefs => flushTypedefs u.types
  | tags list => emitTags u.types list
  | function definition => emitFunction u target definition
  | walk depth params statements => walkAll u target depth params statements

/-- Operations lead from one context to another, those that fail included. -/
inductive Reaches (u : CompilationUnit) (target : Target) (c : Context) : Context → Prop
  | refl : Reaches u target c c
  | step {c' : Context} (before : Reaches u target c c') (operation : Operation) :
      Reaches u target c (left (operation.run u target c'))

variable {u : CompilationUnit} {target : Target} {types : TypeTable} {c c' c'' : Context}

namespace Extends

theorem refl (c : Context) : c.Extends c := ⟨.refl _, List.Subset.refl _⟩

theorem trans (a : c.Extends c') (b : c'.Extends c'') : c.Extends c'' :=
  ⟨a.numbering.trans b.numbering, List.Subset.trans a.typedefs b.typedefs⟩

/-- What is not due any more stays so. -/
theorem idle {task : Task} (h : c.Extends c') (idle : task.Idle c) : task.Idle c' := by
  cases task with
  | typedef ty => exact h.typedefs idle
  | tag name ty => exact h.numbering.defined idle
  | _ => exact idle

end Extends

theorem extends_describe (types : TypeTable) (symbol : Symbol) (c : Context) :
    c.Extends (left (describe types symbol c)) := by
  rw [describe_eq]
  cases run : encode types symbol.ty symbol.full ⟨c.numbering, c.out.begun symbol⟩ with
  | ok _ sheet =>
    obtain ⟨marks, steps, -⟩ := encode_ok rfl run
    exact ⟨steps.grows, List.Subset.refl _⟩
  | error cause sheet =>
    obtain ⟨marks, unwritten, steps, -⟩ := encode_error rfl run
    exact ⟨steps.grows, List.Subset.refl _⟩

/-- A typedef counts as written before its description, and does so even if that fails. -/
theorem extends_emitTypedef (types : TypeTable) (ty : TypeId) (c : Context) :
    c.Extends (left (emitTypedef types ty c)) := by
  cases known : types.get? ty with
  | none =>
    rw [emitTypedef, known]
    exact .refl c
  | some node =>
    cases named : node.typedefName? with
    | none =>
      simp only [emitTypedef, known, named]
      exact .refl c
    | some name =>
      rw [emitTypedef_eq known named]
      have noted : c.Extends { c with typedefsWritten := c.typedefsWritten.insert ty } :=
        ⟨.refl _, fun _ => List.mem_insert_of_mem⟩
      exact noted.trans (extends_describe types _ _)

theorem extends_perform (types : TypeTable) (task : Task) (c : Context) :
    c.Extends (left (perform types task c)) := by
  cases task with
  | typedef ty =>
    rw [perform_typedef]
    split
    · exact .refl c
    · exact extends_emitTypedef types ty c
  | tag name ty =>
    rw [perform_tag]
    split
    · exact .refl c
    · exact extends_describe types _ c
  | symbol symbol => exact extends_describe types symbol c
  | enter =>
    rw [perform_enter]
    split
    · exact ⟨.refl _, List.Subset.refl _⟩
    · exact .refl c
  | _ => exact ⟨.refl _, List.Subset.refl _⟩

theorem extends_performAll (types : TypeTable) (tasks : List Task) (c : Context) :
    c.Extends (left (performAll types tasks c)) := by
  induction tasks generalizing c with
  | nil => exact .refl c
  | cons task tasks ih =>
    have first := extends_perform types task c
    rw [performAll_cons]
    simp only [Bind.bind, EStateM.bind]
    cases run : perform types task c with
    | ok _ c₁ =>
      rw [run] at first
      exact first.trans (ih c₁)
    | error cause c₁ =>
      rw [run] at first
      exact first

/-- No operation takes anything back, wherever it stops. -/
theorem Operation.extends (operation : Operation) (u : CompilationUnit) (target : Target)
    (c : Context) : c.Extends (left (operation.run u target c)) := by
  cases operation with
  | symbol decl isLocal =>
    cases isLocal with
    | true =>
      rw [run, emitLocal_eq]
      exact extends_performAll u.types _ c
    | false =>
      rw [run, emitSymbol_eq]
      exact extends_performAll u.types _ c
  | parameters params =>
    rw [run, emitParameters_eq]
    exact extends_performAll u.types _ c
  | registerParameters params =>
    rw [run, emitRegisterParameters_eq]
    exact extends_performAll u.types _ c
  | typedef ty =>
    rw [run]
    exact extends_emitTypedef u.types ty c
  | typedefs =>
    rw [run, flushTypedefs_eq]
    exact extends_performAll u.types _ c
  | tags list =>
    rw [run, emitTags_eq]
    exact extends_performAll u.types _ c
  | function definition =>
    have item := emitItem_eq u target (.function definition) c
    rw [emitItem] at item
    rw [run, item]
    exact extends_performAll u.types _ c
  | walk depth params statements =>
    rw [run, walkAll_eq]
    exact extends_performAll u.types _ c

theorem Reaches.extends (h : Reaches u target c c') : c.Extends c' := by
  induction h with
  | refl => exact .refl c
  | step before operation ih => exact ih.trans (operation.extends u target _)

/-- A list of tasks that was flushed is passed over from every context that follows. -/
theorem performAll_of_flushed {tasks again : List Task} {flushed later : Context}
    (flush : performAll types tasks c = .ok () flushed)
    (flushes : ∀ task ∈ tasks, task.Flushes types) (kept : flushed.Extends later)
    (part : again ⊆ tasks) : performAll types again later = .ok () later :=
  performAll_of_idle fun task mem => kept.idle (idle_of_flush flush flushes task (part mem))

/-- A flush that succeeds is over for good. From whatever context tags were flushed, flushing them
or some of them again succeeds and leaves the whole context as it is, at once or after anything else
that was done for the unit in between, with or without success; and so it is with typedefs. -/
theorem flush_again (u : CompilationUnit) (target : Target) (c flushed later : Context)
    (reaches : Reaches u target flushed later) :
    (∀ tags, emitTags u.types tags c = .ok () flushed →
      ∀ again, again ⊆ tags → emitTags u.types again later = .ok () later) ∧
    (flushTypedefs u.types c = .ok () flushed → flushTypedefs u.types later = .ok () later) := by
  have kept := reaches.extends
  refine ⟨fun tags flush again part => ?_, fun flush => ?_⟩
  · rw [emitTags_eq] at flush ⊢
    refine performAll_of_flushed flush (fun task mem => ?_) kept fun task mem => ?_
    · obtain ⟨tag, -, mem⟩ := List.mem_flatMap.1 mem
      exact Task.flushes_ofTag mem
    · obtain ⟨tag, some, mem⟩ := List.mem_flatMap.1 mem
      exact List.mem_flatMap.2 ⟨tag, part some, mem⟩
  · rw [flushTypedefs_eq] at flush ⊢
    exact performAll_of_flushed flush (fun task => Task.flushes_ofTypedefs) kept
      (List.Subset.refl _)

end Context

namespace Samples

open Context

/-- A tag whose description fails, one without a name, and two names for one type. -/
def unsizedTags : List Tag :=
  [⟨some "sample", ⟨4⟩⟩, ⟨none, ⟨3⟩⟩, ⟨some "word", .int⟩, ⟨some "number", .int⟩]

/-- The first flush fails and leaves a type that counts as defined, the second passes over it. From
then on, and behind parameters of which one is none, there is nothing to flush; and so it is with
the typedefs of the unit. -/
theorem unsizedMember_again :
    let failed := left (emitTags unsizedMember.types unsizedTags (fresh 2))
    let flushed := left (emitTags unsizedMember.types unsizedTags failed)
    let named := left (flushTypedefs unsizedMember.types flushed)
    let mixed := Operation.parameters
      [.ofParameter "c" .char 8 (.register 9), .ofAutomatic "i" .int 0]
    let later := left (mixed.run unsizedMember {} named)
    fault? (emitTags unsizedMember.types unsizedTags (fresh 2)) = some (.unsizedReal ⟨3⟩) ∧
      emitTags unsizedMember.types unsizedTags failed = .ok () flushed ∧
      flushTypedefs unsizedMember.types flushed = .ok () named ∧
      fault? (mixed.run unsizedMember {} named) = some (.notAParameter "i" "variable") ∧
      emitTags unsizedMember.types [⟨some "number", .int⟩, ⟨some "sample", ⟨4⟩⟩] later =
        .ok () later ∧
      flushTypedefs unsizedMember.types later = .ok () later := by
  intro failed flushed named mixed later
  have fails : fault? (emitTags unsizedMember.types unsizedTags (fresh 2)) =
      some (.unsizedReal ⟨3⟩) := by decide +kernel
  have flushes : fault? (emitTags unsizedMember.types unsizedTags failed) = none := by
    decide +kernel
  have names : fault? (flushTypedefs unsizedMember.types flushed) = none := by decide +kernel
  have stops : fault? (mixed.run unsizedMember {} named) =
      some (.notAParameter "i" "variable") := by decide +kernel
  have flush := eq_ok_of_fault? flushes
  have name := eq_ok_of_fault? names
  have behind : Reaches unsizedMember {} named later := .step .refl mixed
  have between : Reaches unsizedMember {} flushed later := .step (.step .refl .typedefs) mixed
  exact ⟨fails, flush, name, stops,
    (flush_again unsizedMember {} failed flushed later between).1 unsizedTags flush _ (by decide),
    (flush_again unsizedMember {} flushed named later behind).2 name⟩

end Samples

end Stabs

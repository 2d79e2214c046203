import Mathlib.Data.List.Forall2
import Stabs.Proofs.Description.Outcome
import Stabs.Proofs.Unit.Declarations

/-!
# One unit for two targets

Two targets that a unit can be written for get the same records, up to what a target is about: the
label of the text section, the registers and the slots of narrow arguments, and the number of the
first block. The two runs stay in step. They choose the same symbols up to their values, and since a
description is determined by its type and the numbering, the numberings never part.
-/
namespace Stabs

open TypeDescription

section

variable (a b : Target)

/-- The numbers of one block for two targets: as far behind the first block of each. -/
def SameBlock (n m : Nat) : Prop := n + b.firstBlock.toNat = m + a.firstBlock.toNat

/-- The values of one symbol for two targets. A register goes by the register numbers of each
target, and an argument by its byte order. -/
inductive Placement.Alike : Code → Placement → Placement → Prop
  | same (code : Code) (value : Placement) : Alike code value value
  | register (regno : UInt32) : Alike .register (.number (a.debuggerRegister regno).toNat)
      (.number (b.debuggerRegister regno).toNat)
  | argument (info : ParameterInfo) : Alike .parameter (.number (info.offset a))
      (.number (info.offset b))

/-- One record for two targets. -/
inductive Record.Alike : Record → Record → Prop
  | sourceFile (path : String) : Alike (.sourceFile path a.textLabel) (.sourceFile path b.textLabel)
  | symbol (segment : Segment) (continued : Bool) {code : Code} {value other : Placement}
      (values : Placement.Alike a b code value other) :
      Alike (.symbol segment code value continued) (.symbol segment code other continued)
  | left {n m : Nat} (same : SameBlock a b n m) : Alike (.left n) (.left m)
  | right {n m : Nat} (same : SameBlock a b n m) : Alike (.right n) (.right m)

structure Symbol.Alike (s t : Symbol) : Prop where
  rest : t = { s with value := t.value }
  values : Placement.Alike a b s.code s.value t.value

inductive Entry.Alike : Entry → Entry → Prop
  | record {r s : Record} (h : Record.Alike a b r s) : Alike (.record r) (.record s)
  | description {s t : Symbol} (marks : List Mark) (h : Symbol.Alike a b s t) :
      Alike (.description s marks) (.description t marks)

/-- One task for two targets, if it is none of a block. -/
inductive Task.Alike : Task → Task → Prop
  | sourceFile (path : String) : Alike (.sourceFile path a.textLabel) (.sourceFile path b.textLabel)
  | typedef (ty : TypeId) : Alike (.typedef ty) (.typedef ty)
  | tag (name : String) (ty : TypeId) : Alike (.tag name ty) (.tag name ty)
  | symbol {s t : Symbol} (h : Symbol.Alike a b s t) : Alike (.symbol s) (.symbol t)
  | reject (cause : DescribeError) : Alike (.reject cause) (.reject cause)

/-- Two contexts that are in step. -/
structure Context.Alike (c d : Context) : Prop where
  numbering : d.numbering = c.numbering
  typedefs : d.typedefsWritten = c.typedefsWritten
  block : SameBlock a b c.nextBlock.toNat d.nextBlock.toNat

end

variable {a b : Target} {u : CompilationUnit} {types : TypeTable} {c c' d d' : Context}
  {entries others : List Entry}

/-- The segments of a description differ in nothing but the value. -/
theorem segments_alike {code : Code} {value other : Placement}
    (values : Placement.Alike a b code value other) (segment : Segment) (marks : List Mark) :
    List.Forall₂ (Record.Alike a b) (segments code value segment marks)
      (segments code other segment marks) := by
  induction marks generalizing segment with
  | nil => exact .cons (.symbol segment false values) .nil
  | cons m marks ih =>
    cases m with
    | token token => exact ih _
    | safePoint =>
      simp only [segments]
      split
      · exact .cons (.symbol segment true values) (ih [])
      · exact ih segment

theorem Entry.Alike.records {e f : Entry} (h : Entry.Alike a b e f) :
    List.Forall₂ (Record.Alike a b) e.records f.records := by
  cases h with
  | record same => exact .cons same .nil
  | @description s t marks same =>
    obtain ⟨rest, values⟩ := same
    rw [rest]
    exact segments_alike values _ marks

theorem records_alike (h : List.Forall₂ (Entry.Alike a b) entries others) :
    List.Forall₂ (Record.Alike a b) (entries.flatMap Entry.records)
      (others.flatMap Entry.records) :=
  List.rel_flatMap h fun _ _ => Entry.Alike.records

namespace Task

theorem ofChoice_same (choice : Except DescribeError (Option Symbol)) :
    List.Forall₂ (Task.Alike a b) (ofChoice choice) (ofChoice choice) := by
  match choice with
  | .error cause => exact .cons (.reject cause) .nil
  | .ok none => exact .nil
  | .ok (some s) => exact .cons (.symbol ⟨rfl, .same _ _⟩) .nil

/-- The register of a symbol is all that two targets can disagree on. -/
theorem ofChoice_register (name : String) (ty : TypeId) (regno : UInt32) :
    List.Forall₂ (Task.Alike a b) (ofChoice (.ok (some (Symbol.inRegister a name ty regno))))
      (ofChoice (.ok (some (Symbol.inRegister b name ty regno)))) :=
  .cons (.symbol ⟨rfl, .register regno⟩) .nil

theorem ofLocal_alike (decl : Declaration) :
    List.Forall₂ (Task.Alike a b) (ofLocal u a decl) (ofLocal u b decl) := by
  obtain ⟨name, ty, kind⟩ := decl
  cases kind with
  | var info =>
    obtain ⟨_, isExternal, _, _, _, _, location⟩ := info
    cases location with
    | register regno =>
      cases isExternal with
      | true => exact .nil
      | false => exact ofChoice_register name ty regno
    | _ => exact ofChoice_same _
  | _ => exact ofChoice_same _

theorem ofParameter_alike (param : Declaration) :
    List.Forall₂ (Task.Alike a b) (ofParameter a param) (ofParameter b param) := by
  obtain ⟨name, ty, kind⟩ := param
  cases kind with
  | parameter info =>
    refine .cons (.symbol ⟨rfl, ?_⟩) .nil
    have values := @Placement.Alike.argument a b info
    rwa [Symbol.offset_eq, Symbol.offset_eq] at values
  | _ => exact ofChoice_same (.error _)

theorem ofRegisterParameter_alike (param : Declaration) :
    List.Forall₂ (Task.Alike a b) (ofRegisterParameter a param) (ofRegisterParameter b param) := by
  obtain ⟨name, ty, kind⟩ := param
  cases kind with
  | parameter info =>
    obtain ⟨_, location, _, _⟩ := info
    cases location with
    | register regno => exact ofChoice_register name ty regno
    | _ => exact .nil
  | _ => exact ofChoice_same (.error _)

theorem ofTags_alike (tags : List Tag) :
    List.Forall₂ (Task.Alike a b) (tags.flatMap (ofTag types)) (tags.flatMap (ofTag types)) := by
  refine List.forall₂_same.2 fun task mem => ?_
  obtain ⟨tag, -, mem⟩ := List.mem_flatMap.1 mem
  obtain ⟨name, -, ⟨-, rfl⟩ | ⟨node, -, -, rfl⟩⟩ := mem_ofTag.1 mem
  · exact .reject _
  · exact .tag name tag.ty

theorem ofTypedefs_alike :
    List.Forall₂ (Task.Alike a b) (ofTypedefs types) (ofTypedefs types) := by
  refine List.forall₂_same.2 fun task mem => ?_
  obtain ⟨entry, -, rfl⟩ := List.mem_map.1 mem
  exact .typedef entry.1

theorem flatMap_alike {α : Type} {tasks others : α → List Task} (l : List α)
    (h : ∀ x, List.Forall₂ (Task.Alike a b) (tasks x) (others x)) :
    List.Forall₂ (Task.Alike a b) (l.flatMap tasks) (l.flatMap others) := by
  induction l with
  | nil => exact .nil
  | cons x l ih => exact List.rel_append (h x) ih

theorem prelude_alike :
    List.Forall₂ (Task.Alike a b) (prelude u a) (prelude u b) :=
  .cons (.sourceFile _) (.cons (.typedef .int) (.cons (.typedef .char) ofTypedefs_alike))

theorem ofSymbol_alike (decl : Declaration) :
    List.Forall₂ (Task.Alike a b) (ofSymbol u a decl) (ofSymbol u b decl) :=
  List.rel_append (List.rel_append (ofTags_alike u.tags) ofTypedefs_alike) (ofLocal_alike decl)

end Task

/-- One symbol is described in contexts that are in step. Both descriptions leave the same marks and
the same numbering, since the steps from the type are determined. -/
theorem described_alike {s t : Symbol} {marks marks' : List Mark} {N N' : Numbering}
    {out out' : Emitter} {typedefs : List TypeId} (alike : Context.Alike a b c d)
    (same : Symbol.Alike a b s t) (steps : Steps types c.numbering [.reference s.ty s.full] marks N [])
    (steps' : Steps types d.numbering [.reference t.ty t.full] marks' N' []) :
    List.Forall₂ (Entry.Alike a b) [.description s marks] [.description t marks'] ∧
      Context.Alike a b { c with numbering := N, out := out, typedefsWritten := typedefs }
        { d with numbering := N', out := out', typedefsWritten := typedefs } := by
  rw [alike.numbering, same.rest] at steps'
  obtain ⟨rfl, rfl, -⟩ := steps.unique (.inl rfl) steps' (.inl rfl)
  exact ⟨.cons (.description marks same) .nil, ⟨rfl, rfl, alike.block⟩⟩

/-- Tasks that are alike have the same symbol due in contexts that are in step, if any. -/
theorem Task.Alike.due (types : TypeTable) {t t' : Task} (h : Task.Alike a b t t')
    (alike : Context.Alike a b c d) :
    (t.due types c = none ∧ t'.due types d = none) ∨ ∃ s s', t.due types c = some s ∧
      t'.due types d = some s' ∧ Symbol.Alike a b s s' := by
  have same {t : Task} (e : t.due types d = t.due types c) :
      (t.due types c = none ∧ t.due types d = none) ∨ ∃ s s', t.due types c = some s ∧
        t.due types d = some s' ∧ Symbol.Alike a b s s' := by
    rw [e]
    cases t.due types c with
    | none => exact .inl ⟨rfl, rfl⟩
    | some s => exact .inr ⟨s, s, rfl, rfl, rfl, .same _ _⟩
  cases h with
  | sourceFile => exact .inl ⟨rfl, rfl⟩
  | typedef ty => exact same (by rw [Task.due, Task.due, alike.typedefs])
  | tag name ty => exact same (by rw [Task.due, Task.due, alike.numbering])
  | symbol h => exact .inr ⟨_, _, rfl, rfl, h⟩
  | reject cause => exact .inl ⟨rfl, rfl⟩

/-- A task with a symbol due describes it. -/
theorem Acts.of_due {task : Task} {s : Symbol} (h : Acts types c task entries c')
    (due : task.due types c = some s) :
    ∃ marks N out, Steps types c.numbering [.reference s.ty s.full] marks N [] ∧
      entries = [.description s marks] ∧ c' =
        { c with numbering := N, out := out, typedefsWritten := task.written c.typedefsWritten } := by
  cases h with
  | @described _ symbol marks N due' steps =>
    cases due.symm.trans due'
    exact ⟨marks, N, _, steps, rfl, rfl⟩
  | typedefOut out =>
    rw [Task.due, if_pos (List.contains_iff_mem.2 out)] at due
    cases due
  | tagOut out =>
    rw [Task.due, if_pos out] at due
    cases due
  | _ => cases due

/-- Tasks that are alike keep contexts in step. -/
theorem Acts.alike {t t' : Task} (same : Task.Alike a b t t') (h : Acts types c t entries c')
    (h' : Acts types d t' others d') (alike : Context.Alike a b c d) :
    List.Forall₂ (Entry.Alike a b) entries others ∧ Context.Alike a b c' d' := by
  rcases same.due types alike with ⟨none, none'⟩ | ⟨s, s', due, due', symbols⟩
  · -- neither run describes anything
    cases same with
    | sourceFile path =>
      cases h with
      | described due => cases due
      | sourceFile =>
        cases h' with
        | described due => cases due
        | sourceFile =>
          exact ⟨.cons (.record (.sourceFile path)) .nil, alike.numbering, alike.typedefs, alike.block⟩
    | typedef ty =>
      cases h with
      | described due => cases none.symm.trans due
      | typedefOut =>
        cases h' with
        | described due => cases none'.symm.trans due
        | typedefOut => exact ⟨.nil, alike⟩
    | tag name ty =>
      cases h with
      | described due => cases none.symm.trans due
      | tagOut =>
        cases h' with
        | described due => cases none'.symm.trans due
        | tagOut => exact ⟨.nil, alike⟩
    | symbol => cases none
    | reject cause => exact (h.not_reject).elim
  · obtain ⟨marks, N, out, steps, rfl, rfl⟩ := h.of_due due
    obtain ⟨marks', N', out', steps', rfl, rfl⟩ := h'.of_due due'
    have written : t'.written d.typedefsWritten = t.written c.typedefsWritten := by
      rw [alike.typedefs]
      cases same <;> rfl
    rw [written]
    exact described_alike alike symbols steps steps'

theorem Performs.alike {tasks tasks' : List Task} (same : List.Forall₂ (Task.Alike a b) tasks tasks')
    (h : Performs types c tasks entries c') (h' : Performs types d tasks' others d')
    (alike : Context.Alike a b c d) :
    List.Forall₂ (Entry.Alike a b) entries others ∧ Context.Alike a b c' d' := by
  induction same generalizing c d entries others with
  | nil =>
    cases h
    cases h'
    exact ⟨.nil, alike⟩
  | cons head tail ih =>
    cases h with
    | cons first rest =>
      cases h' with
      | cons first' rest' =>
        obtain ⟨before, between⟩ := first.alike head first' alike
        obtain ⟨behind, after⟩ := ih rest rest' between
        exact ⟨List.rel_append before behind, after⟩

/-- Tasks that are alike take no numbers of blocks. -/
theorem Performs.same_block {tasks tasks' : List Task}
    (same : List.Forall₂ (Task.Alike a b) tasks tasks') (h : Performs types c tasks entries c')
    (h' : Performs types d tasks' others d') :
    c.nextBlock = c'.nextBlock ∧ d.nextBlock = d'.nextBlock := by
  rw [← h.nextBlock_eq, ← h'.nextBlock_eq]
  clear h h'
  induction same with
  | nil => exact ⟨rfl, rfl⟩
  | cons head _ ih => cases head <;> exact ih

namespace Performs

mutual

/-- A statement keeps two runs in step, and its blocks have the same places in both. -/
theorem statement_alike (statement : Statement) {depth : Nat} {params : List Declaration}
    {c c' d d' : Context} {entries others : List Entry}
    (h : Performs u.types c (Task.ofStatement u a depth params c.nextBlock statement) entries c')
    (h' : Performs u.types d (Task.ofStatement u b depth params d.nextBlock statement) others d')
    (alike : Context.Alike a b c d) :
    List.Forall₂ (Entry.Alike a b) entries others ∧ Context.Alike a b c' d' := by
  cases statement with
  | compound body =>
    rw [Task.ofStatement] at h h'
    exact statements_alike body h h' alike
  | loop body =>
    rw [Task.ofStatement] at h h'
    exact statements_alike body h h' alike
  | branch thenPart otherwise =>
    rw [Task.ofStatement] at h h'
    obtain ⟨middle, first, second, before, behind, rfl⟩ := h.of_append
    obtain ⟨middle', first', second', before', behind', rfl⟩ := h'.of_append
    rw [before.nextBlock_eq] at behind
    rw [before'.nextBlock_eq] at behind'
    obtain ⟨front, between⟩ := statements_alike thenPart before before' alike
    obtain ⟨back, after⟩ := statements_alike otherwise behind behind' between
    exact ⟨List.rel_append front back, after⟩
  | scope tags vars body =>
    rw [Task.ofStatement] at h h'
    obtain ⟨c₁, own, rest, ofScope, inside, rfl⟩ := h.of_append
    obtain ⟨d₁, own', rest', ofScope', inside', rfl⟩ := h'.of_append
    have tasks := List.rel_append
      (List.rel_append (@Task.ofTags_alike a b u.types tags)
        (Task.flatMap_alike vars (@Task.ofLocal_alike a b u)))
      (Task.flatMap_alike params (@Task.ofRegisterParameter_alike a b))
    obtain ⟨front, between⟩ := ofScope.alike tasks ofScope' alike
    obtain ⟨next, next'⟩ := same_block tasks ofScope ofScope'
    rw [next] at inside
    rw [next'] at inside'
    by_cases enclosed : 0 < depth
    · rw [if_pos enclosed] at inside inside'
      obtain ⟨c₂, inner, run, taken, rfl, rfl⟩ := inside.of_block
      obtain ⟨d₂, inner', run', taken', rfl, rfl⟩ := inside'.of_block
      have block : SameBlock a b c₁.nextBlock.toNat d₁.nextBlock.toNat := between.block
      have entered : Context.Alike a b c₁.entered d₁.entered := by
        refine ⟨between.numbering, between.typedefs, ?_⟩
        unfold SameBlock at block ⊢
        omega
      obtain ⟨back, after⟩ := statements_alike body run run' entered
      refine ⟨List.rel_append front ?_, after.numbering, after.typedefs, after.block⟩
      exact .cons (.record (.left block))
        (List.rel_append back (.cons (.record (.right block)) .nil))
    · rw [if_neg enclosed] at inside inside'
      obtain ⟨back, after⟩ := statements_alike body inside inside' between
      exact ⟨List.rel_append front back, after⟩

theorem statements_alike (statements : List Statement) {depth : Nat} {params : List Declaration}
    {c c' d d' : Context} {entries others : List Entry}
    (h : Performs u.types c (Task.ofStatements u a depth params c.nextBlock statements) entries c')
    (h' : Performs u.types d (Task.ofStatements u b depth params d.nextBlock statements) others d')
    (alike : Context.Alike a b c d) :
    List.Forall₂ (Entry.Alike a b) entries others ∧ Context.Alike a b c' d' := by
  cases statements with
  | nil =>
    rw [Task.ofStatements] at h h'
    exact h.alike .nil h' alike
  | cons statement rest =>
    rw [Task.ofStatements] at h h'
    obtain ⟨middle, first, second, head, tail, rfl⟩ := h.of_append
    obtain ⟨middle', first', second', head', tail', rfl⟩ := h'.of_append
    rw [head.nextBlock_eq] at tail
    rw [head'.nextBlock_eq] at tail'
    obtain ⟨front, between⟩ := statement_alike statement head head' alike
    obtain ⟨back, after⟩ := statements_alike rest tail tail' between
    exact ⟨List.rel_append front back, after⟩

end

theorem item_alike {item : Item}
    (h : Performs u.types c (Task.ofItem u a c.nextBlock item) entries c')
    (h' : Performs u.types d (Task.ofItem u b d.nextBlock item) others d')
    (alike : Context.Alike a b c d) :
    List.Forall₂ (Entry.Alike a b) entries others ∧ Context.Alike a b c' d' := by
  cases item with
  | symbol decl => exact h.alike (Task.ofSymbol_alike decl) h' alike
  | function definition =>
    obtain ⟨c₁, own, rest, front, body, rfl⟩ := h.of_append
    obtain ⟨d₁, own', rest', front', body', rfl⟩ := h'.of_append
    have tasks := List.rel_append (@Task.ofSymbol_alike a b u definition.decl)
      (Task.flatMap_alike definition.params (@Task.ofParameter_alike a b))
    obtain ⟨next, next'⟩ := same_block tasks front front'
    rw [next] at body
    rw [next'] at body'
    obtain ⟨before, between⟩ := front.alike tasks front' alike
    obtain ⟨behind, after⟩ := statements_alike definition.body body body' between
    exact ⟨List.rel_append before behind, after⟩

theorem items_alike {items : List Item}
    (h : Performs u.types c (Task.ofItems u a c.nextBlock items) entries c')
    (h' : Performs u.types d (Task.ofItems u b d.nextBlock items) others d')
    (alike : Context.Alike a b c d) :
    List.Forall₂ (Entry.Alike a b) entries others ∧ Context.Alike a b c' d' := by
  induction items generalizing c d entries others with
  | nil => exact h.alike .nil h' alike
  | cons item rest ih =>
    rw [Task.ofItems] at h h'
    obtain ⟨middle, first, second, head, tail, rfl⟩ := h.of_append
    obtain ⟨middle', first', second', head', tail', rfl⟩ := h'.of_append
    rw [head.nextBlock_eq] at tail
    rw [head'.nextBlock_eq] at tail'
    obtain ⟨front, between⟩ := item_alike head head' alike
    obtain ⟨back, after⟩ := ih tail tail' between
    exact ⟨List.rel_append front back, after⟩

end Performs

/-- What is written for two targets is the same up to what the targets are about. The records are
as many, and one by one they agree in kind, text, code, continuation and path. Only the label of
the source file, the numbers of registers, the offsets of arguments and the numbers of markers
differ, the last ones by the distance of the two first blocks. All types have the same numbers and
statuses. -/
theorem Writer.describe_alike {first second after after' : Writer} {records records' : List Record}
    (h : first.describe u = (.ok records, after))
    (h' : second.describe u = (.ok records', after')) :
    List.Forall₂ (Record.Alike first.target second.target) records records' ∧
      after'.context.numbering = after.context.numbering := by
  obtain ⟨middle, last, prelude, entries, -, front, items, next, rfl, numbering⟩ := describe_parts h
  obtain ⟨middle', last', prelude', entries', -, front', items', next', rfl, numbering'⟩ :=
    describe_parts h'
  have fresh : Context.Alike first.target second.target (.fresh first.target.firstBlock)
      (.fresh second.target.firstBlock) := ⟨rfl, rfl, Nat.add_comm _ _⟩
  obtain ⟨before, between⟩ := front.alike Task.prelude_alike front' fresh
  rw [← next] at items
  rw [← next'] at items'
  obtain ⟨behind, ended⟩ := items.items_alike items' between
  refine ⟨records_alike (List.rel_append before behind), ?_⟩
  rw [numbering, numbering', ended.numbering]

/-- A big-endian target with other registers and blocks writes the sample of a list alike. -/
theorem Samples.linkedList_alike :
    ∃ other : Target, other.bigEndian = true ∧ other.firstBlock = 7 ∧
      ∃ records after records' after',
        (Writer.ofTarget {}).describe linkedList = (.ok records, after) ∧
        (Writer.ofTarget other).describe linkedList = (.ok records', after') ∧
          List.Forall₂ (Record.Alike {} other) records records' := by
  let other : Target := { bigEndian := true, firstBlock := 7, registers := [⟨9, 3⟩] }
  have run : ((Writer.ofTarget {}).describe linkedList).1.toOption.isSome = true := by
    decide +kernel
  have run' : ((Writer.ofTarget other).describe linkedList).1.toOption.isSome = true := by
    decide +kernel
  refine ⟨other, rfl, rfl, ?_⟩
  cases h : (Writer.ofTarget {}).describe linkedList with
  | mk result after =>
    cases h' : (Writer.ofTarget other).describe linkedList with
    | mk result' after' =>
      rw [h] at run
      rw [h'] at run'
      cases result with
      | error cause => cases run
      | ok records =>
        cases result' with
        | error cause => cases run'
        | ok records' =>
          exact ⟨records, after, records', after', rfl, rfl, (Writer.describe_alike h h').1⟩

end Stabs

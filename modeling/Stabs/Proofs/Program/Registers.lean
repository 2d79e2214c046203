import Mathlib.Logic.Function.Basic
import Stabs.Interchange.Target

/-!
# Renumbering registers again and again

A target may come with several entries for one register, of which the first counts. A renumbering
drops all entries of its register and adds its own at the end. So behind any renumberings the last
one of a register is its only entry, and a register that none of them names has the entries that it
had, in front of the new ones.
-/
namespace Stabs

namespace Target

/-- Makes renumberings one after the other. -/
def renumberAll (target : Target) (calls : List RegisterMapping) : Target :=
  calls.foldl (fun target call => target.withRegister call.hard call.debugger) target

/-- None of the mappings is for the register. -/
def Unnamed (regno : UInt32) (mappings : List RegisterMapping) : Prop :=
  ∀ mapping ∈ mappings, mapping.hard ≠ regno

instance (regno : UInt32) (mappings : List RegisterMapping) : Decidable (Unnamed regno mappings) :=
  inferInstanceAs (Decidable (∀ mapping ∈ mappings, mapping.hard ≠ regno))

/-- The entries for one register, in their order. -/
def entriesFor (target : Target) (regno : UInt32) : List RegisterMapping :=
  target.registers.filter (·.hard == regno)

/-- What a target has become through renumberings. -/
structure Renumbered (target : Target) (calls : List RegisterMapping) (after : Target) : Prop where
  updates : after.debuggerRegister =
    calls.foldl (fun numbers call => Function.update numbers call.hard call.debugger)
      target.debuggerRegister
  last : ∀ before call behind, calls = before ++ call :: behind → Unnamed call.hard behind →
    after.entriesFor call.hard = [call] ∧ after.debuggerRegister call.hard = call.debugger
  single : ∀ call ∈ calls, (after.entriesFor call.hard).length = 1
  same : ∀ regno, Unnamed regno calls →
    after.debuggerRegister regno = target.debuggerRegister regno
  first : ∀ before mapping behind, target.registers = before ++ mapping :: behind →
    Unnamed mapping.hard before → Unnamed mapping.hard calls →
      after.debuggerRegister mapping.hard = mapping.debugger
  own : ∀ regno, Unnamed regno target.registers → Unnamed regno calls →
    after.debuggerRegister regno = regno
  kept : ∃ added, added.Sublist calls ∧ after =
    { target with registers := target.registers.filter (Unnamed ·.hard calls) ++ added }

variable {target : Target} {calls : List RegisterMapping} {regno : UInt32}

@[simp] theorem unnamed_nil : Unnamed regno [] := List.forall_mem_nil _

@[simp] theorem unnamed_cons {mapping : RegisterMapping} {rest : List RegisterMapping} :
    Unnamed regno (mapping :: rest) ↔ mapping.hard ≠ regno ∧ Unnamed regno rest :=
  List.forall_mem_cons

theorem filter_eq_nil_of_unnamed {mappings : List RegisterMapping} (h : Unnamed regno mappings) :
    mappings.filter (·.hard == regno) = [] :=
  List.filter_eq_nil_iff.2 fun mapping member => by simpa using h mapping member

/-- Only the entries for a register count for its number. -/
theorem debuggerRegister_eq (target : Target) (regno : UInt32) :
    target.debuggerRegister regno =
      ((target.entriesFor regno).head?.map (·.debugger)).getD regno := by
  rw [entriesFor, List.head?_filter, debuggerRegister]
  cases target.registers.find? (·.hard == regno) <;> rfl

theorem debuggerRegister_of_first {before behind : List RegisterMapping} {mapping : RegisterMapping}
    (split : target.registers = before ++ mapping :: behind)
    (unnamed : Unnamed mapping.hard before) :
    target.debuggerRegister mapping.hard = mapping.debugger := by
  rw [debuggerRegister_eq, entriesFor, split, List.filter_append, filter_eq_nil_of_unnamed unnamed]
  simp

theorem debuggerRegister_of_unnamed (unnamed : Unnamed regno target.registers) :
    target.debuggerRegister regno = regno := by
  rw [debuggerRegister_eq, entriesFor, filter_eq_nil_of_unnamed unnamed]
  rfl

/-! ## One renumbering -/

theorem entriesFor_withRegister_self (target : Target) (hard debugger : UInt32) :
    (target.withRegister hard debugger).entriesFor hard = [⟨hard, debugger⟩] := by
  simp [entriesFor, withRegister, List.filter_filter]

theorem entriesFor_withRegister_of_ne {hard : UInt32} (different : regno ≠ hard)
    (target : Target) (debugger : UInt32) :
    (target.withRegister hard debugger).entriesFor regno = target.entriesFor regno := by
  have added : [(⟨hard, debugger⟩ : RegisterMapping)].filter (·.hard == regno) = [] :=
    filter_eq_nil_of_unnamed (by simpa using different.symm)
  rw [entriesFor, withRegister, List.filter_append, added, List.append_nil, List.filter_filter]
  apply List.filter_congr
  intro mapping _
  by_cases mine : mapping.hard = regno
  · simp [mine, different]
  · simp [mine]

/-- One renumbering changes the number of one register. -/
theorem debuggerRegister_withRegister (target : Target) (hard debugger : UInt32) :
    (target.withRegister hard debugger).debuggerRegister =
      Function.update target.debuggerRegister hard debugger := by
  funext regno
  by_cases same : regno = hard
  · subst same
    rw [Function.update_self, debuggerRegister_eq, entriesFor_withRegister_self]
    rfl
  · rw [Function.update_of_ne same, debuggerRegister_eq, entriesFor_withRegister_of_ne same,
      ← debuggerRegister_eq]

/-- Of the entries that later renumberings leave, one renumbering drops those of its register. -/
theorem filter_withRegister (target : Target) (call : RegisterMapping)
    (rest : List RegisterMapping) :
    (target.withRegister call.hard call.debugger).registers.filter (Unnamed ·.hard rest) =
      target.registers.filter (Unnamed ·.hard (call :: rest)) ++
        [call].filter (Unnamed ·.hard rest) := by
  rw [withRegister, List.filter_append, List.filter_filter]
  congr 1
  apply List.filter_congr
  intro mapping _
  simp [eq_comm, Bool.and_comm]

/-! ## All renumberings -/

theorem renumberAll_append (target : Target) (before behind : List RegisterMapping) :
    target.renumberAll (before ++ behind) = (target.renumberAll before).renumberAll behind :=
  List.foldl_append

/-- Each renumbering is an update of the numbers. -/
theorem debuggerRegister_renumberAll (target : Target) (calls : List RegisterMapping) :
    (target.renumberAll calls).debuggerRegister =
      calls.foldl (fun numbers call => Function.update numbers call.hard call.debugger)
        target.debuggerRegister := by
  induction calls generalizing target with
  | nil => rfl
  | cons call rest ih =>
    rw [List.foldl_cons, ← debuggerRegister_withRegister]
    exact ih _

theorem entriesFor_renumberAll (target : Target) (unnamed : Unnamed regno calls) :
    (target.renumberAll calls).entriesFor regno = target.entriesFor regno := by
  induction calls generalizing target with
  | nil => rfl
  | cons call rest ih =>
    obtain ⟨different, others⟩ := unnamed_cons.1 unnamed
    exact (ih _ others).trans (entriesFor_withRegister_of_ne (Ne.symm different) target _)

theorem debuggerRegister_renumberAll_of_unnamed (target : Target)
    (unnamed : Unnamed regno calls) :
    (target.renumberAll calls).debuggerRegister regno = target.debuggerRegister regno := by
  rw [debuggerRegister_eq, entriesFor_renumberAll target unnamed, ← debuggerRegister_eq]

/-- The last renumbering of a register is its only entry. -/
theorem entriesFor_renumberAll_last (target : Target) (before : List RegisterMapping)
    {call : RegisterMapping} {behind : List RegisterMapping}
    (unnamed : Unnamed call.hard behind) :
    (target.renumberAll (before ++ call :: behind)).entriesFor call.hard = [call] := by
  rw [renumberAll_append]
  exact (entriesFor_renumberAll _ unnamed).trans (entriesFor_withRegister_self _ _ _)

theorem length_entriesFor_renumberAll (target : Target) (named : ¬ Unnamed regno calls) :
    ((target.renumberAll calls).entriesFor regno).length = 1 := by
  induction calls generalizing target with
  | nil => exact absurd unnamed_nil named
  | cons call rest ih =>
    -- A call that is not the last one for the register leaves no trace of its own.
    by_cases again : Unnamed regno rest
    · have mine : call.hard = regno := by simpa [again] using named
      subst mine
      exact congrArg List.length
        ((entriesFor_renumberAll _ again).trans (entriesFor_withRegister_self target _ _))
    · exact ih _ again

/-- The entries that no renumbering drops stay in front of those that renumberings add. -/
theorem exists_added (target : Target) (calls : List RegisterMapping) :
    ∃ added, added.Sublist calls ∧ target.renumberAll calls =
      { target with registers := target.registers.filter (Unnamed ·.hard calls) ++ added } := by
  induction calls generalizing target with
  | nil =>
    have whole : target.registers.filter (Unnamed ·.hard []) ++ [] = target.registers := by simp
    exact ⟨[], .slnil, by rw [whole]; rfl⟩
  | cons call rest ih =>
    obtain ⟨added, part, after⟩ := ih (target.withRegister call.hard call.debugger)
    refine ⟨[call].filter (Unnamed ·.hard rest) ++ added, List.filter_sublist.append part, ?_⟩
    rw [filter_withRegister, List.append_assoc] at after
    exact after

/-- Behind any renumberings of any target the numbers of the registers are those of the target,
updated one after the other: the last renumbering of a register gives its number and is its only
entry, and a register that none of them names keeps its number, which is that of the first entry
for it or its own. The entries of these registers are all kept, in their order, and nothing but the
entries changes. -/
theorem renumbered_renumberAll (target : Target) (calls : List RegisterMapping) :
    Renumbered target calls (target.renumberAll calls) where
  updates := debuggerRegister_renumberAll target calls
  last := by
    rintro before call behind rfl unnamed
    have entries := entriesFor_renumberAll_last target before unnamed
    exact ⟨entries, by rw [debuggerRegister_eq, entries]; rfl⟩
  single call member :=
    length_entriesFor_renumberAll target fun unnamed => unnamed call member rfl
  same _ := debuggerRegister_renumberAll_of_unnamed target
  first before mapping behind split unnamed uncalled := by
    rw [debuggerRegister_renumberAll_of_unnamed target uncalled]
    exact debuggerRegister_of_first split unnamed
  own regno unnamed uncalled := by
    rw [debuggerRegister_renumberAll_of_unnamed target uncalled]
    exact debuggerRegister_of_unnamed unnamed
  kept := exists_added target calls

/-- A text may hold two entries for a register. Renumbering the register drops both, and another one
keeps its two. -/
example :
    (parse "register_numbers = [[5, 1], [7, 3], [5, 2], [7, 4]]").toOption.map (fun target =>
      let after := target.renumberAll [⟨5, 8⟩, ⟨9, 0⟩, ⟨5, 6⟩]
      (target.debuggerRegister 5, after.registers, [5, 7, 9, 2].map after.debuggerRegister)) =
    some (1, [⟨7, 3⟩, ⟨7, 4⟩, ⟨9, 0⟩, ⟨5, 6⟩], [6, 3, 0, 2]) := by
  decide +kernel

end Target

end Stabs

import Stabs.Proofs.Description.References
import Stabs.Proofs.Unit.Builtins
import Stabs.Samples

/-!
# The references of a unit

Across all descriptions of a unit the references stand in one order, from the typedef of `int` to
the last symbol.
-/
namespace Stabs

open TypeDescription

theorem tokens_segments (code : Code) (value : Placement) (segment : Segment)
    (marks : List Mark) :
    (segments code value segment marks).flatMap Record.tokens = segment ++ tokens marks := by
  induction marks generalizing segment with
  | nil => simp [segments, Record.tokens, tokens]
  | cons m marks ih =>
    cases m with
    | token token =>
      rw [segments, ih, List.append_assoc]
      rfl
    | safePoint =>
      rw [segments]
      split
      · rw [List.flatMap_cons, ih]
        rfl
      · exact ih segment

namespace Entry

def tokens (entry : Entry) : List Token := entry.records.flatMap Record.tokens

theorem tokens_description (symbol : Symbol) (marks : List Mark) :
    (description symbol marks).tokens = symbol.heading :: TypeDescription.tokens marks :=
  tokens_segments _ _ _ _

end Entry

variable {types : TypeTable} {c c' : Context} {task : Task} {tasks : List Task}
  {entries journal : List Entry} {refs : List Reference}

theorem Acts.calm (h : Acts types c task entries c') : Calm (entries.flatMap Entry.tokens) := by
  cases h with
  | described =>
    rw [List.flatMap_singleton, Entry.tokens_description]
    exact calm_cons rfl
  | _ => exact calm_nil

theorem Acts.orderly (h : Acts types c task entries c') (sound : Sound types c.numbering)
    (orderly : Orderly types c.numbering refs) :
    Orderly types c'.numbering (refs ++ references (entries.flatMap Entry.tokens)) := by
  cases h with
  | described _ steps =>
    rw [List.flatMap_singleton, Entry.tokens_description]
    exact steps.orderly (plain_reference _ _) sound orderly
  | _ =>
    change Orderly types c.numbering _
    simpa [references, Entry.tokens, Entry.records, Record.tokens] using orderly

namespace Performs

theorem calm (h : Performs types c tasks journal c') : Calm (journal.flatMap Entry.tokens) := by
  induction h with
  | nil => exact calm_nil
  | cons first _ ih =>
    rw [List.flatMap_append]
    exact first.calm.append ih

/-- The references of all tasks go on in order with those before them. -/
theorem orderly (h : Performs types c tasks journal c') (sound : Sound types c.numbering)
    (orderly : Orderly types c.numbering refs) :
    Orderly types c'.numbering (refs ++ references (journal.flatMap Entry.tokens)) := by
  induction h generalizing refs with
  | nil => simpa [references] using orderly
  | cons first rest ih =>
    rw [List.flatMap_append, references_append rest.calm, ← List.append_assoc]
    exact ih (first.sound sound) (first.orderly sound orderly)

end Performs

/-- The references of a unit, read off its records, are in order, and the numbering that the unit
leaves behind starts with `int`, `char` and `void`. -/
theorem Writer.describe_orderly {writer after : Writer} {u : CompilationUnit}
    {records : List Record} (h : writer.describe u = (.ok records, after)) :
    Orderly u.types after.context.numbering (references (records.flatMap Record.tokens)) ∧
      after.context.numbering.number? .int = some .int ∧
        after.context.numbering.number? .char = some .char ∧
          after.context.numbering.number? .void = some ⟨3⟩ := by
  obtain ⟨journal, c, performs, rfl, same⟩ := Writer.describe_ok h
  rw [same]
  have orderly := performs.orderly (sound_empty u.types) (.empty u.types)
  have all : (journal.flatMap Entry.records).flatMap Record.tokens =
      journal.flatMap Entry.tokens := List.flatMap_assoc
  exact ⟨by rwa [all], performs.number?_builtins⟩

/-- A record is cross-referenced and defined later; another one is cross-referenced twice. -/
theorem Samples.forwardReferences_orderly :
    ∃ records after, (Writer.ofTarget {}).describe forwardReferences = (.ok records, after) ∧
      references (records.flatMap Record.tokens) =
        [⟨⟨1⟩, .definition⟩, ⟨⟨2⟩, .definition⟩, ⟨⟨3⟩, .definition⟩, ⟨⟨4⟩, .definition⟩,
          ⟨⟨5⟩, .crossReference .record "node"⟩, ⟨⟨5⟩, .definition⟩, ⟨⟨4⟩, .bare⟩,
          ⟨⟨6⟩, .crossReference .record "hidden"⟩, ⟨⟨6⟩, .crossReference .record "hidden"⟩] ∧
      Orderly forwardReferences.types after.context.numbering
        (references (records.flatMap Record.tokens)) := by
  have run : ((Writer.ofTarget {}).describe forwardReferences).1.toOption.map
      (fun records => references (records.flatMap Record.tokens)) = some
        [⟨⟨1⟩, .definition⟩, ⟨⟨2⟩, .definition⟩, ⟨⟨3⟩, .definition⟩, ⟨⟨4⟩, .definition⟩,
          ⟨⟨5⟩, .crossReference .record "node"⟩, ⟨⟨5⟩, .definition⟩, ⟨⟨4⟩, .bare⟩,
          ⟨⟨6⟩, .crossReference .record "hidden"⟩, ⟨⟨6⟩, .crossReference .record "hidden"⟩] := by
    decide +kernel
  cases h : (Writer.ofTarget {}).describe forwardReferences with
  | mk result after =>
    rw [h] at run
    cases result with
    | error cause => cases run
    | ok records => exact ⟨records, after, rfl, Option.some.inj run, (Writer.describe_orderly h).1⟩

end Stabs

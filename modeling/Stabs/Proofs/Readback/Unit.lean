import Stabs.Proofs.Readback.Legible
import Stabs.Proofs.Readback.Recovery
import Stabs.Proofs.Unit.References

/-!
# Reading a unit back

The records of a unit whose names are identifiers are read back whole: each description with the
name, the letter and the number that it was written for, and all contents together as a table of
the types that the unit numbers.
-/
namespace Stabs

open TypeDescription

namespace Readback

variable {types : TypeTable} {F N M : Numbering} {c c' : Context} {tasks : List Task}
  {journal : List Entry}

theorem toList_text (segment : Segment) :
    (Segment.text segment).toList = segment.flatMap fun token => token.text.toList := by
  rw [Segment.text, String.toList_join, List.flatMap_map]

/-- The segments of a description make up one text, whatever the cuts. -/
theorem texts_segments (code : Code) (value : Placement) (segment : Segment) (marks : List Mark)
    (text : List Char) (rest : List Record) :
    texts text (segments code value segment marks ++ rest) =
      (text ++ (Segment.text segment).toList ++ chars marks) :: texts [] rest := by
  induction marks generalizing segment text with
  | nil => simp [segments, texts]
  | cons m marks ih =>
    cases m with
    | token token =>
      rw [segments, ih]
      simp [toList_text]
    | safePoint =>
      rw [segments]
      split
      · rw [List.cons_append, texts, if_pos rfl, ih]
        simp [toList_text]
      · exact ih segment text

theorem toList_heading (symbol : Symbol) :
    symbol.heading.text.toList = symbol.name.toList ++ ':' :: symbol.letter.toList := by
  unfold Symbol.heading
  cases symbol.letter with
  | none => simp [Token.text]
  | some c => simp [Token.text]

/-- The letter is read in front of a number. -/
theorem reads_letter {symbol : Symbol} (legible : symbol.Legible) (n : Nat)
    (more rest : List Char) :
    Reads letter symbol.letter.toList symbol.letter (Nat.toDigits 10 n ++ more ++ rest) := by
  unfold letter
  apply Reads.peek
  cases hl : symbol.letter with
  | none =>
    obtain ⟨d, hd, digit⟩ := head_toDigits n (more ++ rest)
    simp only [Option.toList_none, List.nil_append, List.append_assoc, hd, digit, if_true]
    exact .pure _ _
  | some c =>
    have letter := legible.letter c hl
    simp only [Option.toList_some, List.cons_append, List.head?_cons, letter,
      Bool.false_eq_true, if_false]
    exact .expect_bind (.pure _ _)

/-- A description is read back whole. -/
theorem readDescription_eq {symbol : Symbol} {marks : List Mark} (legible : symbol.Legible)
    (named : Named types) (int : F.number? .int = some .int) (char : F.number? .char = some .char)
    (steps : Steps types N [.reference symbol.ty symbol.full] marks M [])
    (sound : Sound types N) (grows : M.Grows F) :
    ∃ n contents, F.number? symbol.ty = some n ∧
      Tells types F (symbol.heading :: tokens marks) contents ∧
        readDescription (symbol.heading.text.toList ++ chars marks) =
          some (⟨symbol.name, symbol.letter, n⟩, contents) := by
  have heading : symbol.heading.text.toList ++ chars marks =
      symbol.name.toList ++ ':' :: (symbol.letter.toList ++ chars marks) := by
    rw [toList_heading, List.append_assoc]
    rfl
  rw [heading]
  generalize ht : symbol.name.toList ++ ':' :: (symbol.letter.toList ++ chars marks) = text
  have len : (chars marks).length ≤ text.length := by
    rw [← ht, List.length_append, List.length_cons, List.length_append]
    omega
  obtain ⟨n, contents, number, tells, reads⟩ :=
    readsReferences named int char text.length steps sound grows len
  refine ⟨n, contents, number, tells.cons (by simp [Symbol.heading]), ?_⟩
  have read : Reads description text (⟨symbol.name, symbol.letter, n⟩, contents) [] := by
    unfold Reads description
    rw [List.append_nil]
    have all : Reads (do
        let name ← name
        let letter ← letter
        let p ← reference text.length
        return (Headline.mk name letter p.1, p.2))
        (symbol.name.toList ++ ':' :: (symbol.letter.toList ++ chars marks))
        (⟨symbol.name, symbol.letter, n⟩, contents) [] := by
      apply Reads.name_bind (ne_colon_of_isIdentifier legible.name)
      obtain ⟨m, more, digits⟩ := chars_of_reference steps
      apply Reads.bind
      · rw [digits]
        exact reads_letter legible m more []
      · exact (reads [] stops_nil).last fun (p : TypeNumber × Contents) =>
          (Headline.mk symbol.name symbol.letter p.1, p.2)
    rw [ht] at all
    rwa [Reads, List.append_nil] at all
  rw [Reads, List.append_nil] at read
  rw [readDescription, read]

/-- What the description of a symbol has to say first. -/
def headline? (N : Numbering) (symbol : Symbol) : Option Headline :=
  (N.number? symbol.ty).map fun n => ⟨symbol.name, symbol.letter, n⟩

/-- The descriptions of a journal are read back, in their order. -/
theorem reads_journal (h : Performs types c tasks journal c')
    (legible : ∀ task ∈ tasks, ∀ (c : Context) symbol, task.due types c = some symbol →
      symbol.Legible)
    (named : Named types) (int : F.number? .int = some .int) (char : F.number? .char = some .char)
    (sound : Sound types c.numbering) (grows : c'.numbering.Grows F) :
    ∃ all : List (Headline × Contents),
      (texts [] (journal.flatMap Entry.records)).mapM readDescription = some all ∧
        (journal.filterMap Entry.symbol?).mapM (headline? F) = some (all.map Prod.fst) ∧
          Tells types F (journal.flatMap Entry.tokens) (all.flatMap Prod.snd) := by
  induction h with
  | nil => exact ⟨[], rfl, rfl, .nil types F⟩
  | @cons c c₁ c₂ task tasks entries journal first rest ih =>
    obtain ⟨all, read, headlines, tells⟩ :=
      ih (fun t mem => legible t (List.mem_cons_of_mem _ mem)) (first.sound sound) grows
    have grows₁ := rest.grows.trans grows
    cases first with
    | @described _ symbol marks N due steps =>
      obtain ⟨n, contents, number, told, text⟩ := readDescription_eq
        (legible task List.mem_cons_self c symbol due) named int char steps sound grows₁
      refine ⟨(⟨symbol.name, symbol.letter, n⟩, contents) :: all, ?_, ?_, ?_⟩
      · have cut : texts [] ([Entry.description symbol marks] ++ journal |>.flatMap Entry.records) =
            (symbol.heading.text.toList ++ chars marks) ::
              texts [] (journal.flatMap Entry.records) := by
          rw [List.flatMap_append, List.flatMap_singleton, Entry.records, Symbol.records,
            texts_segments]
          simp [toList_text]
        rw [cut, List.mapM_cons, text, read]
        rfl
      · have head : headline? F symbol = some ⟨symbol.name, symbol.letter, n⟩ := by
          rw [headline?, number]
          rfl
        have symbols : ([Entry.description symbol marks] ++ journal).filterMap Entry.symbol? =
            symbol :: journal.filterMap Entry.symbol? := rfl
        rw [symbols, List.mapM_cons, head, headlines]
        rfl
      · rw [List.flatMap_append, List.flatMap_singleton, Entry.tokens_description]
        exact told.append tells rest.calm
    | _ => exact ⟨all, read, headlines, tells⟩

end Readback

open Readback in
/-- The records of a unit whose names are identifiers are read back: every description as a whole,
with the name, the letter and the number of the type that it was written for, and the contents of
all types that are numbered at the end. -/
theorem Writer.describe_readback {writer after : Writer} {u : CompilationUnit}
    {records : List Record} (h : writer.describe u = (.ok records, after))
    (named : ∀ name ∈ u.names, isIdentifier name = true) :
    ∃ journal c headlines contents,
      Performs u.types (.fresh writer.target.firstBlock) (Task.ofUnit u writer.target) journal c ∧
        records = journal.flatMap Entry.records ∧
          readRecords records = some (headlines, contents) ∧
            (journal.filterMap Entry.symbol?).mapM (headline? after.context.numbering) =
              some headlines ∧
              Recovers u.types after.context.numbering contents := by
  obtain ⟨journal, c, performs, rfl, same⟩ := Writer.describe_ok h
  rw [same]
  have sound := sound_empty u.types
  have orderly := performs.orderly sound (.empty u.types)
  obtain ⟨int, char, -⟩ := performs.number?_builtins
  obtain ⟨all, read, headlines, tells⟩ := reads_journal performs
    (fun task mem _ _ due => Task.due_legible named mem due) (named_of_names named) int char sound
    (.refl _)
  refine ⟨journal, c, _, _, performs, rfl, ?_, headlines, tells.recovers orderly⟩
  rw [readRecords, read]
  rfl

/-- A record and an enumeration are read back across the cuts in their descriptions. -/
theorem Samples.wideStruct_readback :
    ∃ records after headlines contents,
      (Writer.ofTarget {}).describe wideStruct = (.ok records, after) ∧
        records.countP (· matches .symbol _ _ _ true) = 2 ∧
          Readback.readRecords records = some (headlines, contents) ∧
            Recovers wideStruct.types after.context.numbering contents := by
  have run : ((Writer.ofTarget {}).describe wideStruct).1.toOption.map
      (·.countP (· matches .symbol _ _ _ true)) = some 2 := by decide +kernel
  have named : ∀ name ∈ wideStruct.names, isIdentifier name = true := by decide +kernel
  cases h : (Writer.ofTarget {}).describe wideStruct with
  | mk result after =>
    rw [h] at run
    cases result with
    | error cause => cases run
    | ok records =>
      obtain ⟨journal, c, headlines, contents, -, -, read, -, recovers⟩ :=
        Writer.describe_readback h named
      exact ⟨records, after, headlines, contents, rfl, Option.some.inj run, read, recovers⟩

end Stabs

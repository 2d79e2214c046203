import Stabs.Proofs.Readback.Scanning

/-!
# Reading a listing

The assembler text has one directive a line. A reader takes a line apart at its quotes and commas
and knows no escapes. The first line names the source file, and every other one holds a part of a
description or a marker. Where the quoted text ends in two backslashes it goes on in the next line.
-/
namespace Stabs

namespace Listing

open Readback

/-- The lines of a text, without their line feeds. -/
def lines : List Char → List (List Char)
  | [] => []
  | c :: rest =>
    if c = '\n' then [] :: lines rest
    else match lines rest with
      | [] => [[c]]
      | line :: others => (c :: line) :: others

/-- The text up to the next quote, and the quote. -/
def quoted : Reader (List Char) := fun cs =>
  match cs.dropWhile (· ≠ '"') with
  | [] => none
  | _ :: rest => some (cs.takeWhile (· ≠ '"'), rest)

/-- All that is left of a line. -/
def remainder : Reader (List Char) := fun cs => some (cs, [])

/-- A code, two zeros and a value. -/
def fields : Reader (Nat × List Char) := do
  let code ← natural
  expectAll [',', '0', ',', '0', ',']
  let value ← remainder
  return (code, value)

inductive Line where
  | symbol (text : List Char) (code : Nat) (value : List Char)
  | marker (code : Nat) (label : List Char)

def line : Reader Line := do
  expectAll ['.', 's', 't', 'a', 'b']
  if (← peek) = some 's' then do
    expectAll ['s', ' ', '"']
    let text ← quoted
    expect ','
    let (code, value) ← fields
    return .symbol text code value
  else do
    expectAll ['n', ' ']
    let (code, label) ← fields
    return .marker code label

/-- The first line defines its label and uses it as the value of the source file. -/
def sourceFile : Reader (List Char × List Char) := do
  let front ← quoted
  let path ← quoted
  expect ','
  let (code, label) ← fields
  if code = Code.sourceFile.value ∧ front = label ++ ":\t.stabs ".toList then
    return (path, label)
  else failure

/-- Reads one line to its end. -/
def whole {α : Type} (r : Reader α) (text : List Char) : Option α :=
  match r text with
  | some (a, []) => some a
  | _ => none

/-- The text in front of two backslashes at its end. -/
def cut? (text : List Char) : Option (List Char) :=
  match text.reverse with
  | '\\' :: '\\' :: front => some front.reverse
  | _ => none

/-- What a listing holds behind its first line. -/
inductive Finding where
  | description (text : List Char) (code : Nat) (value : List Char)
  | marker (code : Nat) (label : List Char)
deriving DecidableEq

/-- Joins the parts of descriptions; `text` is what there is of the next one. -/
def join (text : List Char) : List Line → List Finding
  | [] => []
  | .symbol part code value :: rest =>
    match cut? part with
    | some part => join (text ++ part) rest
    | none => .description (text ++ part) code value :: join [] rest
  | .marker code label :: rest => .marker code label :: join text rest

end Listing

structure Listing where
  path : List Char
  label : List Char
  findings : List Listing.Finding

/-- Reads a listing back from its text alone. -/
def Listing.read (text : String) : Option Listing :=
  match lines text.toList with
  | [] => none
  | first :: rest => do
    let (path, label) ← whole sourceFile first
    let parts ← rest.mapM (whole line)
    return { path, label, findings := join [] parts }

/-- What records have to say in a listing: a description for every group of segments, and the
markers. -/
def Record.findings (text : List Char) : List Record → List Listing.Finding
  | [] => []
  | .symbol segment code value continued :: rest =>
    if continued then findings (text ++ (Segment.text segment).toList) rest
    else .description (text ++ (Segment.text segment).toList) code.value value.text.toList ::
      findings [] rest
  | .marker code label :: rest => .marker code.value label.toList :: findings text rest
  | .sourceFile _ _ :: rest => findings text rest

/-- Text that may stand between quotes on one line. -/
def Quotable (text : List Char) : Prop := '"' ∉ text ∧ '\n' ∉ text

theorem Quotable.append {a b : List Char} (ha : Quotable a) (hb : Quotable b) :
    Quotable (a ++ b) := by
  simp only [Quotable, List.mem_append, not_or]
  exact ⟨⟨ha.1, hb.1⟩, ha.2, hb.2⟩

/-- A record whose directive can be told from what is around it. -/
def Record.Plain : Record → Prop
  | sourceFile path label => Quotable path.toList ∧ Quotable label.toList
  | symbol segment _ value continued => Quotable (Segment.text segment).toList ∧
      '\n' ∉ value.text.toList ∧
        (continued = false → (Segment.text segment).toList.getLast? ≠ some '\\')
  | marker _ label => '\n' ∉ label.toList

namespace Listing

open Readback

theorem lines_line {line rest : List Char} (plain : '\n' ∉ line) :
    lines (line ++ '\n' :: rest) = line :: lines rest := by
  induction line with
  | nil => simp [lines]
  | cons c line ih =>
    rw [List.mem_cons, not_or] at plain
    simp [lines, ih plain.2, Ne.symm plain.1]

/-- What is read last may decide what comes of it. -/
theorem reads_last_bind {α β : Type} {r : Reader α} {f : α → Reader β} {text rest : List Char}
    {a : α} {b : β} (first : Reads r text a rest) (second : Reads (f a) [] b rest) :
    Reads (r >>= f) text b rest := by
  have read := @Reads.bind α β text [] rest a b r f first second
  rwa [List.append_nil] at read

theorem reads_quoted {text rest : List Char} (plain : '"' ∉ text) :
    Reads quoted (text ++ ['"']) text rest := by
  have all : ∀ c ∈ text, decide (c ≠ '"') = true := by
    intro c mem
    simp only [ne_eq, decide_not, Bool.not_eq_true', decide_eq_false_iff_not]
    rintro rfl
    exact plain mem
  unfold Reads quoted
  rw [List.append_assoc, takeWhile_append_of_all all (by simp), dropWhile_append_of_all all (by simp)]
  rfl

theorem reads_fields (code : Nat) (value : List Char) :
    Reads fields (Nat.toDigits 10 code ++ ([',', '0', ',', '0', ','] ++ value)) (code, value) [] := by
  apply Reads.natural_bind (noDigit_cons rfl)
  apply (Reads.expectAll _ _).bind
  simp only [Reads, List.append_nil]
  rfl

/-- The text of a segment as it stands in quotes. -/
def marked (segment : Segment) (continued : Bool) : List Char :=
  (Segment.text segment).toList ++ if continued then ['\\', '\\'] else []

theorem quotable_marked {segment : Segment} {continued : Bool}
    (plain : Quotable (Segment.text segment).toList) : Quotable (marked segment continued) := by
  refine plain.append ?_
  cases continued <;> simp [Quotable]

theorem toList_render_symbol (segment : Segment) (code : Code) (value : Placement)
    (continued : Bool) : (Record.symbol segment code value continued).render.toList =
      ['.', 's', 't', 'a', 'b'] ++ (['s', ' ', '"'] ++ (marked segment continued ++ ['"'] ++
        (',' :: (Nat.toDigits 10 code.value ++ ([',', '0', ',', '0', ','] ++
          value.text.toList))))) := by
  unfold Record.render
  cases continued <;> simp [marked]

theorem toList_render_marker (code : Code) (label : String) :
    (Record.marker code label).render.toList = ['.', 's', 't', 'a', 'b'] ++ (['n', ' '] ++
      (Nat.toDigits 10 code.value ++ ([',', '0', ',', '0', ','] ++ label.toList))) := by
  unfold Record.render
  simp

/-- The line of a record. -/
def ofRecord : Record → Line
  | .symbol segment code value continued =>
    .symbol (marked segment continued) code.value value.text.toList
  | .marker code label => .marker code.value label.toList
  | .sourceFile path label => .symbol path.toList Code.sourceFile.value label.toList

theorem whole_eq {α : Type} {r : Reader α} {text : List Char} {a : α} (h : Reads r text a []) :
    whole r text = some a := by
  rw [Reads, List.append_nil] at h
  rw [whole, h]

/-- The directive of a segment or of a marker is read back. -/
theorem whole_line {record : Record} (plain : record.Plain)
    (other : ∀ path label, record ≠ .sourceFile path label) :
    whole line record.render.toList = some (ofRecord record) := by
  apply whole_eq
  cases record with
  | sourceFile path label => exact absurd rfl (other path label)
  | symbol segment code value continued =>
    rw [toList_render_symbol]
    apply (Reads.expectAll _ _).bind
    apply Reads.peek
    rw [if_pos (by simp)]
    apply (Reads.expectAll _ _).bind
    apply (reads_quoted (quotable_marked plain.1).1).bind
    apply Reads.expect_bind
    exact (reads_fields code.value value.text.toList).last fun p =>
      Line.symbol (marked segment continued) p.1 p.2
  | marker code label =>
    rw [toList_render_marker]
    apply (Reads.expectAll _ _).bind
    apply Reads.peek
    rw [if_neg (by simp)]
    apply (Reads.expectAll _ _).bind
    exact (reads_fields code.value label.toList).last fun p => Line.marker p.1 p.2

/-- The first line is read back. -/
theorem whole_sourceFile {path label : String}
    (plain : (Record.sourceFile path label).Plain) :
    whole sourceFile (Record.sourceFile path label).render.toList =
      some (path.toList, label.toList) := by
  apply whole_eq
  have text : (Record.sourceFile path label).render.toList =
      label.toList ++ ":\t.stabs ".toList ++ ['"'] ++ (path.toList ++ ['"'] ++
        (',' :: (Nat.toDigits 10 Code.sourceFile.value ++ ([',', '0', ',', '0', ','] ++
          label.toList)))) := by
    unfold Record.render
    simp
  rw [text]
  have front : '"' ∉ label.toList ++ ":\t.stabs ".toList := by
    simpa using plain.2.1
  apply (reads_quoted front).bind
  apply (reads_quoted plain.1.1).bind
  apply Reads.expect_bind
  apply reads_last_bind (reads_fields _ _)
  dsimp only
  rw [if_pos ⟨rfl, rfl⟩]
  exact .pure _ _

/-- A plain record takes one line. -/
theorem render_inline {record : Record} (plain : record.Plain) : '\n' ∉ record.render.toList := by
  have digits (n : Nat) : '\n' ∉ Nat.toDigits 10 n := fun mem => by
    have digit := isDigit_toDigits n _ mem
    revert digit
    decide
  cases record with
  | sourceFile path label =>
    unfold Record.render
    simp [plain.1.2, plain.2.2, digits]
  | symbol segment code value continued =>
    rw [toList_render_symbol]
    simp [plain.2.1, (quotable_marked plain.1).2, digits]
  | marker code label =>
    rw [toList_render_marker]
    have label : '\n' ∉ label.toList := plain
    simp [label, digits]

/-- Every record is a line of the listing. -/
theorem lines_renderAll {records : List Record} (plain : ∀ record ∈ records, record.Plain) :
    lines (Record.renderAll records).toList = records.map (·.render.toList) := by
  induction records with
  | nil => rfl
  | cons record rest ih =>
    have first := render_inline (plain record List.mem_cons_self)
    have text : (Record.renderAll (record :: rest)).toList =
        record.render.toList ++ '\n' :: (Record.renderAll rest).toList := by
      simp [Record.renderAll]
    rw [text, lines_line first, ih fun r mem => plain r (List.mem_cons_of_mem _ mem), List.map_cons]

theorem cut?_marked (segment : Segment) : cut? (marked segment true) =
    some (Segment.text segment).toList := by
  simp [cut?, marked]

theorem cut?_eq_none {text : List Char} (plain : text.getLast? ≠ some '\\') : cut? text = none := by
  rw [List.getLast?_eq_head?_reverse] at plain
  unfold cut?
  split
  · next e =>
    rw [e] at plain
    exact absurd rfl plain
  · rfl

/-- The parts of a listing are joined to what the records have to say. -/
theorem join_ofRecord {records : List Record} (plain : ∀ record ∈ records, record.Plain)
    (other : ∀ path label, .sourceFile path label ∉ records) (text : List Char) :
    join text (records.map ofRecord) = Record.findings text records := by
  induction records generalizing text with
  | nil => rfl
  | cons record rest ih =>
    have behind := ih (fun r mem => plain r (List.mem_cons_of_mem _ mem))
      fun path label mem => other path label (List.mem_cons_of_mem _ mem)
    have first := plain record List.mem_cons_self
    cases record with
    | sourceFile path label => exact absurd List.mem_cons_self (other path label)
    | marker code label => rw [List.map_cons, ofRecord, join, Record.findings, behind]
    | symbol segment code value continued =>
      rw [List.map_cons, ofRecord, join, Record.findings]
      cases continued with
      | true =>
        rw [cut?_marked, if_pos rfl]
        exact behind _
      | false =>
        have whole : marked segment false = (Segment.text segment).toList := by simp [marked]
        rw [whole, cut?_eq_none (first.2.2 rfl), if_neg Bool.false_ne_true, behind]

/-- A listing of plain records is read back from its text. -/
theorem read_renderAll {path label : String} {records : List Record}
    (plain : ∀ record ∈ .sourceFile path label :: records, record.Plain)
    (other : ∀ path label, .sourceFile path label ∉ records) :
    read (Record.renderAll (.sourceFile path label :: records)) =
      some ⟨path.toList, label.toList, Record.findings [] records⟩ := by
  have behind : ∀ record ∈ records, record.Plain :=
    fun r mem => plain r (List.mem_cons_of_mem _ mem)
  have parts : (records.map (·.render.toList)).mapM (whole line) = some (records.map ofRecord) := by
    clear plain
    induction records with
    | nil => rfl
    | cons record rest ih =>
      have first := whole_line (behind record List.mem_cons_self) fun path label e =>
        other path label (e ▸ List.mem_cons_self)
      rw [List.map_cons, List.mapM_cons, first, ih
        (fun path label mem => other path label (List.mem_cons_of_mem _ mem))
        fun r mem => behind r (List.mem_cons_of_mem _ mem)]
      rfl
  rw [read, lines_renderAll plain, List.map_cons]
  dsimp only
  rw [whole_sourceFile (plain _ List.mem_cons_self), parts]
  exact congrArg (fun findings => some (Listing.mk path.toList label.toList findings))
    (join_ofRecord behind other [])

end Listing

end Stabs

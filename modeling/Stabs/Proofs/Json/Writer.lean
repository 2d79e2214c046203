import Stabs.Json.Writer
import Stabs.Proofs.Json.Spelling

/-!
# Written values

What the writer writes, with or without white space, is a spelling of the value, provided that
the numbers in it are integers of at most 64 bits. So the reader gets the value back.
-/
namespace Stabs.Json

/-- Every number of a value is an integer whose magnitude has at most 64 bits. -/
inductive Exact : Json → Prop
  | null : Exact .null
  | bool (b : Bool) : Exact (.bool b)
  | int (n : Int) (h : n.natAbs < UInt64.size) : Exact (.int n)
  | string (s : String) : Exact (.string s)
  | array (vs : List Json) (h : ∀ v ∈ vs, Exact v) : Exact (.array vs)
  | object (ms : List (String × Json)) (h : ∀ m ∈ ms, Exact m.2) : Exact (.object ms)

theorem exact_int_iff {n : Int} : Exact (.int n) ↔ n.natAbs < UInt64.size :=
  ⟨fun | .int _ h => h, .int n⟩

theorem exact_array_iff {vs : List Json} : Exact (.array vs) ↔ ∀ v ∈ vs, Exact v :=
  ⟨fun | .array _ h => h, .array vs⟩

theorem exact_object_iff {ms : List (String × Json)} : Exact (.object ms) ↔ ∀ m ∈ ms, Exact m.2 :=
  ⟨fun | .object _ h => h, .object ms⟩

namespace Writer

/-- Two hexadecimal digits spell a control character. -/
theorem hexUnit_control : ∀ n < 32,
    Reader.hexUnit? '0' '0' (hexChar (n / 16)) (hexChar (n % 16)) = some n := by
  decide

theorem spells_escapeChar (c : Char) : SpellsChar c (escapeChar c) := by
  unfold escapeChar
  split
  case h_8 quote backslash _ _ _ _ _ =>
    by_cases control : c.toNat < 32
    · have escape := SpellsChar.unit _ _ _ _ c.toNat (hexUnit_control c.toNat control)
        (by simp [Reader.isHighSurrogate]; omega) (by simp [Reader.isLowSurrogate]; omega)
      rw [Char.ofNat_toNat] at escape
      rwa [if_pos control]
    · rw [if_neg control]
      exact .raw c (Nat.le_of_not_lt control) ⟨quote, backslash⟩
  all_goals exact .short _ _ rfl

theorem spells_quote (s : String) : Spells (.string s) (quote s) := by
  have chars (cs : List Char) : SpellsChars cs (cs.flatMap escapeChar) := by
    induction cs with
    | nil => exact .nil
    | cons c cs ih => exact .cons (spells_escapeChar c) ih
  exact .string (chars s.toList)

theorem blank_lineBreak (indented : Bool) (level : Nat) : Blank (lineBreak indented level) := by
  cases indented <;> simp [lineBreak, Blank, Reader.isBlank]

mutual

/-- The writer writes one of the spellings of a value. -/
theorem spells_write {v : Json} (h : Exact v) (indented : Bool) (level : Nat) :
    Spells v (write indented level v) := by
  match v, h with
  | .null, _ => exact .null
  | .bool true, _ => exact .true
  | .bool false, _ => exact .false
  | .int n, .int _ h => exact .int n h
  | .string s, _ => exact spells_quote s
  | .array [], _ => exact .emptyArray .nil
  | .array (v :: rest), .array _ h =>
    have inside := spells_elements v rest h indented (level + 1) (blank_lineBreak indented level)
    simpa [write] using Spells.array inside
  | .object [], _ => exact .emptyObject .nil
  | .object ((key, v) :: rest), .object _ h =>
    have inside := spells_members key v rest h indented (level + 1) (blank_lineBreak indented level)
    simpa [write] using Spells.object inside
termination_by sizeOf v

/-- The elements of an array with their breaks and commas, and the closing bracket. -/
theorem spells_elements (v : Json) (vs : List Json) (h : ∀ w ∈ v :: vs, Exact w)
    (indented : Bool) (level : Nat) {after : List Char} (blank : Blank after) :
    SpellsElements (v :: vs)
      (lineBreak indented level ++ write indented level v ++ writeElements indented level vs ++
        after ++ [']']) := by
  have head := spells_write (h v List.mem_cons_self) indented level
  match vs, h with
  | [], _ =>
    have only := SpellsElements.last (.blank (blank_lineBreak indented level) head blank)
    simpa [writeElements] using only
  | w :: rest, h =>
    have others := spells_elements w rest (fun u mem => h u (List.mem_cons_of_mem _ mem))
      indented level blank
    have all := SpellsElements.more (.blank (blank_lineBreak indented level) head .nil) others
    simpa [writeElements] using all
termination_by sizeOf (v :: vs)

/-- The members of an object with their breaks and commas, and the closing brace. -/
theorem spells_members (key : String) (v : Json) (ms : List (String × Json))
    (h : ∀ m ∈ (key, v) :: ms, Exact m.2) (indented : Bool) (level : Nat) {after : List Char}
    (blank : Blank after) :
    SpellsMembers ((key, v) :: ms)
      (lineBreak indented level ++ quote key ++ colon indented ++ write indented level v ++
        writeMembers indented level ms ++ after ++ ['}']) := by
  have head := spells_write (h _ List.mem_cons_self) indented level
  have label := Spells.blank (blank_lineBreak indented level) (spells_quote key) .nil
  obtain ⟨gap, blankGap, mark⟩ : ∃ gap, Blank gap ∧ colon indented = ':' :: gap := by
    cases indented <;> simp [colon, Blank, Reader.isBlank]
  match ms, h with
  | [], _ =>
    have only := SpellsMembers.last label (.blank blankGap head blank)
    simpa [writeMembers, mark] using only
  | (name, w) :: rest, h =>
    have others := spells_members name w rest (fun m mem => h m (List.mem_cons_of_mem _ mem))
      indented level blank
    have all := SpellsMembers.more label (.blank blankGap head .nil) others
    simpa [writeMembers, mark] using all
termination_by sizeOf ((key, v) :: ms)

end

end Writer

theorem spells_pretty {v : Json} (h : Exact v) : Spells v v.pretty.toList := by
  simpa [pretty] using Writer.spells_write h true 0

theorem spells_compact {v : Json} (h : Exact v) : Spells v v.compact.toList := by
  simpa [compact] using Writer.spells_write h false 0

/-- A value that is written with white space is read back. -/
theorem Document.ofText_pretty {v : Json} (h : Exact v) :
    Document.ofText v.pretty = ⟨.ofJson v, .ok ()⟩ :=
  ofText_spelled (spells_pretty h)

end Stabs.Json

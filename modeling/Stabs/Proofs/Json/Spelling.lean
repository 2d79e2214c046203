import Stabs.Json.Reader
import Stabs.Proofs.Readback.Scanning

/-!
# Spellings of JSON values

A value has many spellings: white space may stand between the tokens, and a character of a string
may stand as it is or as an escape. They are given here as a grammar. The reader comes back from
each of them with the reading of the value in which nothing goes wrong.
-/
namespace Stabs.Json

open Readback (takeWhile_append_of_all dropWhile_append_of_all isDigit_toDigits)

variable {c : Char} {cs text rest : List Char}

namespace Reading

mutual

/-- The reading of a text without any fault. -/
def ofJson : Json → Reading
  | .null => .plain (.whole .null)
  | .bool b => .plain (.whole (.bool b))
  | .int n => .plain (.whole (.int n))
  | .fraction => .plain (.whole .fraction)
  | .string s => .text (.whole s)
  | .array vs => .array (ofJsons vs) (.ok ())
  | .object ms => .object (ofMembers ms) (.ok ())

def ofJsons : List Json → List Reading
  | [] => []
  | v :: rest => ofJson v :: ofJsons rest

def ofMembers : List (String × Json) → List (Reading × Reading)
  | [] => []
  | (key, v) :: rest => (.text (.whole key), ofJson v) :: ofMembers rest

end

end Reading

/-- White space, possibly none. -/
def Blank (cs : List Char) : Prop := ∀ c ∈ cs, Reader.isBlank c = true

theorem Blank.nil : Blank [] := by simp [Blank]

/-- A character of a string as it is, or as one of its escapes. Beyond the first 16 bits an escape
is a pair of surrogates. -/
inductive SpellsChar : Char → List Char → Prop
  | raw (c : Char) (control : 32 ≤ c.toNat) (mark : c ≠ '"' ∧ c ≠ '\\') : SpellsChar c [c]
  | short (e c : Char) (h : Reader.escaped? e = some c) : SpellsChar c ['\\', e]
  | unit (w x y z : Char) (n : Nat) (h : Reader.hexUnit? w x y z = some n)
      (high : Reader.isHighSurrogate n = false) (low : Reader.isLowSurrogate n = false) :
      SpellsChar (Char.ofNat n) ['\\', 'u', w, x, y, z]
  | pair (w x y z w' x' y' z' : Char) (n m : Nat) (first : Reader.hexUnit? w x y z = some n)
      (second : Reader.hexUnit? w' x' y' z' = some m) (high : Reader.isHighSurrogate n = true)
      (low : Reader.isLowSurrogate m = true) :
      SpellsChar (Char.ofNat (0x10000 + (n - 0xD800) * 0x400 + (m - 0xDC00)))
        ['\\', 'u', w, x, y, z, '\\', 'u', w', x', y', z']

/-- The characters of a string one after the other. -/
inductive SpellsChars : List Char → List Char → Prop
  | nil : SpellsChars [] []
  | cons {c : Char} {cs text more : List Char} (first : SpellsChar c text)
      (rest : SpellsChars cs more) : SpellsChars (c :: cs) (text ++ more)

mutual

/-- A value, with the white space around it. -/
inductive Spells : Json → List Char → Prop
  | blank {v : Json} {text before after : List Char} (left : Blank before) (h : Spells v text)
      (right : Blank after) : Spells v (before ++ text ++ after)
  | null : Spells .null ['n', 'u', 'l', 'l']
  | true : Spells (.bool true) ['t', 'r', 'u', 'e']
  | false : Spells (.bool false) ['f', 'a', 'l', 's', 'e']
  | int (n : Int) (h : n.natAbs < UInt64.size) : Spells (.int n) n.repr.toList
  | string {s : String} {text : List Char} (h : SpellsChars s.toList text) :
      Spells (.string s) ('"' :: text ++ ['"'])
  | emptyArray {inside : List Char} (h : Blank inside) : Spells (.array []) ('[' :: inside ++ [']'])
  | array {vs : List Json} {text : List Char} (h : SpellsElements vs text) :
      Spells (.array vs) ('[' :: text)
  | emptyObject {inside : List Char} (h : Blank inside) :
      Spells (.object []) ('{' :: inside ++ ['}'])
  | object {ms : List (String × Json)} {text : List Char} (h : SpellsMembers ms text) :
      Spells (.object ms) ('{' :: text)

/-- The elements of an array, with the closing bracket. -/
inductive SpellsElements : List Json → List Char → Prop
  | last {v : Json} {text : List Char} (h : Spells v text) : SpellsElements [v] (text ++ [']'])
  | more {v : Json} {vs : List Json} {text others : List Char} (first : Spells v text)
      (rest : SpellsElements vs others) : SpellsElements (v :: vs) (text ++ ',' :: others)

/-- The members of an object, with the closing brace. -/
inductive SpellsMembers : List (String × Json) → List Char → Prop
  | last {key : String} {v : Json} {name text : List Char} (label : Spells (.string key) name)
      (h : Spells v text) : SpellsMembers [(key, v)] (name ++ ':' :: (text ++ ['}']))
  | more {key : String} {v : Json} {ms : List (String × Json)} {name text others : List Char}
      (label : Spells (.string key) name) (first : Spells v text)
      (rest : SpellsMembers ms others) :
      SpellsMembers ((key, v) :: ms) (name ++ ':' :: (text ++ ',' :: others))

end

namespace Reader

/-! ## Strings -/

theorem joinPieces_unit {n : Nat} (high : isHighSurrogate n = false)
    (low : isLowSurrogate n = false) (rest : List StringPiece) :
    joinPieces (.unit n :: rest) = (joinPieces rest).map (Char.ofNat n :: ·) := by
  cases rest with
  | nil => simp [joinPieces, high, low]
  | cons piece rest => cases piece <;> simp [joinPieces, high, low]

theorem escaped_ne_u {e : Char} (h : escaped? e = some c) : e ≠ 'u' := by
  rintro rfl
  cases h

/-- What a spelled character adds to the pieces of a string, and to its text. -/
theorem exists_pieces (h : SpellsChar c text) :
    ∃ pieces : List StringPiece,
      (∀ done more, stringPieces done (text ++ more) = stringPieces (pieces.reverse ++ done) more) ∧
      ∀ rest, joinPieces (pieces ++ rest) = (joinPieces rest).map (c :: ·) := by
  cases h with
  | raw _ control mark =>
    refine ⟨[.char c], fun done more => ?_, fun rest => by simp [joinPieces]⟩
    simp [stringPieces, mark.1, mark.2, Nat.not_lt.mpr control]
  | short e _ h =>
    refine ⟨[.char c], fun done more => ?_, fun rest => by simp [joinPieces]⟩
    simp [stringPieces, escaped_ne_u h, h]
  | unit w x y z n h high low =>
    exact ⟨[.unit n], fun done more => by simp [stringPieces, h], joinPieces_unit high low⟩
  | pair w x y z w' x' y' z' n m first second high low =>
    exact ⟨[.unit n, .unit m], fun done more => by simp [stringPieces, first, second],
      fun rest => by simp [joinPieces, high, low]⟩

theorem exists_allPieces (h : SpellsChars cs text) :
    ∃ pieces : List StringPiece,
      (∀ done more, stringPieces done (text ++ more) = stringPieces (pieces.reverse ++ done) more) ∧
      joinPieces pieces = some cs := by
  induction h with
  | nil => exact ⟨[], by simp, rfl⟩
  | cons first _ ih =>
    obtain ⟨pieces, reads, joins⟩ := exists_pieces first
    obtain ⟨others, readsOthers, joinsOthers⟩ := ih
    refine ⟨pieces ++ others, fun done more => ?_, by rw [joins, joinsOthers]; rfl⟩
    rw [List.append_assoc, reads, readsOthers, List.reverse_append, List.append_assoc]

theorem stringLeaf_spelled {s : String} (h : SpellsChars s.toList text) (rest : List Char) :
    stringLeaf (text ++ '"' :: rest) = (.whole s, some rest) := by
  obtain ⟨pieces, reads, joins⟩ := exists_allPieces h
  simp [stringLeaf, reads, stringPieces, joins]

/-! ## Numbers -/

/-- What may stand behind a number: nothing that would go on with it. -/
def EndsNumber (rest : List Char) : Prop :=
  ∀ c ∈ rest.head?, c.isDigit = false ∧ c ≠ '.' ∧ c ≠ 'e' ∧ c ≠ 'E'

theorem exists_digit (n : Nat) :
    ∃ d ds, Nat.toDigits 10 n = d :: ds ∧ d.isDigit = true := by
  obtain ⟨d, ds, front⟩ := List.exists_cons_of_ne_nil (@Nat.toDigits_ne_nil n 10)
  exact ⟨d, ds, front, isDigit_toDigits n d (front ▸ List.mem_cons_self)⟩

/-- Only zero starts with a zero. -/
theorem eq_zero_of_head_toDigits {n : Nat} (h : (Nat.toDigits 10 n).head? = some '0') :
    n = 0 := by
  induction n using Nat.strongRecOn with
  | ind n ih =>
    by_cases small : n < 10
    · simpa [Nat.toDigits_of_lt_base small] using h
    · obtain ⟨d, ds, front, -⟩ := exists_digit (n / 10)
      rw [Nat.toDigits_of_base_le (by decide) (by omega), front] at h
      have := ih (n / 10) (by omega) (front ▸ h)
      omega

theorem le_ofDigitChars (cs : List Char) (n : Nat) : n ≤ Nat.ofDigitChars 10 cs n := by
  induction cs generalizing n with
  | nil => simp
  | cons c cs ih =>
    rw [Nat.ofDigitChars_cons]
    have := ih (10 * n + (c.toNat - '0'.toNat))
    omega

/-- Digits that stay inside 64 bits are all taken. -/
theorem takeDigits_eq (cs : List Char) (n : Nat) (h : Nat.ofDigitChars 10 cs n < UInt64.size) :
    takeDigits n cs = (Nat.ofDigitChars 10 cs n, []) := by
  induction cs generalizing n with
  | nil => simp [takeDigits]
  | cons c cs ih =>
    rw [Nat.ofDigitChars_cons] at h ⊢
    have bound := le_ofDigitChars cs (10 * n + (c.toNat - '0'.toNat))
    rw [takeDigits, if_pos (by omega), ih _ h]

theorem value_toDigits (n : Nat) (h : n < UInt64.size) (isNegative : Bool)
    (zero : isNegative = true → n ≠ 0) :
    NumberLiteral.value? ⟨isNegative, Nat.toDigits 10 n, [], none⟩ =
      some (.int (if isNegative then -n else n)) := by
  have taken := takeDigits_eq (Nat.toDigits 10 n) 0 (by rwa [Nat.ofDigitChars_ten_toDigits])
  have notHuge : NumberLiteral.isHuge ⟨isNegative, Nat.toDigits 10 n, [], none⟩ = false := by
    simp [NumberLiteral.isHuge, NumberLiteral.power, taken, takeDigits, exceedsDouble]
  cases isNegative <;> simp_all [NumberLiteral.value?, Nat.ofDigitChars_ten_toDigits]

theorem unsignedNumber_toDigits (isNegative : Bool) (n : Nat) (stop : EndsNumber rest) :
    unsignedNumber isNegative (Nat.toDigits 10 n ++ rest) =
      .ok (⟨isNegative, Nat.toDigits 10 n, [], none⟩, rest) := by
  have noDigit : ∀ c ∈ rest.head?, c.isDigit = false := fun c hc => (stop c hc).1
  have whole : integerPart (Nat.toDigits 10 n ++ rest) = .ok (Nat.toDigits 10 n, rest) := by
    have found : digits (Nat.toDigits 10 n ++ rest) = .ok (Nat.toDigits 10 n, rest) := by
      rw [digits, takeWhile_append_of_all (isDigit_toDigits n) noDigit,
        dropWhile_append_of_all (isDigit_toDigits n) noDigit]
      simp [Nat.toDigits_ne_nil]
    have zero : (Nat.toDigits 10 n).head? = some '0' → Nat.toDigits 10 n = ['0'] := by
      intro h
      rw [eq_zero_of_head_toDigits h]
      rfl
    simp only [integerPart, found, bind, Except.bind]
    rw [if_neg (by simpa using zero)]
  have places : fractionPart rest = .ok ([], rest) := by
    cases rest with
    | nil => rfl
    | cons c rest => simp [fractionPart, (stop c rfl).2.1]
  have exponent : exponentPart rest = .ok (none, rest) := by
    cases rest with
    | nil => rfl
    | cons c rest => simp [exponentPart, (stop c rfl).2.2]
  simp [unsignedNumber, whole, places, exponent, bind, Except.bind]

theorem number_of_isDigit (h : c.isDigit = true) :
    number (c :: rest) = numberLeaf (unsignedNumber false (c :: rest)) := by
  unfold number
  split
  · next e =>
    cases e
    cases h
  · rfl

theorem number_spelled {n : Int} (h : n.natAbs < UInt64.size) (stop : EndsNumber rest) :
    number (n.repr.toList ++ rest) = (.whole (.int n), some rest) := by
  cases n with
  | ofNat n =>
    obtain ⟨d, ds, front, digit⟩ := exists_digit n
    have value := value_toDigits n h false (by simp)
    rw [Int.repr, Nat.toList_repr, front, List.cons_append, number_of_isDigit digit,
      ← List.cons_append, ← front, unsignedNumber_toDigits false n stop, numberLeaf, value]
    rfl
  | negSucc n =>
    have value := value_toDigits (n + 1) h true (by simp)
    rw [Int.repr, String.toList_append, Nat.toList_repr]
    change numberLeaf (unsignedNumber true (Nat.toDigits 10 (n + 1) ++ rest)) = _
    rw [unsignedNumber_toDigits true (n + 1) stop, numberLeaf, value]
    rfl

/-! ## Values -/

theorem skipBlanks_append (h : Blank cs) (rest : List Char) :
    skipBlanks (cs ++ rest) = skipBlanks rest :=
  List.dropWhile_append_of_pos h

theorem value_blanks (h : Blank cs) (steps : Nat) (rest : List Char) :
    value steps (cs ++ rest) = value steps rest := by
  cases steps with
  | zero => simp [value]
  | succ steps => simp only [value, skipBlanks_append h]

theorem EndsNumber.blanks (h : Blank cs) (stop : EndsNumber rest) : EndsNumber (cs ++ rest) := by
  cases cs with
  | nil => exact stop
  | cons c cs =>
    rintro _ ⟨⟩
    have := h c List.mem_cons_self
    simp [isBlank] at this
    rcases this with ((rfl | rfl) | rfl) | rfl <;> decide

theorem endsNumber_cons (h : c = ',' ∨ c = ':' ∨ c = ']' ∨ c = '}') : EndsNumber (c :: rest) := by
  rintro _ ⟨⟩
  rcases h with rfl | rfl | rfl | rfl <;> decide

theorem exists_head_of_int (n : Int) :
    ∃ c more, n.repr.toList = c :: more ∧ (c = '-' ∨ c.isDigit = true) := by
  cases n with
  | ofNat n =>
    obtain ⟨d, ds, front, digit⟩ := exists_digit n
    exact ⟨d, ds, by rw [Int.repr, Nat.toList_repr, front], .inr digit⟩
  | negSucc n => exact ⟨'-', _, by rw [Int.repr, String.toList_append]; rfl, .inl rfl⟩

theorem ne_of_isDigit (h : c.isDigit = true) {d : Char} (other : d.isDigit = false) : c ≠ d := by
  rintro rfl
  simp [h] at other

/-- A value does not start with a closing bracket. -/
theorem exists_head_of_spells {v : Json} {text : List Char} (h : Spells v text) :
    ∀ rest, ∃ c more, skipBlanks (text ++ rest) = c :: more ∧ c ≠ ']' ∧ c ≠ '}' := by
  intro rest
  match h with
  | @Spells.blank _ inside _ after left h right =>
    rw [List.append_assoc, List.append_assoc, skipBlanks_append left]
    exact exists_head_of_spells h (after ++ rest)
  | .null | .true | .false | .string _ | .emptyArray _ | .array _ | .emptyObject _ | .object _ =>
    exact ⟨_, _, rfl, by decide⟩
  | .int n h =>
    obtain ⟨c, more, front, start⟩ := exists_head_of_int n
    refine ⟨c, more ++ rest, ?_, ?_⟩
    · rw [front]
      rcases start with rfl | digit
      · rfl
      · simp [skipBlanks, isBlank, ne_of_isDigit digit]
    · rcases start with rfl | digit
      · decide
      · exact ⟨ne_of_isDigit digit (by decide), ne_of_isDigit digit (by decide)⟩

theorem exists_head_of_elements {vs : List Json} {text : List Char} (h : SpellsElements vs text)
    (rest : List Char) : ∃ c more, skipBlanks (text ++ rest) = c :: more ∧ c ≠ ']' := by
  cases h with
  | last h =>
    obtain ⟨c, more, front, filled, -⟩ := exists_head_of_spells h (']' :: rest)
    exact ⟨c, more, by simpa using front, filled⟩
  | more first _ =>
    obtain ⟨c, more, front, filled, -⟩ := exists_head_of_spells first (',' :: (_ ++ rest))
    exact ⟨c, more, by simpa using front, filled⟩

theorem exists_head_of_members {ms : List (String × Json)} {text : List Char}
    (h : SpellsMembers ms text) (rest : List Char) :
    ∃ c more, skipBlanks (text ++ rest) = c :: more ∧ c ≠ '}' := by
  cases h with
  | last label _ | more label _ _ =>
    rw [List.append_assoc, List.cons_append]
    obtain ⟨c, more, front, -, filled⟩ := exists_head_of_spells label _
    exact ⟨c, more, front, filled⟩

theorem length_pos_of_spells {v : Json} {text : List Char} (h : Spells v text) :
    0 < text.length := by
  obtain ⟨c, more, front, -⟩ := exists_head_of_spells h []
  cases text with
  | nil => cases front
  | cons c text => simp

theorem value_array {steps : Nat} {rs : List Reading} {c : Char} {cs more rest : List Char}
    (front : skipBlanks cs = c :: more) (filled : c ≠ ']')
    (read : elements steps cs = (rs, .ok rest)) :
    value (steps + 1) ('[' :: cs) = (.array rs (.ok ()), some rest) := by
  have bracket : skipBlanks ('[' :: cs) = '[' :: cs := rfl
  simp [value, bracket, front, filled, read, Except.map, Except.toOption]

theorem value_object {steps : Nat} {ms : List (Reading × Reading)} {c : Char}
    {cs more rest : List Char} (front : skipBlanks cs = c :: more) (filled : c ≠ '}')
    (read : members steps cs = (ms, .ok rest)) :
    value (steps + 1) ('{' :: cs) = (.object ms (.ok ()), some rest) := by
  have brace : skipBlanks ('{' :: cs) = '{' :: cs := rfl
  simp [value, brace, front, filled, read, Except.map, Except.toOption]

theorem value_number {steps : Nat} {n : Int} {rest : List Char} (h : n.natAbs < UInt64.size)
    (stop : EndsNumber rest) :
    value (steps + 1) (n.repr.toList ++ rest) = (.plain (.whole (.int n)), some rest) := by
  obtain ⟨c, more, front, start⟩ := exists_head_of_int n
  have read := number_spelled h stop
  rw [front, List.cons_append] at read ⊢
  rcases start with rfl | digit
  · have sign : skipBlanks ('-' :: (more ++ rest)) = '-' :: (more ++ rest) := rfl
    simp [value, sign, read]
  · have here : skipBlanks (c :: (more ++ rest)) = c :: (more ++ rest) := by
      simp [skipBlanks, isBlank, ne_of_isDigit digit]
    simp [value, here, read, digit, ne_of_isDigit digit]

theorem value_string {steps : Nat} {s : String} {text : List Char}
    (h : SpellsChars s.toList text) (rest : List Char) :
    value (steps + 1) ('"' :: text ++ ['"'] ++ rest) = (.text (.whole s), some rest) := by
  have quote : skipBlanks ('"' :: (text ++ '"' :: rest)) = '"' :: (text ++ '"' :: rest) := rfl
  simp [value, quote, stringLeaf_spelled h]

theorem skipBlanks_mark (blank : Blank cs) (h : isBlank c = false) (rest : List Char) :
    skipBlanks (cs ++ c :: rest) = c :: rest := by
  rw [skipBlanks_append blank, skipBlanks, List.dropWhile_cons_of_neg (by simp [h])]

mutual

/-- A spelled value is read up to the white space behind it. -/
-- Two steps a character are enough: an element or a member costs one step and has the comma or
-- bracket behind it to pay for that, and the bracket that opens a container pays for its own.
theorem value_spelled {v : Json} {text : List Char} (h : Spells v text) (steps : Nat)
    (enough : 2 * text.length ≤ steps) (rest : List Char) (stop : EndsNumber rest) :
    ∃ after, Blank after ∧ value steps (text ++ rest) = (.ofJson v, some (after ++ rest)) := by
  obtain ⟨steps, rfl⟩ : ∃ k, steps = k + 1 :=
    ⟨steps - 1, by have := length_pos_of_spells h; omega⟩
  match h with
  | @Spells.blank _ inside before after left h right =>
    obtain ⟨skipped, blank, read⟩ := value_spelled h (steps + 1) (by simp at enough; omega)
      (after ++ rest) (stop.blanks right)
    refine ⟨skipped ++ after, fun c mem => (List.mem_append.mp mem).elim (blank c) (right c), ?_⟩
    rw [List.append_assoc, List.append_assoc, value_blanks left, read, List.append_assoc]
  | .null => exact ⟨[], .nil, rfl⟩
  | .true => exact ⟨[], .nil, rfl⟩
  | .false => exact ⟨[], .nil, rfl⟩
  | .int n h => exact ⟨[], .nil, value_number h stop⟩
  | .string h => exact ⟨[], .nil, value_string h rest⟩
  | @Spells.emptyArray inside blank =>
    have bracket : skipBlanks ('[' :: (inside ++ ']' :: rest)) =
        '[' :: (inside ++ ']' :: rest) := rfl
    exact ⟨[], .nil, by simp [value, bracket, skipBlanks_mark blank, isBlank, Reading.ofJson,
      Reading.ofJsons]⟩
  | .array h =>
    have read := elements_spelled h steps (by simp at enough; omega) rest
    obtain ⟨c, more, front, filled⟩ := exists_head_of_elements h rest
    exact ⟨[], .nil, value_array front filled read⟩
  | @Spells.emptyObject inside blank =>
    have brace : skipBlanks ('{' :: (inside ++ '}' :: rest)) =
        '{' :: (inside ++ '}' :: rest) := rfl
    exact ⟨[], .nil, by simp [value, brace, skipBlanks_mark blank, isBlank, Reading.ofJson,
      Reading.ofMembers]⟩
  | .object h =>
    have read := members_spelled h steps (by simp at enough; omega) rest
    obtain ⟨c, more, front, filled⟩ := exists_head_of_members h rest
    exact ⟨[], .nil, value_object front filled read⟩

theorem elements_spelled {vs : List Json} {text : List Char} (h : SpellsElements vs text)
    (steps : Nat) (enough : 2 * text.length ≤ steps) (rest : List Char) :
    elements steps (text ++ rest) = (Reading.ofJsons vs, .ok rest) := by
  match steps, h with
  | 0, .last h => simp at enough
  | 0, .more first others => simp at enough
  | steps + 1, .last h =>
    obtain ⟨after, blank, read⟩ := value_spelled h steps (by simp at enough; omega)
      (']' :: rest) (endsNumber_cons (.inr (.inr (.inl rfl))))
    simp [elements, read, skipBlanks_mark blank, isBlank, Reading.ofJsons]
  | steps + 1, @SpellsElements.more _ _ _ others first more =>
    obtain ⟨after, blank, read⟩ := value_spelled first steps (by simp at enough; omega)
      (',' :: (others ++ rest)) (endsNumber_cons (.inl rfl))
    have tail := elements_spelled more steps (by simp at enough; omega) rest
    simp [elements, read, skipBlanks_mark blank, isBlank, tail, Reading.ofJsons]

theorem members_spelled {ms : List (String × Json)} {text : List Char} (h : SpellsMembers ms text)
    (steps : Nat) (enough : 2 * text.length ≤ steps) (rest : List Char) :
    members steps (text ++ rest) = (Reading.ofMembers ms, .ok rest) := by
  match steps, h with
  | 0, .last key h => simp at enough
  | 0, .more key first others => simp at enough
  | steps + 1, @SpellsMembers.last _ _ _ own key h =>
    obtain ⟨between, gap, label⟩ := value_spelled key steps (by simp at enough; omega)
      (':' :: (own ++ '}' :: rest)) (endsNumber_cons (.inr (.inl rfl)))
    obtain ⟨after, blank, read⟩ := value_spelled h steps (by simp at enough; omega)
      ('}' :: rest) (endsNumber_cons (.inr (.inr (.inr rfl))))
    simp [members, label, skipBlanks_mark gap, read, skipBlanks_mark blank, isBlank,
      Reading.ofJson, Reading.ofMembers]
  | steps + 1, @SpellsMembers.more _ _ _ _ own others key first more =>
    obtain ⟨between, gap, label⟩ := value_spelled key steps (by simp at enough; omega)
      (':' :: (own ++ ',' :: (others ++ rest))) (endsNumber_cons (.inr (.inl rfl)))
    obtain ⟨after, blank, read⟩ := value_spelled first steps (by simp at enough; omega)
      (',' :: (others ++ rest)) (endsNumber_cons (.inl rfl))
    have tail := members_spelled more steps (by simp at enough; omega) rest
    simp [members, label, skipBlanks_mark gap, read, skipBlanks_mark blank, isBlank, tail,
      Reading.ofJson, Reading.ofMembers]

end

end Reader

/-- The reader takes every spelling of a value for the value, and finds no fault in it. -/
theorem Document.ofText_spelled {v : Json} {text : String} (h : Spells v text.toList) :
    Document.ofText text = ⟨.ofJson v, .ok ()⟩ := by
  obtain ⟨after, blank, read⟩ := Reader.value_spelled h (2 * text.toList.length + 2)
    (by omega) [] (by simp [Reader.EndsNumber])
  have nothing : Reader.skipBlanks (after ++ []) = [] := Reader.skipBlanks_append blank []
  rw [List.append_nil] at read
  simp only [Document.ofText, read, Reader.ending, nothing]
  rfl

end Stabs.Json

import Stabs.Proofs.Json.Spelling
import Stabs.Proofs.Toml.Text
import Stabs.Toml.Reader

/-!
# Lines of a TOML document

A value on a line of its own is read up to the line break. A number is a run of digits that stops
there, so it is neither a time nor a number of another kind. A key of plain characters in front of a
value, and one in double brackets, make a line, and what the lines behind say is read after it.
-/
namespace Stabs.Toml

open Json.Reader (exists_digit eq_zero_of_head_toDigits)
open Readback (isDigit_toDigits takeWhile_append_of_all dropWhile_append_of_all)

variable {c : Char} {cs ds name text rest more : List Char} {n : Nat} {v : Toml}

/-- The run of digits ends at the line break. -/
theorem eq_newline_of_digits (digits : ∀ d ∈ ds, d.isDigit = true) {front : List Char}
    (inside : ∀ d ∈ front, d.isDigit = true) (other : c.isDigit = false)
    (same : ds ++ '\n' :: rest = front ++ c :: more) : c = '\n' := by
  induction ds generalizing front with
  | nil =>
    cases front with
    | nil => exact (List.cons.inj same).1.symm
    | cons d front =>
      obtain ⟨rfl, -⟩ := List.cons.inj same
      exact absurd (inside _ List.mem_cons_self) (by decide)
  | cons d ds ih =>
    cases front with
    | nil =>
      obtain ⟨rfl, -⟩ := List.cons.inj same
      exact absurd (digits _ List.mem_cons_self) (by simp [other])
    | cons e front =>
      refine ih (fun x mem => digits x (List.mem_cons_of_mem _ mem))
        (fun x mem => inside x (List.mem_cons_of_mem _ mem)) (List.cons.inj same).2

namespace Scalar

theorem digitRun_digits (digits : ∀ d ∈ ds, d.isDigit = true) :
    digitRun Char.isDigit (ds ++ '\n' :: rest) = (ds, '\n' :: rest) := by
  induction ds with
  | nil => simp [digitRun]
  | cons d ds ih =>
    have tail := ih fun x mem => digits x (List.mem_cons_of_mem _ mem)
    simp [digitRun, digits d List.mem_cons_self, tail]

theorem date_digits (digits : ∀ d ∈ ds, d.isDigit = true) : date (ds ++ '\n' :: rest) = none := by
  unfold date
  split
  · next w x y z more same =>
    by_cases all : (w.isDigit && x.isDigit && y.isDigit && z.isDigit) = true
    · have stop := @eq_newline_of_digits '-' ds rest more digits [w, x, y, z] (by simp_all)
        (by decide) same
      cases stop
    · simp [all]
  · rfl

theorem twoDigits_some {low high : Nat} (h : twoDigits low high cs = some (n, rest)) :
    ∃ x y, cs = x :: y :: rest ∧ x.isDigit = true ∧ y.isDigit = true := by
  unfold twoDigits at h
  split at h
  · next x y left =>
    dsimp only at h
    split at h
    · next fits =>
      cases h
      simp only [Bool.and_eq_true] at fits
      exact ⟨x, y, rfl, fits.1.1.1, fits.1.1.2⟩
    · cases h
  · cases h

theorem timeOfDay_digits (digits : ∀ d ∈ ds, d.isDigit = true) :
    timeOfDay (ds ++ '\n' :: rest) = none := by
  unfold timeOfDay
  cases h : twoDigits 0 23 (ds ++ '\n' :: rest) with
  | none => rfl
  | some found =>
    obtain ⟨hour, left⟩ := found
    obtain ⟨x, y, same, hx, hy⟩ := twoDigits_some h
    dsimp only [Bind.bind, Option.bind]
    split
    · next more =>
      have stop := @eq_newline_of_digits ':' ds rest more digits [x, y] (by simp_all)
        (by decide) same
      cases stop
    · rfl

theorem time_digits (digits : ∀ d ∈ ds, d.isDigit = true) : time (ds ++ '\n' :: rest) = none := by
  rw [time, date_digits digits, timeOfDay_digits digits]
  rfl

theorem valueOf_digits (digits : ∀ d ∈ ds, d.isDigit = true) (n : Nat) :
    ds.foldl (fun n d => n * 10 + digitValue d) n = Nat.ofDigitChars 10 ds n := by
  induction ds generalizing n with
  | nil => rfl
  | cons d ds ih =>
    have digit := digits d List.mem_cons_self
    have small : d ≤ '9' := by
      simp only [Char.isDigit, Bool.and_eq_true, decide_eq_true_eq] at digit
      exact digit.2
    rw [List.foldl_cons, Nat.ofDigitChars_cons, digitValue, if_pos small, Nat.mul_comm]
    exact ih (fun x mem => digits x (List.mem_cons_of_mem _ mem)) _

theorem valueOf_toDigits (n : Nat) : valueOf 10 (Nat.toDigits 10 n) = n := by
  rw [valueOf, valueOf_digits (isDigit_toDigits n), Nat.ofDigitChars_ten_toDigits]

/-- The digits of a number are read as a decimal integer. -/
theorem decimal_toDigits (h : n ≤ Int64.maxValue.toInt) :
    decimal false (Nat.toDigits 10 n ++ '\n' :: rest) = some (.integer n, '\n' :: rest) := by
  have digits := isDigit_toDigits n
  have run : digits? Char.isDigit (Nat.toDigits 10 n ++ '\n' :: rest) =
      some (Nat.toDigits 10 n, '\n' :: rest) := by
    obtain ⟨d, ds, front, digit⟩ := exists_digit n
    have run := @digitRun_digits _ rest digits
    rw [front, List.cons_append] at run ⊢
    rw [digits?, if_pos digit, run]
  have zero : ¬ ((Nat.toDigits 10 n).head? = some '0' ∧ Nat.toDigits 10 n ≠ ['0']) := by
    rintro ⟨head, more⟩
    rw [eq_zero_of_head_toDigits head] at more
    exact more rfl
  have fits : integer? n = some (.integer n) :=
    if_pos ⟨Int.le_trans (by decide) (Int.natCast_nonneg n), h⟩
  simp [decimal, run, zero, valueOf_toDigits, fits]

theorem number_toDigits (h : n ≤ Int64.maxValue.toInt) :
    number (Nat.toDigits 10 n ++ '\n' :: rest) = some (.integer n, '\n' :: rest) := by
  have stop (c : Char) (front : List Char) {more : List Char} :=
    @eq_newline_of_digits c _ rest more (isDigit_toDigits n) front
  -- no sign, no mark of another base and no word starts with digits that end at a line break
  have plain : signed false (Nat.toDigits 10 n ++ '\n' :: rest) =
      decimal false (Nat.toDigits 10 n ++ '\n' :: rest) := by
    unfold signed
    split
    · next same => cases stop 'i' [] nofun rfl same
    · next same => cases stop 'n' [] nofun rfl same
    · rfl
  rw [← decimal_toDigits h, ← plain]
  unfold number
  split
  · next same => cases stop 'x' ['0'] (by simp) rfl same
  · next same => cases stop 'o' ['0'] (by simp) rfl same
  · next same => cases stop 'b' ['0'] (by simp) rfl same
  · next same => cases stop '+' [] nofun rfl same
  · next same => cases stop '-' [] nofun rfl same
  · rfl

end Scalar

namespace Reader

open Text Scalar

/-- A character that satisfies what blanks do not is no blank. -/
theorem isBlank_of_apply {p : Char → Bool} (h : p c = true) (space : p ' ' = false)
    (tab : p '\t' = false) : isBlank c = false := by
  rw [isBlank, Bool.or_eq_false_iff, decide_eq_false_iff_not, decide_eq_false_iff_not]
  constructor
  · rintro rfl
    simp [space] at h
  · rintro rfl
    simp [tab] at h

theorem skipBlanks_cons (h : isBlank c = false) : skipBlanks (c :: rest) = c :: rest := by
  simp [skipBlanks, h]

/-- A text that is read as a value in front of a line break. -/
structure ReadsValue (text : List Char) (v : Toml) : Prop where
  starts : ∃ c more, text = c :: more ∧ isBlank c = false
  reads : ∀ steps rest, value (steps + 2) depthLimit (text ++ '\n' :: rest) =
    some (v, '\n' :: rest)

theorem readsValue_bool (b : Bool) :
    ReadsValue (if b then "true" else "false").toList (.boolean b) := by
  cases b
  · exact ⟨⟨_, _, rfl, rfl⟩, fun _ _ => rfl⟩
  · exact ⟨⟨_, _, rfl, rfl⟩, fun _ _ => rfl⟩

theorem readsValue_emptyArray : ReadsValue ['[', ']'] (.array []) := by
  refine ⟨⟨_, _, rfl, rfl⟩, fun steps rest => ?_⟩
  simp [value, depthLimit, elements, skipTrivia, isBlank]

theorem readsValue_string (cs : List Char) : ReadsValue (write cs) (.string (.ofList cs)) := by
  obtain ⟨quote, body, either, form, reads⟩ := readsBack_write cs
  rw [form]
  rcases either with rfl | rfl
  · exact ⟨⟨_, _, rfl, rfl⟩, fun steps rest => by simp [value, reads]⟩
  · exact ⟨⟨_, _, rfl, rfl⟩, fun steps rest => by simp [value, reads]⟩

theorem readsValue_natural (h : n ≤ Int64.maxValue.toInt) :
    ReadsValue (Nat.toDigits 10 n) (.integer n) := by
  obtain ⟨d, ds, front, digit⟩ := exists_digit n
  refine ⟨⟨d, ds, front, isBlank_of_apply digit rfl rfl⟩, fun steps rest => ?_⟩
  · have number := @number_toDigits rest n h
    have time := @time_digits _ rest (isDigit_toDigits n)
    have stop (c : Char) {more : List Char} :=
      @eq_newline_of_digits c _ rest more (isDigit_toDigits n) []
    unfold value
    split
    · next same => cases stop '"' nofun rfl same
    · next same => cases stop '\'' nofun rfl same
    · next same => cases stop 't' nofun rfl same
    · next same => cases stop 'f' nofun rfl same
    · next same => cases stop '[' nofun rfl same
    · next same => cases stop '\x7b' nofun rfl same
    · rw [time, number]
      rfl

/-- A key that needs no quotes. -/
structure Bare (name : List Char) : Prop where
  filled : name ≠ []
  plain : ∀ c ∈ name, isBareKeyChar c = true

theorem Bare.of_all (filled : name ≠ []) (plain : name.all isBareKeyChar = true) : Bare name :=
  ⟨filled, List.all_eq_true.mp plain⟩

theorem Bare.keyPart (bare : Bare name) (stop : ∀ c ∈ rest.head?, isBareKeyChar c = false) :
    keyPart (name ++ rest) = some (.ofList name, rest) := by
  have taken := takeWhile_append_of_all bare.plain stop
  have left := dropWhile_append_of_all bare.plain stop
  obtain ⟨filled, plain⟩ := bare
  obtain ⟨c, cs, rfl⟩ := List.exists_cons_of_ne_nil filled
  have front := plain c List.mem_cons_self
  unfold Reader.keyPart
  split
  · next same =>
    obtain ⟨rfl, -⟩ := List.cons.inj same
    cases front
  · next same =>
    obtain ⟨rfl, -⟩ := List.cons.inj same
    cases front
  · rw [taken, left]
    rfl

theorem Bare.skipBlanks (bare : Bare name) : skipBlanks (name ++ rest) = name ++ rest := by
  obtain ⟨c, cs, rfl⟩ := List.exists_cons_of_ne_nil bare.filled
  exact skipBlanks_cons (isBlank_of_apply (bare.plain c List.mem_cons_self) rfl rfl)

theorem isBareKeyChar_of_isForbidden (h : isForbidden c = true) : isBareKeyChar c = false := by
  have control : ∀ n < 128, isForbidden (Char.ofNat n) = true →
      isBareKeyChar (Char.ofNat n) = false := by decide
  have small : c.toNat < 128 := by
    simp only [isForbidden, Bool.or_eq_true, Bool.and_eq_true, decide_eq_true_eq] at h
    omega
  have this := control c.toNat small
  rw [Char.ofNat_toNat] at this
  exact this h

/-- A plain key starts no blank line, no comment and no line break. -/
theorem Bare.front (bare : Bare name) : ∃ c cs, name = c :: cs ∧ isBlank c = false ∧
    isForbidden c = false ∧ c ≠ '#' := by
  obtain ⟨c, cs, rfl⟩ := List.exists_cons_of_ne_nil bare.filled
  have plain := bare.plain c List.mem_cons_self
  refine ⟨c, cs, rfl, isBlank_of_apply plain rfl rfl, ?_, ?_⟩
  · rw [← Bool.not_eq_true]
    intro forbidden
    rw [isBareKeyChar_of_isForbidden forbidden] at plain
    cases plain
  · rintro rfl
    cases plain

theorem Bare.ne_bracket (bare : Bare name) (more : List Char) : name ++ rest ≠ '[' :: more := by
  obtain ⟨c, cs, rfl⟩ := List.exists_cons_of_ne_nil bare.filled
  intro same
  obtain ⟨rfl, -⟩ := List.cons.inj same
  cases bare.plain _ List.mem_cons_self

/-- A key of one plain part. -/
theorem Bare.key (bare : Bare name) (stop : ∀ c ∈ rest.head?, isBareKeyChar c = false)
    (last : ∀ more, Reader.skipBlanks rest ≠ '.' :: more) :
    key (name ++ rest) = some (⟨[], .ofList name⟩, Reader.skipBlanks rest) := by
  have parts : keyParts depthLimit (name ++ rest) =
      some ([.ofList name], Reader.skipBlanks rest) := by
    rw [depthLimit, keyParts, bare.skipBlanks, bare.keyPart stop]
    dsimp only [Bind.bind, Option.bind]
    split
    · next dot => exact absurd dot (last _)
    · rfl
  rw [Reader.key, parts]
  rfl

/-- The line that gives a key its value. -/
def assignment (name text : List Char) : List Char := name ++ [' ', '=', ' '] ++ text

/-- The header in double brackets of a key. -/
def itemHeader (name : List Char) : List Char := '[' :: '[' :: name ++ [']', ']']

theorem line_assignment (bare : Bare name) (value : ReadsValue text v) :
    line (assignment name text ++ '\n' :: rest) =
      some (.assignment ⟨[], .ofList name⟩ v, '\n' :: rest) := by
  obtain ⟨⟨c, cs, front, blank⟩, reads⟩ := value
  have inside : assignment name text ++ '\n' :: rest =
      name ++ ' ' :: '=' :: ' ' :: (text ++ '\n' :: rest) := by
    simp [assignment]
  have key := @Bare.key name (' ' :: '=' :: ' ' :: (text ++ '\n' :: rest)) bare
    (by rintro c ⟨⟩; rfl) nofun
  have skipped : skipBlanks (' ' :: (text ++ '\n' :: rest)) = text ++ '\n' :: rest := by
    rw [front]
    exact skipBlanks_cons blank
  rw [inside]
  unfold line
  split
  · next same => exact absurd same (bare.ne_bracket _)
  · next same => exact absurd same (bare.ne_bracket _)
  · rw [key]
    change (Reader.value _ depthLimit (skipBlanks (' ' :: (text ++ '\n' :: rest)))).bind _ = _
    rw [skipped, reads]
    rfl

theorem line_itemHeader (bare : Bare name) : line (itemHeader name ++ '\n' :: rest) =
    some (.itemHeader ⟨[], .ofList name⟩, '\n' :: rest) := by
  have key := @Bare.key name (']' :: ']' :: '\n' :: rest) bare (by rintro c ⟨⟩; rfl) nofun
  have inside : itemHeader name ++ '\n' :: rest =
      '[' :: '[' :: (name ++ ']' :: ']' :: '\n' :: rest) := by
    simp [itemHeader]
  rw [inside, line, key]
  rfl

/-- A text that says these lines, given as many steps as it has characters and one more. -/
def Says (cs : List Char) (found : List Line) : Prop :=
  ∀ steps, cs.length < steps → lines steps cs = some found

theorem Says.of_eq {found : List Line} (same : text = cs) (h : Says cs found) : Says text found :=
  same ▸ h

theorem says_nil : Says [] [] := by
  intro steps h
  obtain ⟨steps, rfl⟩ := Nat.exists_eq_add_one_of_ne_zero (Nat.ne_of_gt h)
  rfl

theorem says_blank {found : List Line} (h : Says rest found) : Says ('\n' :: rest) found := by
  intro steps enough
  obtain ⟨steps, rfl⟩ := Nat.exists_eq_add_one_of_ne_zero (Nat.ne_of_gt (Nat.zero_lt_of_lt enough))
  rw [← h steps (by simpa using enough)]
  simp [lines, skipBlanks, lineEnd, isBlank]

/-- A line that says something is not blank. -/
theorem lineEnd_cons (blank : isBlank c = false) (allowed : isForbidden c = false)
    (hash : c ≠ '#') : lineEnd (c :: rest) = none := by
  have feed : c ≠ '\n' := by
    rintro rfl
    cases allowed
  have carriage : c ≠ '\r' := by
    rintro rfl
    cases allowed
  simp [lineEnd, skipBlanks_cons blank, hash, feed, carriage]

/-- A line is said in front of the lines behind it. -/
theorem says_line {found : List Line} {first : Line} (blank : isBlank c = false)
    (allowed : isForbidden c = false) (hash : c ≠ '#')
    (reads : line (c :: text ++ '\n' :: rest) = some (first, '\n' :: rest))
    (h : Says rest found) : Says (c :: text ++ '\n' :: rest) (first :: found) := by
  intro steps enough
  obtain ⟨steps, rfl⟩ := Nat.exists_eq_add_one_of_ne_zero (Nat.ne_of_gt (Nat.zero_lt_of_lt enough))
  have others : rest.length < steps := by
    simp only [List.length_append, List.length_cons] at enough
    omega
  have here : skipBlanks (c :: text ++ '\n' :: rest) = c :: text ++ '\n' :: rest :=
    skipBlanks_cons blank
  have front : lineEnd (c :: text ++ '\n' :: rest) = none := lineEnd_cons blank allowed hash
  have behind : lineEnd ('\n' :: rest) = some rest := by simp [lineEnd, skipBlanks, isBlank]
  rw [lines, here, front, reads]
  simp [behind, h steps others]

end Reader

end Stabs.Toml

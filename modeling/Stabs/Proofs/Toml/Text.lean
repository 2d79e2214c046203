import Stabs.Proofs.Readback.Scanning
import Stabs.Toml.Text

/-!
# Written TOML strings

Whatever form is chosen for a text, reading takes exactly the written string off the front of a
line and gives the text back. An escape is read as its character. Literal forms hold no quote that
could close them. A multi-line basic string has at most two quotes together in front of anything
else, and those in front of the closing quotes are told apart from them by their number.
-/
namespace Stabs.Toml.Text

open Readback (takeWhile_append_of_all)

variable {c q : Char} {cs done body tail rest : List Char}

/-- No quote comes next. -/
def NoQuote (q : Char) (rest : List Char) : Prop := ∀ c ∈ rest.head?, c ≠ q

/-- What stands behind a backslash for a character, in one line as well as in several. -/
def Escapes (c : Char) (body : List Char) : Prop :=
  ∀ tail, escape? (body ++ tail) = some (c, tail) ∧
    startsLine ((body ++ tail).dropWhile isBlank) = false

theorem escapes_short {e : Char} (h : escaped? e = some c) : Escapes c [e] := by
  intro tail
  unfold escaped? at h
  split at h <;> cases h <;> exact ⟨rfl, rfl⟩

theorem hexChar?_upperHex : ∀ n < 128,
    hexChar? ['0', '0', upperHex (n / 16), upperHex (n % 16)] = some (Char.ofNat n) := by
  decide +kernel

theorem escapes_hex (h : c.toNat < 128) :
    Escapes c ['u', '0', '0', upperHex (c.toNat / 16), upperHex (c.toNat % 16)] := by
  intro tail
  have hex := hexChar?_upperHex c.toNat h
  rw [Char.ofNat_toNat] at hex
  simp [escape?, hex, isBlank, startsLine]

/-- A character is written as it is, or as an escape. -/
theorem escapeChar_cases (c : Char) :
    (escapeChar c = [c] ∧ c ≠ '\\' ∧ isForbidden c = false) ∨
      ∃ body, escapeChar c = '\\' :: body ∧ Escapes c body := by
  unfold escapeChar
  split
  · exact .inr ⟨_, rfl, escapes_short rfl⟩
  · exact .inr ⟨_, rfl, escapes_short rfl⟩
  · exact .inr ⟨_, rfl, escapes_short rfl⟩
  · exact .inr ⟨_, rfl, escapes_short rfl⟩
  · exact .inr ⟨_, rfl, escapes_short rfl⟩
  · next other =>
    split
    · next forbidden =>
      refine .inr ⟨_, rfl, escapes_hex ?_⟩
      simp only [isForbidden, Bool.or_eq_true, Bool.and_eq_true, decide_eq_true_eq] at forbidden
      omega
    · next allowed => exact .inl ⟨rfl, other, by simpa using allowed⟩

/-! ## On one line -/

theorem basic_raw (quote : c ≠ '"') (slash : c ≠ '\\') (allowed : isForbidden c = false) :
    basic done (c :: tail) = basic (c :: done) tail := by
  rw [basic.eq_4 done c tail quote slash, if_neg (by simp [allowed])]

theorem basic_escape (h : Escapes c body) :
    basic done ('\\' :: (body ++ tail)) = basic (c :: done) tail := by
  have found := (h tail).1
  rw [basic.eq_3]
  split
  · next found' => rw [found] at found'; cases found'; rfl
  · next missing => rw [found] at missing; cases missing

theorem basic_escapeChar (quote : c ≠ '"') :
    basic done (escapeChar c ++ tail) = basic (c :: done) tail := by
  obtain ⟨raw, slash, allowed⟩ | ⟨body, form, escapes⟩ := escapeChar_cases c
  · rw [raw]
    exact basic_raw quote slash allowed
  · rw [form]
    exact basic_escape escapes

/-- Each character of a text is read off the body that it is written to. -/
theorem basic_basicBody_cons : basic done (basicBody (c :: cs) ++ tail) =
    basic (c :: done) (basicBody cs ++ tail) := by
  rw [basicBody, List.flatMap_cons, List.append_assoc]
  split
  · exact basic_escape (escapes_short rfl)
  · exact basic_escape (escapes_short rfl)
  · next quote _ => exact basic_escapeChar quote

/-- A basic string holds its text, whatever the text is. -/
theorem basic_basicBody : basic done (basicBody cs ++ '"' :: rest) =
    some (.ofList (done.reverse ++ cs), rest) := by
  induction cs generalizing done with
  | nil =>
    rw [List.append_nil]
    exact basic.eq_2 done rest
  | cons c cs ih =>
    rw [basic_basicBody_cons, ih, List.reverse_cons, List.append_assoc]
    rfl

/-- A literal string holds a text without quotes and control characters. -/
theorem literal_text (plain : ∀ c ∈ cs, c ≠ '\'' ∧ isForbidden c = false) :
    literal done (cs ++ '\'' :: rest) = some (.ofList (done.reverse ++ cs), rest) := by
  induction cs generalizing done with
  | nil => simp [literal]
  | cons c cs ih =>
    obtain ⟨quote, allowed⟩ := plain c List.mem_cons_self
    rw [List.cons_append, literal.eq_3 _ _ _ quote, if_neg (by simp [allowed]),
      ih fun d mem => plain d (List.mem_cons_of_mem _ mem), List.reverse_cons, List.append_assoc]
    rfl

/-! ## On several lines -/

/-- Up to two quotes in front of the closing ones belong to the string. -/
theorem closeMultiline_replicate {k : Nat} (few : k ≤ 2) (stop : NoQuote q rest) :
    closeMultiline q done (List.replicate k q ++ rest) =
      some (.ofList (done.reverse ++ List.replicate k q), rest) := by
  have extra : (List.replicate k q ++ rest).takeWhile (· = q) = List.replicate k q :=
    takeWhile_append_of_all (by simp [List.mem_replicate]) (by simpa [NoQuote] using stop)
  unfold closeMultiline
  rw [extra, if_pos (by simpa using few), List.drop_left]

theorem multilineBasic_raw (open' : ∀ more, c = '"' → tail = '"' :: '"' :: more → False)
    (slash : c ≠ '\\') (allowed : isForbidden c = false) :
    multilineBasic false done (c :: tail) = multilineBasic false (c :: done) tail := by
  rw [multilineBasic.eq_6 _ _ _ _ open' ?_ ?_ slash]
  · simp [allowed]
  · rintro rfl
    cases allowed
  · rintro _ rfl
    cases allowed

theorem multilineBasic_escape (h : Escapes c body) :
    multilineBasic false done ('\\' :: (body ++ tail)) = multilineBasic false (c :: done) tail := by
  obtain ⟨found, inside⟩ := h tail
  rw [multilineBasic.eq_5, if_neg (by simp [inside])]
  split
  · next found' => rw [found] at found'; cases found'; rfl
  · next missing => rw [found] at missing; cases missing

theorem multilineBasic_escapeChar (quote : c ≠ '"') :
    multilineBasic false done (escapeChar c ++ tail) = multilineBasic false (c :: done) tail := by
  obtain ⟨raw, slash, allowed⟩ | ⟨body, form, escapes⟩ := escapeChar_cases c
  · rw [raw]
    exact multilineBasic_raw (fun _ e => absurd e quote) slash allowed
  · rw [form]
    exact multilineBasic_escape escapes

/-- Anything but a quote goes into the body without one, and so does a third quote. -/
theorem multilineBody_head {n : Nat} (h : c ≠ '"' ∨ n = 2) :
    ∃ d body, multilineBody n (c :: cs) = d :: body ∧ d ≠ '"' := by
  by_cases quote : c = '"'
  · subst quote
    rw [multilineBody, if_pos (h.resolve_left fun ne => ne rfl)]
    exact ⟨_, _, rfl, by decide⟩
  · by_cases line : c = '\n'
    · subst line
      rw [multilineBody]
      exact ⟨_, _, rfl, by decide⟩
    · rw [multilineBody.eq_4 _ _ _ quote line]
      obtain ⟨raw, -⟩ | ⟨body, form, -⟩ := escapeChar_cases c
      · exact ⟨c, multilineBody 0 cs, by rw [raw]; rfl, quote⟩
      · exact ⟨_, _, by rw [form]; rfl, by decide⟩

/-- Behind one quote, or two, the body does not go on with quotes up to three, unless the text
ends there. -/
theorem multilineBody_front {n : Nat} (few : n < 2) (cs : List Char) :
    (cs = [] ∨ n = 0 ∧ cs = ['"']) ∨
      ∀ more, multilineBody (n + 1) cs ++ tail ≠ '"' :: '"' :: more := by
  have different {d : Char} {body : List Char} (head : d ≠ '"') (more : List Char) :
      d :: body ++ tail ≠ '"' :: more := fun e => head (List.cons.inj e).1
  cases cs with
  | nil => exact .inl (.inl rfl)
  | cons c cs =>
    by_cases first : c ≠ '"' ∨ n + 1 = 2
    · obtain ⟨d, body, form, head⟩ := @multilineBody_head c cs (n + 1) first
      rw [form]
      exact .inr fun more => different head _
    · obtain ⟨rfl, one⟩ : c = '"' ∧ n = 0 := by
        simp only [ne_eq, not_or, Decidable.not_not] at first
        exact ⟨first.1, by omega⟩
      subst one
      cases cs with
      | nil => exact .inl (.inr ⟨rfl, rfl⟩)
      | cons e cs =>
        obtain ⟨d, body, form, head⟩ := @multilineBody_head e cs 2 (.inr rfl)
        rw [multilineBody, if_neg (by decide), form]
        exact .inr fun more same => different head more (List.cons.inj same).2

/-- Quotes in front of three more are quotes behind three. -/
theorem replicate_append_triple (k : Nat) (q : Char) (rest : List Char) :
    List.replicate k q ++ q :: q :: q :: rest = q :: q :: q :: (List.replicate k q ++ rest) := by
  have swap : List.replicate k q ++ List.replicate 3 q =
      List.replicate 3 q ++ List.replicate k q := by
    rw [List.replicate_append_replicate, List.replicate_append_replicate, Nat.add_comm]
  have both := congrArg (· ++ rest) swap
  simpa [List.replicate_succ] using both

theorem multilineBasic_close {k : Nat} (few : k ≤ 2) (stop : NoQuote '"' rest) :
    multilineBasic false done (List.replicate k '"' ++ '"' :: '"' :: '"' :: rest) =
      some (.ofList (done.reverse ++ List.replicate k '"'), rest) := by
  rw [replicate_append_triple, multilineBasic.eq_2]
  exact closeMultiline_replicate few stop

/-- A multi-line basic string holds its text, whatever the text is. -/
theorem multilineBasic_multilineBody {n : Nat} (few : n ≤ 2) (stop : NoQuote '"' rest) :
    multilineBasic false done (multilineBody n cs ++ '"' :: '"' :: '"' :: rest) =
      some (.ofList (done.reverse ++ cs), rest) := by
  induction cs generalizing n done with
  | nil => exact multilineBasic_close (Nat.zero_le 2) stop
  | cons c cs ih =>
    have whole : (c :: done).reverse ++ cs = done.reverse ++ c :: cs := by simp
    by_cases quote : c = '"'
    · subst quote
      by_cases third : n = 2
      · rw [multilineBody, if_pos third, ← whole, ← @ih _ 0 (Nat.zero_le 2)]
        exact multilineBasic_escape (escapes_short rfl)
      · have below : n < 2 := by omega
        rw [multilineBody, if_neg third]
        -- the quotes at the end of the text run into the closing ones
        obtain (rfl | ⟨rfl, rfl⟩) | inside :=
          @multilineBody_front ('"' :: '"' :: '"' :: rest) n below cs
        · exact @multilineBasic_close done rest 1 (by decide) stop
        · exact @multilineBasic_close done rest 2 (by decide) stop
        · rw [← whole, ← @ih _ (n + 1) below]
          exact multilineBasic_raw (fun more _ => inside more) (by decide) (by decide)
    · by_cases line : c = '\n'
      · subst line
        rw [multilineBody, ← whole, ← @ih _ 0 (Nat.zero_le 2)]
        exact multilineBasic.eq_3 false done _
      · rw [multilineBody.eq_4 _ _ _ quote line, List.append_assoc, multilineBasic_escapeChar quote,
          ih (Nat.zero_le 2), whole]

theorem multilineLiteral_close {k : Nat} (few : k ≤ 2) (stop : NoQuote '\'' rest) :
    multilineLiteral done (List.replicate k '\'' ++ '\'' :: '\'' :: '\'' :: rest) =
      some (.ofList (done.reverse ++ List.replicate k '\''), rest) := by
  rw [replicate_append_triple, multilineLiteral.eq_2]
  exact closeMultiline_replicate few stop

/-- A quote in a text without three together is not followed by two more, unless the text ends. -/
theorem front_of_not_hasTriple (h : hasTriple q (q :: cs) = false) :
    (cs = [] ∨ cs = [q]) ∨ ∀ more, cs ++ tail ≠ q :: q :: more := by
  match cs with
  | [] => exact .inl (.inl rfl)
  | [d] =>
    by_cases second : d = q
    · exact .inl (.inr (by rw [second]))
    · exact .inr fun more same => second (List.cons.inj same).1
  | d :: e :: cs =>
    refine .inr fun more same => ?_
    obtain ⟨rfl, others⟩ := List.cons.inj same
    obtain ⟨rfl, -⟩ := List.cons.inj others
    simp [hasTriple] at h

theorem hasTriple_tail (h : hasTriple q (c :: cs) = false) : hasTriple q cs = false := by
  match cs with
  | [] => rfl
  | [d] => rfl
  | d :: e :: cs => exact (Bool.or_eq_false_iff.1 h).2

theorem multilineLiteral_raw
    (open' : ∀ more, c = '\'' → tail = '\'' :: '\'' :: more → False)
    (allowed : isForbidden c = false) :
    multilineLiteral done (c :: tail) = multilineLiteral (c :: done) tail := by
  rw [multilineLiteral.eq_5 _ _ _ open' ?_ ?_]
  · simp [allowed]
  · rintro rfl
    cases allowed
  · rintro _ rfl
    cases allowed

/-- A multi-line literal string holds a text without three quotes together. -/
theorem multilineLiteral_text (plain : cs.any needsEscape = false)
    (triple : hasTriple '\'' cs = false) (stop : NoQuote '\'' rest) :
    multilineLiteral done (cs ++ '\'' :: '\'' :: '\'' :: rest) =
      some (.ofList (done.reverse ++ cs), rest) := by
  induction cs generalizing done with
  | nil => exact multilineLiteral_close (Nat.zero_le 2) stop
  | cons c cs ih =>
    rw [List.any_cons, Bool.or_eq_false_iff] at plain
    have whole : (c :: done).reverse ++ cs = done.reverse ++ c :: cs := by simp
    have next := @ih (c :: done) plain.2 (hasTriple_tail triple)
    rw [whole] at next
    by_cases line : c = '\n'
    · subst line
      exact (multilineLiteral.eq_3 done _).trans next
    · have allowed : isForbidden c = false := by simpa [needsEscape, line] using plain.1
      by_cases quote : c = '\''
      · subst quote
        obtain (rfl | rfl) | inside :=
          @front_of_not_hasTriple '\'' cs ('\'' :: '\'' :: '\'' :: rest) triple
        · exact @multilineLiteral_close done rest 1 (by decide) stop
        · exact @multilineLiteral_close done rest 2 (by decide) stop
        · exact (multilineLiteral_raw (fun more _ => inside more) allowed).trans next
      · exact (multilineLiteral_raw (fun _ e => absurd e quote) allowed).trans next

/-! ## Any form -/

theorem startsLine_cons (allowed : isForbidden c = false) : startsLine (c :: tail) = false := by
  unfold startsLine
  split
  · next same => cases same; cases allowed
  · next same => cases same; cases allowed
  · rfl

theorem skipFirstBreak_of_startsLine (h : startsLine tail = false) :
    skipFirstBreak tail = tail := by
  unfold skipFirstBreak
  split
  · cases h
  · cases h
  · rfl

/-- The line break in front of the body is skipped, and nothing of the body. -/
theorem skipFirstBreak_firstBreak (h : '\n' ∉ cs → startsLine tail = false) :
    skipFirstBreak (firstBreak cs ++ tail) = tail := by
  unfold firstBreak
  by_cases line : '\n' ∈ cs
  · rw [if_pos (by simpa using line)]
    rfl
  · rw [if_neg (by simpa using line)]
    exact skipFirstBreak_of_startsLine (h line)

theorem startsLine_multilineBody (h : '\n' ∉ cs) :
    startsLine (multilineBody 0 cs ++ '"' :: tail) = false := by
  cases cs with
  | nil => rfl
  | cons c cs =>
    by_cases quote : c = '"'
    · subst quote
      rfl
    · have line : c ≠ '\n' := fun e => h (e ▸ List.mem_cons_self)
      rw [multilineBody.eq_4 _ _ _ quote line]
      obtain ⟨raw, -, allowed⟩ | ⟨body, form, -⟩ := escapeChar_cases c
      · rw [raw]
        exact startsLine_cons allowed
      · rw [form]
        rfl

/-- A written string is read: behind its first quote stands what reads as the text, in front of a
line break. -/
def ReadsBack (written cs : List Char) : Prop :=
  ∃ quote body, (quote = '"' ∨ quote = '\'') ∧ written = quote :: body ∧
    ∀ rest, readRest quote (body ++ '\n' :: rest) = some (.ofList cs, '\n' :: rest)

theorem readRest_basic (h : ∀ more, tail ≠ '"' :: '"' :: more) :
    readRest '"' tail = basic [] tail := by
  unfold readRest
  split
  · exact absurd rfl (h _)
  · rfl
  · contradiction
  · contradiction

theorem readRest_literal (h : ∀ more, tail ≠ '\'' :: '\'' :: more) :
    readRest '\'' tail = literal [] tail := by
  unfold readRest
  split
  · contradiction
  · contradiction
  · exact absurd rfl (h _)
  · rfl

/-- The body of a basic string has no quote in front. -/
theorem basicBody_head (c : Char) (cs : List Char) :
    ∃ d body, basicBody (c :: cs) = d :: body ∧ d ≠ '"' := by
  unfold basicBody
  rw [List.flatMap_cons]
  split
  · exact ⟨_, _, rfl, by decide⟩
  · exact ⟨_, _, rfl, by decide⟩
  · next quote _ =>
    obtain ⟨raw, -⟩ | ⟨body, form, -⟩ := escapeChar_cases c
    · rw [raw]
      exact ⟨_, _, rfl, quote⟩
    · rw [form]
      exact ⟨_, _, rfl, by decide⟩

theorem readsBack_writeBasic (cs : List Char) : ReadsBack (writeBasic cs) cs := by
  refine ⟨'"', basicBody cs ++ ['"'], .inl rfl, rfl, fun rest => ?_⟩
  have single : ∀ more, basicBody cs ++ '"' :: '\n' :: rest ≠ '"' :: '"' :: more := by
    intro more same
    cases cs with
    | nil => cases same
    | cons c cs =>
      obtain ⟨d, body, form, head⟩ := basicBody_head c cs
      rw [form] at same
      exact head (List.cons.inj same).1
  rw [List.append_assoc]
  exact (readRest_basic single).trans basic_basicBody

theorem readsBack_writeLiteral (filled : cs ≠ [])
    (plain : ∀ c ∈ cs, c ≠ '\'' ∧ isForbidden c = false) : ReadsBack (writeLiteral cs) cs := by
  refine ⟨'\'', cs ++ ['\''], .inr rfl, rfl, fun rest => ?_⟩
  have single : ∀ more, cs ++ '\'' :: '\n' :: rest ≠ '\'' :: '\'' :: more := by
    intro more same
    obtain ⟨c, cs, rfl⟩ := List.exists_cons_of_ne_nil filled
    exact (plain c List.mem_cons_self).1 (List.cons.inj same).1
  rw [List.append_assoc]
  exact (readRest_literal single).trans (literal_text plain)

theorem readsBack_writeMultilineBasic (cs : List Char) :
    ReadsBack (writeMultilineBasic cs) cs := by
  refine ⟨'"', '"' :: '"' :: (firstBreak cs ++ multilineBody 0 cs ++ ['"', '"', '"']), .inl rfl, rfl,
    fun rest => ?_⟩
  have inside : skipFirstBreak (firstBreak cs ++ multilineBody 0 cs ++ ['"', '"', '"'] ++
      '\n' :: rest) = multilineBody 0 cs ++ '"' :: '"' :: '"' :: '\n' :: rest := by
    rw [List.append_assoc, List.append_assoc]
    exact skipFirstBreak_firstBreak startsLine_multilineBody
  have body := @multilineBasic_multilineBody cs [] ('\n' :: rest) 0 (Nat.zero_le 2)
    (by simp [NoQuote])
  rw [← inside] at body
  exact body

theorem readsBack_writeMultilineLiteral (plain : cs.any needsEscape = false)
    (triple : hasTriple '\'' cs = false) : ReadsBack (writeMultilineLiteral cs) cs := by
  refine ⟨'\'', '\'' :: '\'' :: (firstBreak cs ++ cs ++ ['\'', '\'', '\'']), .inr rfl, rfl,
    fun rest => ?_⟩
  have inside : skipFirstBreak (firstBreak cs ++ cs ++ ['\'', '\'', '\''] ++ '\n' :: rest) =
      cs ++ '\'' :: '\'' :: '\'' :: '\n' :: rest := by
    rw [List.append_assoc, List.append_assoc]
    refine skipFirstBreak_firstBreak fun line => ?_
    cases cs with
    | nil => rfl
    | cons c cs =>
      have other : c ≠ '\n' := fun e => line (e ▸ List.mem_cons_self)
      rw [List.any_cons, Bool.or_eq_false_iff] at plain
      exact startsLine_cons (by simpa [needsEscape, other] using plain.1)
  have body := @multilineLiteral_text cs [] ('\n' :: rest) plain triple (by simp [NoQuote])
  rw [← inside] at body
  exact body

/-- A written string is read back as its text, whichever form it has. -/
theorem readsBack_write (cs : List Char) : ReadsBack (write cs) cs := by
  unfold write
  extract_lets plain
  have unescaped (h : plain = true) : cs.any needsEscape = false := by simpa [plain] using h
  split
  · exact readsBack_writeBasic cs
  · next marked =>
    split
    · next literal =>
      obtain ⟨allowed, kept⟩ := Bool.and_eq_true_iff.1 literal
      have filled : cs ≠ [] := by
        rintro rfl
        exact marked rfl
      have other : ∀ c ∈ cs, c ≠ '\'' ∧ c ≠ '\n' := by simpa using kept
      refine readsBack_writeLiteral filled fun c mem => ⟨(other c mem).1, ?_⟩
      have raw := List.any_eq_false.1 (unescaped allowed) c mem
      simpa [needsEscape, (other c mem).2] using raw
    · split
      · exact readsBack_writeMultilineBasic cs
      · split
        · next literal =>
          obtain ⟨allowed, single⟩ := Bool.and_eq_true_iff.1 literal
          exact readsBack_writeMultilineLiteral (unescaped allowed) (by simpa using single)
        · split
          · exact readsBack_writeMultilineBasic cs
          · exact readsBack_writeBasic cs

end Stabs.Toml.Text

import Stabs.Proofs.Readback.Reader

/-!
# What a reader takes off a text

A reader reads a text in front of a rest if it takes exactly that text off and leaves the rest.
Numbers have to be followed by something else than a digit, and names hold no colon, so that no
reader runs past its own text.
-/
namespace Stabs.Readback

variable {α β : Type} {text more rest : List Char} {a : α} {b : β} {n : Nat} {c : Char}

def Reads (r : Reader α) (text : List Char) (a : α) (rest : List Char) : Prop :=
  r (text ++ rest) = some (a, rest)

/-- No digit stands in front. -/
def NoDigit (text : List Char) : Prop := ∀ c ∈ text.head?, c.isDigit = false

/-- A bare number may stand in front of this text. -/
def Stops (text : List Char) : Prop := ∀ c ∈ text.head?, c.isDigit = false ∧ c ≠ '='

theorem Stops.noDigit (h : Stops text) : NoDigit text := fun c hc => (h c hc).1

theorem noDigit_cons (h : c.isDigit = false) : NoDigit (c :: text) := by
  intro d hd
  cases hd
  exact h

theorem stops_cons (digit : c.isDigit = false) (equals : c ≠ '=') : Stops (c :: text) := by
  intro d hd
  cases hd
  exact ⟨digit, equals⟩

theorem stops_nil : Stops [] := nofun

namespace Reads

variable {r : Reader α} {f : α → Reader β}

theorem pure (a : α) (rest : List Char) : Reads (Pure.pure a) [] a rest := rfl

theorem bind (first : Reads r text a (more ++ rest)) (second : Reads (f a) more b rest) :
    Reads (r >>= f) (text ++ more) b rest := by
  simp only [Reads, Bind.bind, StateT.bind, List.append_assoc] at first second ⊢
  rw [first]
  exact second

/-- What is read last gives the result. -/
theorem last (first : Reads r text a rest) (g : α → β) :
    Reads (r >>= fun a => Pure.pure (g a)) text (g a) rest := by
  have read := @bind _ _ text [] rest a (g a) r (fun a => Pure.pure (g a)) first (pure _ _)
  rwa [List.append_nil] at read

theorem peek {f : Option Char → Reader β} (h : Reads (f (text ++ rest).head?) text b rest) :
    Reads (Readback.peek >>= f) text b rest := h

theorem expect (c : Char) (rest : List Char) : Reads (Readback.expect c) [c] () rest := by
  simp [Reads, Readback.expect]

theorem expect_bind {f : Unit → Reader β} (h : Reads (f ()) more b rest) :
    Reads (Readback.expect c >>= f) (c :: more) b rest :=
  bind (expect c _) h

theorem expectAll (cs rest : List Char) : Reads (Readback.expectAll cs) cs () rest := by
  induction cs with
  | nil => exact pure () rest
  | cons c cs ih =>
    rw [Readback.expectAll, List.forM_cons]
    exact expect_bind ih

end Reads

theorem takeWhile_append_of_all {p : Char → Bool} (all : ∀ c ∈ text, p c = true)
    (stop : ∀ c ∈ rest.head?, p c = false) : (text ++ rest).takeWhile p = text := by
  rw [List.takeWhile_append_of_pos all]
  cases rest with
  | nil => simp
  | cons c rest => simp [stop c rfl]

theorem dropWhile_append_of_all {p : Char → Bool} (all : ∀ c ∈ text, p c = true)
    (stop : ∀ c ∈ rest.head?, p c = false) : (text ++ rest).dropWhile p = rest := by
  rw [List.dropWhile_append_of_pos all]
  cases rest with
  | nil => simp
  | cons c rest => simp [stop c rfl]

theorem isDigit_toDigits (n : Nat) : ∀ c ∈ Nat.toDigits 10 n, c.isDigit = true :=
  fun _ mem => Nat.isDigit_of_mem_toDigits (by decide) (by decide) mem

theorem reads_natural (n : Nat) (stop : NoDigit rest) :
    Reads natural (Nat.toDigits 10 n) n rest := by
  unfold Reads natural
  rw [takeWhile_append_of_all (isDigit_toDigits n) stop,
    dropWhile_append_of_all (isDigit_toDigits n) stop]
  split
  · next h => exact absurd h Nat.toDigits_ne_nil
  · rw [Nat.ofDigitChars_ten_toDigits]

theorem Reads.natural_bind {f : Nat → Reader β} (stop : NoDigit (more ++ rest))
    (h : Reads (f n) more b rest) : Reads (natural >>= f) (Nat.toDigits 10 n ++ more) b rest :=
  bind (reads_natural n stop) h

/-- Numbers start with a digit. -/
theorem head_toDigits (n : Nat) (rest : List Char) :
    ∃ d, (Nat.toDigits 10 n ++ rest).head? = some d ∧ d.isDigit = true := by
  cases h : Nat.toDigits 10 n with
  | nil => exact absurd h Nat.toDigits_ne_nil
  | cons d ds => exact ⟨d, rfl, isDigit_toDigits n d (h ▸ List.mem_cons_self)⟩

theorem reads_integer (i : Int) (stop : NoDigit rest) : Reads integer i.repr.toList i rest := by
  unfold integer
  apply Reads.peek
  cases i with
  | ofNat n =>
    rw [Int.repr, Nat.toList_repr]
    obtain ⟨d, hd, digit⟩ := head_toDigits n rest
    rw [hd, if_neg (by rintro ⟨⟩; cases digit)]
    exact (reads_natural n stop).last fun n => (n : Int)
  | negSucc n =>
    rw [Int.repr, String.toList_append, Nat.toList_repr]
    exact .expect_bind ((reads_natural n.succ stop).last fun n => -(n : Int))

theorem Reads.integer_bind {f : Int → Reader β} {i : Int} (stop : NoDigit (more ++ rest))
    (h : Reads (f i) more b rest) : Reads (integer >>= f) (i.repr.toList ++ more) b rest :=
  bind (reads_integer i stop) h

/-- A name without a colon ends at the colon behind it. -/
theorem Reads.name_bind {f : String → Reader β} {s : String} (plain : ∀ c ∈ s.toList, c ≠ ':')
    (h : Reads (f s) more b rest) : Reads (name >>= f) (s.toList ++ ':' :: more) b rest := by
  have all : ∀ c ∈ s.toList, decide (c ≠ ':') = true := fun c mem => decide_eq_true (plain c mem)
  have read : name (s.toList ++ ':' :: (more ++ rest)) = some (s, more ++ rest) := by
    unfold name
    rw [takeWhile_append_of_all all (by simp), dropWhile_append_of_all all (by simp),
      String.ofList_toList]
  simp only [Reads, Bind.bind, StateT.bind, List.append_assoc, List.cons_append, read]
  exact h

/-- Items up to a semicolon are read whenever the limit is at least the length of their text. -/
def ReadsItems (item : Reader α) (text : List Char) (as : List α) (rest : List Char) : Prop :=
  ∀ limit, text.length ≤ limit → Reads (items item limit) text as rest

namespace ReadsItems

variable {item : Reader α} {as : List α}

theorem nil (rest : List Char) : ReadsItems item [';'] [] rest := by
  intro limit hl
  cases limit with
  | zero => cases hl
  | succ limit =>
    apply Reads.peek
    rw [if_pos (by simp)]
    exact .expect_bind (.pure _ _)

theorem cons (first : Reads item text a (more ++ rest)) (nonempty : text ≠ [])
    (head : ∀ c ∈ text.head?, c ≠ ';') (others : ReadsItems item more as rest) :
    ReadsItems item (text ++ more) (a :: as) rest := by
  intro limit hl
  obtain ⟨c, text, rfl⟩ := List.exists_cons_of_ne_nil nonempty
  rw [List.cons_append, List.length_cons, List.length_append] at hl
  cases limit with
  | zero => cases hl
  | succ limit =>
    apply Reads.peek
    rw [if_neg (by rintro ⟨⟩; exact head ';' rfl rfl)]
    apply first.bind
    exact (others limit (by omega)).last (a :: ·)

theorem all (h : ReadsItems item text as rest) : Reads (allItems item) text as rest :=
  h _ (by rw [List.length_append]; exact Nat.le_add_right _ _)

end ReadsItems

end Stabs.Readback

namespace Stabs

/-- ASCII letters, digits and underscores, with no digit in front. -/
def isIdentifier (name : String) : Bool :=
  match name.toList with
  | [] => false
  | c :: rest => !c.isDigit && (c :: rest).all fun d => d.isAlphanum || d = '_'

theorem alphanum_of_isIdentifier {name : String} (h : isIdentifier name = true) {d : Char}
    (mem : d ∈ name.toList) : d.isAlphanum = true ∨ d = '_' := by
  unfold isIdentifier at h
  split at h
  · cases h
  · next c rest eq =>
    rw [Bool.and_eq_true, List.all_eq_true] at h
    simpa using h.2 d (eq ▸ mem)

/-- No identifier holds a colon. -/
theorem ne_colon_of_isIdentifier {name : String} (h : isIdentifier name = true) :
    ∀ c ∈ name.toList, c ≠ ':' := by
  rintro c mem rfl
  rcases alphanum_of_isIdentifier h mem with h | h
  · revert h; decide
  · cases h

/-- An identifier starts with neither a digit nor a semicolon. -/
theorem head_of_isIdentifier {name : String} (h : isIdentifier name = true) :
    ∃ c rest, name.toList = c :: rest ∧ c.isDigit = false ∧ c ≠ ';' := by
  have sound := @alphanum_of_isIdentifier name h
  unfold isIdentifier at h
  split at h
  · cases h
  · next c rest eq =>
    rw [Bool.and_eq_true, Bool.not_eq_true'] at h
    refine ⟨c, rest, eq, h.1, ?_⟩
    rintro rfl
    rcases sound (eq ▸ List.mem_cons_self) with h | h
    · revert h; decide
    · cases h

end Stabs

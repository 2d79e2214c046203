import Mathlib.Data.List.Flatten
import Stabs.Proofs.Description.Cuts

/-!
# Abandoned descriptions

A description that is not finished is dropped when the next one starts, but only from its last cut
on: the parts cut off before are records already. They stay in front of the next description, and
the last of them says that it is continued although nothing of its description follows. So nothing
is left of an abandoned description exactly if none of its safe points lies beyond the limit.
-/
namespace Stabs

open TypeDescription (Mark tokens)

namespace Segment

/-- Behind the segment no safe point of the marks lies beyond the limit. -/
def Whole (segment : Segment) (marks : List Mark) : Prop :=
  ∀ front back, marks = front ++ .safePoint :: back →
    Segment.size (segment ++ tokens front) ≤ limit

theorem whole_nil (segment : Segment) : Whole segment [] := by
  intro front back e
  cases front <;> cases e

theorem whole_token {segment : Segment} {token : Token} {marks : List Mark} :
    Whole segment (.token token :: marks) ↔ Whole (segment ++ [token]) marks := by
  constructor
  · rintro whole front back rfl
    simpa [tokens] using whole (.token token :: front) back rfl
  · rintro whole (_ | ⟨_, front⟩) back e
    · cases e
    · cases e
      simpa [tokens] using whole front back rfl

theorem whole_safePoint {segment : Segment} {marks : List Mark} :
    Whole segment (.safePoint :: marks) ↔ segment.size ≤ limit ∧ Whole segment marks := by
  have here : Segment.size (segment ++ tokens []) = segment.size :=
    congrArg Segment.size (List.append_nil segment)
  constructor
  · refine fun whole => ⟨here ▸ whole [] marks rfl, ?_⟩
    rintro front back rfl
    exact whole (.safePoint :: front) back rfl
  · rintro ⟨short, whole⟩ (_ | ⟨_, front⟩) back e
    · exact Nat.le_trans (Nat.le_of_eq here) short
    · cases e
      exact whole front back rfl

end Segment

/-- All segments of a description but the last are continued, and there is no other as long as every
safe point lies within the limit. -/
theorem exists_cut (code : Code) (value : Placement) (segment : Segment) (marks : List Mark) :
    ∃ cut last, segments code value segment marks = Segment.records code value cut last ∧
      (cut = [] ↔ segment.Whole marks) := by
  induction marks generalizing segment with
  | nil => exact ⟨[], segment, rfl, iff_of_true rfl (Segment.whole_nil segment)⟩
  | cons m marks ih =>
    cases m with
    | token token =>
      obtain ⟨cut, last, written, whole⟩ := ih (segment ++ [token])
      exact ⟨cut, last, written, whole.trans Segment.whole_token.symm⟩
    | safePoint =>
      rw [segments, Segment.whole_safePoint]
      split
      · next long =>
        obtain ⟨cut, last, written, -⟩ := ih []
        have some : segment :: cut ≠ [] := List.cons_ne_nil segment cut
        refine ⟨segment :: cut, last, by rw [written]; rfl, iff_of_false some fun short => ?_⟩
        exact Nat.not_lt.2 short.1 long
      · next short =>
        obtain ⟨cut, last, written, whole⟩ := ih segment
        have within : segment.size ≤ Segment.limit := Nat.le_of_not_lt short
        exact ⟨cut, last, written, whole.trans ⟨fun h => ⟨within, h⟩, And.right⟩⟩

/-- A description on an emitter: its heading, what is put into it, and whether it is finished or
left as it is. -/
structure Attempt where
  name : String
  letter : Option Char
  code : Code
  value : Placement
  marks : List Mark
  finished : Bool

namespace Attempt

def heading (a : Attempt) : Token := .heading a.name a.letter

def segments (a : Attempt) : List Record := Stabs.segments a.code a.value [a.heading] a.marks

/-- The records that a description leaves, whatever follows it: without the last segment if it is
abandoned. -/
def records (a : Attempt) : List Record :=
  if a.finished then a.segments else a.segments.dropLast

/-- All safe points lie within the limit. -/
def Short (a : Attempt) : Prop := Segment.Whole [a.heading] a.marks

/-- Records beside the place of their description in a list. -/
def origins (k : Nat) : List Attempt → List (Nat × Record)
  | [] => []
  | a :: rest => a.records.map (k, ·) ++ origins (k + 1) rest

end Attempt

def Record.isContinued : Record → Bool
  | symbol _ _ _ continued => continued
  | _ => false

/-- Behind every record that is continued stands another one of the same description. -/
def Joined (l : List (Nat × Record)) : Prop :=
  ∀ before p after, l = before ++ p :: after → p.2.isContinued = true →
    ∃ next, after.head? = some next ∧ next.1 = p.1

namespace Emitter

def attempt (out : Emitter) (a : Attempt) : Emitter :=
  if a.finished then ((out.start a.name a.letter a.code a.value).play a.marks).finish
  else (out.start a.name a.letter a.code a.value).play a.marks

def attempts (out : Emitter) (as : List Attempt) : Emitter := as.foldl attempt out

end Emitter

variable {out : Emitter} {a : Attempt} {as : List Attempt} {k : Nat}

namespace Emitter

/-- A description in progress has left all of its segments but the last. -/
theorem records_play {symbol : PendingSymbol} (h : out.pending = some symbol) (marks : List Mark) :
    (out.play marks).records =
      out.records ++ (segments symbol.code symbol.value symbol.segment marks).dropLast.toArray := by
  have started : out.inSymbol := by simp [inSymbol, h]
  obtain ⟨left, pending⟩ := Option.isSome_iff_exists.1 (inSymbol_play started marks)
  obtain ⟨cut, last, written, -⟩ := exists_cut symbol.code symbol.value symbol.segment marks
  -- finishing would add one record, the last segment
  have finished := congrArg Emitter.records (finish_play h marks)
  rw [finish, pending, written, Segment.records] at finished
  rw [written, Segment.records, List.dropLast_concat]
  have same := congrArg Array.toList finished
  simp only [Array.toList_push, Array.toList_append, ← List.append_assoc] at same
  exact Array.toList_inj.1 ((List.append_inj' same rfl).1.trans (by simp))

theorem records_attempt (out : Emitter) (a : Attempt) :
    (out.attempt a).records = out.records ++ a.records.toArray := by
  have started : (out.start a.name a.letter a.code a.value).pending =
    some ⟨a.code, a.value, [a.heading]⟩ := rfl
  unfold attempt Attempt.records
  split
  · rw [finish_play started]
    rfl
  · exact records_play started a.marks

theorem records_attempts (out : Emitter) (as : List Attempt) :
    (out.attempts as).records = out.records ++ (as.flatMap Attempt.records).toArray := by
  induction as generalizing out with
  | nil => simp [attempts]
  | cons a rest ih =>
    have first := ih (out.attempt a)
    rw [records_attempt] at first
    rw [List.flatMap_cons]
    simpa [attempts] using first

end Emitter

namespace Attempt

theorem dropLast_segments_eq_nil (a : Attempt) : a.segments.dropLast = [] ↔ a.Short := by
  obtain ⟨cut, last, written, whole⟩ := exists_cut a.code a.value [a.heading] a.marks
  rw [segments, written, Segment.records, List.dropLast_concat, Segment.continued,
    List.map_eq_nil_iff]
  exact whole

instance decidableShort (a : Attempt) : Decidable a.Short :=
  decidable_of_iff (a.segments.dropLast = []) a.dropLast_segments_eq_nil

theorem records_eq_nil (abandoned : a.finished = false) : a.records = [] ↔ a.Short := by
  rw [records, abandoned]
  exact a.dropLast_segments_eq_nil

/-- The last record of a finished description is not continued, that of an abandoned one is. -/
theorem isContinued_getLast? {r : Record} (last : a.records.getLast? = some r) :
    r.isContinued = !a.finished := by
  obtain ⟨cut, rest, written, -⟩ := exists_cut a.code a.value [a.heading] a.marks
  rw [records, segments, written, Segment.records] at last
  cases done : a.finished with
  | true =>
    rw [done, if_pos rfl, List.getLast?_concat] at last
    cases last
    rfl
  | false =>
    rw [done, if_neg Bool.false_ne_true, List.dropLast_concat, Segment.continued,
      List.getLast?_map] at last
    obtain ⟨part, -, rfl⟩ := Option.map_eq_some_iff.1 last
    rfl

theorem le_of_mem_origins {p : Nat × Record} (mem : p ∈ origins k as) : k ≤ p.1 := by
  induction as generalizing k with
  | nil => cases mem
  | cons a rest ih =>
    rcases List.mem_append.1 mem with mem | mem
    · obtain ⟨r, -, rfl⟩ := List.mem_map.1 mem
      exact Nat.le_refl k
    · exact Nat.le_of_succ_le (ih mem)

theorem map_snd_origins (k : Nat) (as : List Attempt) :
    (origins k as).map Prod.snd = as.flatMap records := by
  induction as generalizing k with
  | nil => rfl
  | cons a rest ih => simp [origins, ih, Function.comp_def]

end Attempt

section

variable {l m : List (Nat × Record)}

/-- Of one description the last record alone may be continued without a successor. -/
theorem joined_iff (same : ∀ p ∈ l, p.1 = k) :
    Joined l ↔ ∀ p, l.getLast? = some p → p.2.isContinued = false := by
  constructor
  · intro joined p last
    obtain ⟨before, rfl⟩ := List.getLast?_eq_some_iff.1 last
    refine Bool.eq_false_iff.2 fun continued => ?_
    obtain ⟨next, head, -⟩ := joined before p [] rfl continued
    cases head
  · rintro ends before p after rfl continued
    cases after with
    | nil =>
      have ended := ends p List.getLast?_concat
      cases continued.symm.trans ended
    | cons next after =>
      refine ⟨next, rfl, ?_⟩
      rw [same next (by simp), same p (by simp)]

/-- Records of different descriptions are never joined. -/
theorem joined_append (own : ∀ p ∈ l, p.1 = k) (others : ∀ p ∈ m, p.1 ≠ k) :
    Joined (l ++ m) ↔ Joined l ∧ Joined m := by
  constructor
  · refine fun joined => ⟨?_, ?_⟩
    · rintro before p after rfl continued
      obtain ⟨next, head, same⟩ := joined before p (after ++ m) (by simp) continued
      cases after with
      | nil =>
        have foreign := others next (List.mem_of_mem_head? head)
        exact absurd (same.trans (own p (by simp))) foreign
      | cons first after => exact ⟨next, head, same⟩
    · rintro before p after rfl continued
      exact joined (l ++ before) p after (by simp) continued
  · rintro ⟨left, right⟩ before p after e continued
    rcases List.append_eq_append_iff.1 e with ⟨middle, rfl, behind⟩ | ⟨middle, rfl, behind⟩
    · exact right middle p after behind continued
    · cases middle with
      | nil => exact right [] p after behind.symm continued
      | cons q middle =>
        obtain ⟨rfl, rfl⟩ := List.cons.inj behind
        obtain ⟨next, head, same⟩ := left before p middle rfl continued
        have first : (middle ++ m).head? = some next := by
          rw [List.head?_append, head, Option.some_or]
        exact ⟨next, first, same⟩

end

/-- The records of a list of descriptions are joined exactly if nothing is left of those that are
abandoned. -/
theorem joined_origins (k : Nat) (as : List Attempt) : Joined (Attempt.origins k as) ↔
    ∀ a ∈ as, a.finished = false → a.records = [] := by
  induction as generalizing k with
  | nil =>
    have none : Joined [] := fun before p after e => by cases before <;> cases e
    exact iff_of_true none (List.forall_mem_nil _)
  | cons a rest ih =>
    have own : ∀ p ∈ a.records.map (k, ·), p.1 = k := by simp
    have others : ∀ p ∈ Attempt.origins (k + 1) rest, p.1 ≠ k := fun p mem =>
      Nat.ne_of_gt (Attempt.le_of_mem_origins mem)
    rw [Attempt.origins, joined_append own others, ih, joined_iff own, List.forall_mem_cons]
    refine and_congr_left' ⟨fun ends abandoned => ?_, fun empty p last => ?_⟩
    · cases last : a.records.getLast? with
      | none => exact List.getLast?_eq_none_iff.1 last
      | some r =>
        have ended := ends (k, r) (by rw [List.getLast?_map, last, Option.map_some])
        rw [Attempt.isContinued_getLast? last, abandoned] at ended
        cases ended
    · rw [List.getLast?_map] at last
      obtain ⟨r, own, rfl⟩ := Option.map_eq_some_iff.1 last
      rw [Attempt.isContinued_getLast? own]
      cases done : a.finished with
      | true => rfl
      | false =>
        rw [empty done] at own
        cases own

/-- Leaving out members that contribute something changes the concatenation. -/
theorem flatMap_filter_eq_iff {α β : Type} {keep : α → Bool} {f : α → List β} {l : List α} :
    (l.filter keep).flatMap f = l.flatMap f ↔ ∀ a ∈ l, keep a = false → f a = [] := by
  have shorter (l : List α) : ((l.filter keep).flatMap f).length ≤ (l.flatMap f).length :=
    (List.filter_sublist.flatMap f).length_le
  induction l with
  | nil => simp
  | cons a rest ih =>
    rw [List.forall_mem_cons, List.flatMap_cons]
    refine Iff.trans ?_ (and_congr_right' ih)
    cases kept : keep a with
    | true => simp [kept]
    | false =>
      rw [List.filter_cons, if_neg (by simp [kept])]
      constructor
      · intro same
        have lengths := congrArg List.length same
        rw [List.length_append] at lengths
        have none : f a = [] := List.length_eq_zero_iff.1 (by have := shorter rest; omega)
        exact ⟨fun _ => none, by rw [same, none, List.nil_append]⟩
      · rintro ⟨none, same⟩
        rw [none rfl, List.nil_append, same]

namespace Emitter

/-- What abandoned descriptions leave behind. On any emitter, descriptions leave their records one
behind the other, those that are abandoned the parts that were cut off. They leave nothing, so that
the records are those of the finished ones, and every part that is continued has the next one of its
description behind it, exactly if all safe points of those that are abandoned lie within the
limit. -/
theorem attempts_clean_iff (out : Emitter) (as : List Attempt) :
    (∀ a b : Attempt, a.finished = false → b.finished = true →
      (((out.attempt a).attempt b).records = (out.attempt b).records ↔ a.Short)) ∧
    (out.attempts as).records =
      out.records ++ ((Attempt.origins 0 as).map Prod.snd).toArray ∧
    ((out.attempts as).records = (out.attempts (as.filter Attempt.finished)).records ↔
      ∀ a ∈ as, a.finished = false → a.Short) ∧
    (Joined (Attempt.origins 0 as) ↔ ∀ a ∈ as, a.finished = false → a.Short) := by
  have short : (∀ a ∈ as, a.finished = false → a.records = []) ↔
      ∀ a ∈ as, a.finished = false → a.Short :=
    forall₂_congr fun a _ => forall_congr' Attempt.records_eq_nil
  refine ⟨fun a b abandoned _ => ?_, ?_, ?_, ?_⟩
  · rw [← Attempt.records_eq_nil abandoned, records_attempt, records_attempt, records_attempt,
      Array.append_assoc, Array.append_right_inj]
    simp
  · rw [records_attempts, Attempt.map_snd_origins]
  · rw [records_attempts, records_attempts, ← short, ← flatMap_filter_eq_iff,
      Array.append_right_inj]
    simp [eq_comm]
  · rw [joined_origins, short]

end Emitter

namespace Samples

/-- A description that goes on behind a safe point, with so much text in front of it. -/
def interrupted (text : String) : Attempt where
  name := "x"
  letter := some 'G'
  code := .global
  value := .number 0
  marks := [.token (.raw text), .safePoint, .token (.raw "tail")]
  finished := false

def replacement : Attempt where
  name := "y"
  letter := some 'G'
  code := .global
  value := .number 0
  marks := [.token (.number .int)]
  finished := true

/-- Nothing is left of a description that is abandoned before its first cut. -/
theorem interrupted_early : (interrupted "1").finished = false ∧ replacement.finished = true ∧
    (interrupted "1").Short ∧
      ((Emitter.empty.attempt (interrupted "1")).attempt replacement).records =
        (Emitter.empty.attempt replacement).records := by
  have short : (interrupted "1").Short := by decide
  have law := (Emitter.attempts_clean_iff .empty []).1 (interrupted "1") replacement rfl rfl
  exact ⟨rfl, rfl, short, law.2 short⟩

/-- Behind a cut the first part stays, and the replacement follows it as if it were the rest. -/
theorem interrupted_late :
    let started := interrupted (String.ofList (List.replicate 90 'a'))
    Emitter.empty.inSymbol = false ∧
      ((Emitter.empty.attempt started).attempt replacement).records ≠
        (Emitter.empty.attempt replacement).records ∧
      ¬ Joined (Attempt.origins 0 [started, replacement]) := by
  intro started
  refine ⟨rfl, by decide +kernel, fun joined => ?_⟩
  have gone := (joined_origins 0 [started, replacement]).1 joined started List.mem_cons_self rfl
  have kept : started.records ≠ [] := by decide +kernel
  exact kept gone

end Samples

end Stabs

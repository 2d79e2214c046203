import Mathlib.Algebra.Group.Nat.Defs
import Mathlib.Data.List.Basic
import Mathlib.Data.List.Induction
import Stabs.Proofs.Numbering

/-!
# The tables of a numbering and the calls made on them

What the tables say follows from the calls that were made on new ones. A number stands for the place
of its type in the list of the requested types, each taken where it is requested first, although the
table that holds it is ordered by id. A status is the greatest that was ever asked for, as long as
statuses are asked for on numbers that were given out; the status table keeps a slot for each of
these numbers through every doubling.
-/
namespace Stabs

namespace NumberTables

/-- Asks for the number of a type, or for a status of a number. -/
inductive Call where
  | request (ty : TypeId)
  | mark (n : TypeNumber) (status : TypeStatus)
deriving DecidableEq

def Call.type? : Call → Option TypeId
  | request ty => some ty
  | mark _ _ => none

/-- The types that are requested, repeated requests included. -/
def requested (calls : List Call) : List TypeId := calls.filterMap Call.type?

def call (tables : NumberTables) : Call → NumberTables
  | .request ty => (tables.allocate ty).2
  | .mark n status => tables.setStatus n status

def callAll (tables : NumberTables) (calls : List Call) : NumberTables := calls.foldl call tables

/-- Every status is asked for on a number that was given out, in `given` or by a request before. -/
def Answered (tables : NumberTables) (given : List TypeNumber) : List Call → Prop
  | [] => True
  | .request ty :: rest => Answered (tables.allocate ty).2 ((tables.allocate ty).1 :: given) rest
  | .mark n status :: rest => n ∈ given ∧ Answered (tables.setStatus n status) given rest

instance decidableAnswered : ∀ (tables : NumberTables) (given : List TypeNumber)
    (calls : List Call), Decidable (Answered tables given calls)
  | _, _, [] => .isTrue trivial
  | tables, given, .request ty :: rest =>
    decidableAnswered (tables.allocate ty).2 ((tables.allocate ty).1 :: given) rest
  | tables, given, .mark n status :: rest =>
    have := decidableAnswered (tables.setStatus n status) given rest
    inferInstanceAs (Decidable (n ∈ given ∧ Answered (tables.setStatus n status) given rest))

/-- The greatest status that calls ask for on a number; unseen if they ask for none. -/
structure Greatest (calls : List Call) (n : TypeNumber) (status : TypeStatus) : Prop where
  bound : ∀ s, .mark n s ∈ calls → s.rank ≤ status.rank
  asked : status = .unseen ∨ .mark n status ∈ calls

/-- What the tables say after calls on new ones. They hold the list of the requested types, so the
next number is one more than there are types in it. -/
structure Reflects (tables : NumberTables) (calls : List Call) : Prop where
  lists : tables.Lists (requested calls).eraseDups
  numbered : ∀ ty, (tables.number? ty).isSome ↔ ty ∈ requested calls
  injective : ∀ x y n, tables.number? x = some n → tables.number? y = some n → x = y
  range : ∀ n, (∃ ty, tables.number? ty = some n) ↔ 1 ≤ n.value ∧ n.value ≤ tables.size
  order : ∀ x y m n, tables.number? x = some m → tables.number? y = some n →
    (m.value < n.value ↔ (requested calls).idxOf x < (requested calls).idxOf y)
  unrequested : ∀ ty, ty ∉ requested calls →
    tables.number? ty = none ∧ tables.statusOf ty = .unseen
  status : ∀ ty n, tables.number? ty = some n →
    Greatest calls n (tables.status n) ∧ tables.statusOf ty = tables.status n
  doubled : ∃ k, tables.capacity = 100 * 2 ^ k
  slot : ∀ ty n, tables.number? ty = some n → n.value < tables.capacity
  /-- The counter stays within 32 bits as long as the types do not use them up. -/
  fits : (requested calls).eraseDups.length < 2 ^ 32 - 1 → tables.next < 2 ^ 32

/-- What every call keeps: the tables hold the list of the requested types, every number has its
greatest status, and the status table is doubled a number of times. -/
structure Follows (tables : NumberTables) (calls : List Call) : Prop where
  lists : tables.Lists (requested calls).eraseDups
  greatest : ∀ n, Greatest calls n (tables.status n)
  doubled : ∃ k, tables.capacity = 100 * 2 ^ k

variable {tables : NumberTables} {calls past : List Call} {given : List TypeNumber} {ty : TypeId}
  {n m : TypeNumber} {s : TypeStatus}

theorem requested_snoc_request (past : List Call) (ty : TypeId) :
    requested (past ++ [.request ty]) = requested past ++ [ty] := by
  simp [requested, Call.type?]

theorem requested_snoc_mark (past : List Call) (n : TypeNumber) (s : TypeStatus) :
    requested (past ++ [.mark n s]) = requested past := by
  simp [requested, Call.type?]

theorem requested_requests (l : List TypeId) : requested (l.map .request) = l := by
  induction l with
  | nil => rfl
  | cons ty l ih => exact congrArg (ty :: ·) ih

theorem callAll_append (tables : NumberTables) (a b : List Call) :
    tables.callAll (a ++ b) = (tables.callAll a).callAll b := List.foldl_append

/-! ## Numbers -/

/-- No call changes a number. -/
theorem number?_call (h : tables.number? ty = some n) (c : Call) :
    (tables.call c).number? ty = some n := by
  cases c with
  | request x => exact number?_allocate_of_some h x
  | mark m s => exact h

theorem number?_callAll (h : tables.number? ty = some n) (calls : List Call) :
    (tables.callAll calls).number? ty = some n := by
  induction calls generalizing tables with
  | nil => exact h
  | cons c calls ih => exact ih (number?_call h c)

namespace Lists

/-- A request lists a type behind the others, unless it is listed already. -/
theorem call (h : tables.Lists (requested past).eraseDups) (c : Call) :
    (tables.call c).Lists (requested (past ++ [c])).eraseDups := by
  cases c with
  | request ty =>
    rw [requested_snoc_request]
    cases number : tables.number? ty with
    | some n =>
      have old := List.mem_eraseDups.1 (h.number?_eq_some.1 number).1
      rw [eraseDups_append_of_subset (List.cons_subset.2 ⟨old, List.nil_subset _⟩)]
      exact h.again number
    | none =>
      have new := mt List.mem_eraseDups.2 (h.number?_eq_none.1 number)
      rw [eraseDups_snoc_of_not_mem new]
      exact h.new number
  | mark n s =>
    rw [requested_snoc_mark]
    exact h.setStatus n s

theorem callAll (h : tables.Lists (requested past).eraseDups) (calls : List Call) :
    (tables.callAll calls).Lists (requested (past ++ calls)).eraseDups := by
  induction calls generalizing tables past with
  | nil => rwa [List.append_nil]
  | cons c calls ih =>
    have rest := ih (h.call c)
    rwa [List.append_assoc] at rest

end Lists

section

variable {l : List TypeId} {x y : TypeId}

theorem mem_snoc (h : x ∈ l ++ [ty]) : x ∈ l ∨ x = ty :=
  (List.mem_append.1 h).imp_right List.mem_singleton.1

theorem idxOf_snoc_self (h : ty ∉ l) : (l ++ [ty]).idxOf ty = l.length := by
  rw [List.idxOf_append_of_notMem h, List.idxOf_cons_self, Nat.add_zero]

theorem not_lt_idxOf_snoc (h : x ∈ l ++ [ty]) : ¬ l.length < (l ++ [ty]).idxOf x := by
  have := List.idxOf_lt_length_of_mem h
  rw [List.length_append, List.length_singleton] at this
  omega

/-- What comes last stands behind everything else. -/
theorem idxOf_snoc_lt_iff (fresh : ty ∉ l) (hx : x ∈ l ++ [ty]) (hy : y ∈ l ++ [ty]) :
    (l ++ [ty]).idxOf x < (l ++ [ty]).idxOf y ↔ x ∈ l ∧ (y = ty ∨ l.idxOf x < l.idxOf y) := by
  rcases mem_snoc hx with oldx | rfl
  · rw [List.idxOf_append_of_mem oldx, and_iff_right oldx]
    rcases mem_snoc hy with oldy | rfl
    · have other : y ≠ ty := fun same => fresh (same ▸ oldy)
      rw [List.idxOf_append_of_mem oldy, or_iff_right other]
    · rw [idxOf_snoc_self fresh]
      exact iff_of_true (List.idxOf_lt_length_of_mem oldx) (.inl rfl)
  · rw [idxOf_snoc_self fresh]
    exact iff_of_false (not_lt_idxOf_snoc hy) fun both => fresh both.1

/-- Without the repetitions the types come in the order of their first places. -/
theorem idxOf_eraseDups_lt_iff (hx : x ∈ l) (hy : y ∈ l) :
    l.eraseDups.idxOf x < l.eraseDups.idxOf y ↔ l.idxOf x < l.idxOf y := by
  -- by the last element, which is either repeated or the last one of both lists
  induction l using List.reverseRecOn with
  | nil => cases hx
  | append_singleton l ty ih =>
    by_cases old : ty ∈ l
    · have inside {z : TypeId} (hz : z ∈ l ++ [ty]) : z ∈ l :=
        (mem_snoc hz).elim id fun same => same ▸ old
      rw [eraseDups_append_of_subset (List.cons_subset.2 ⟨old, List.nil_subset _⟩),
        List.idxOf_append_of_mem (inside hx), List.idxOf_append_of_mem (inside hy)]
      exact ih (inside hx) (inside hy)
    · have same (z : TypeId) : z ∈ l.eraseDups ++ [ty] ↔ z ∈ l ++ [ty] := by
        rw [List.mem_append, List.mem_append, List.mem_eraseDups]
      rw [eraseDups_snoc_of_not_mem old,
        idxOf_snoc_lt_iff (mt List.mem_eraseDups.1 old) ((same x).2 hx) ((same y).2 hy),
        idxOf_snoc_lt_iff old hx hy, List.mem_eraseDups]
      refine and_congr_right fun oldx => or_congr_right' fun other => ?_
      exact ih oldx ((mem_snoc hy).resolve_right other)

end

/-! ## Statuses -/

namespace Greatest

theorem request (h : Greatest past n s) (ty : TypeId) : Greatest (past ++ [.request ty]) n s where
  bound t mem := h.bound t (by simpa using mem)
  asked := h.asked.imp_right (List.mem_append_left _)

theorem other (h : Greatest past n s) (different : m ≠ n) (t : TypeStatus) :
    Greatest (past ++ [.mark m t]) n s where
  bound u mem := h.bound u (by simpa [different.symm] using mem)
  asked := h.asked.imp_right (List.mem_append_left _)

theorem mark (h : Greatest past n s) (t : TypeStatus) :
    Greatest (past ++ [.mark n t]) n (s.later t) where
  bound u mem := by
    rcases List.mem_append.1 mem with mem | mem
    · exact Nat.le_trans (h.bound u mem) (s.rank_le_later_left t)
    · cases List.mem_singleton.1 mem
      exact TypeStatus.rank_le_later_right s t
  asked := by
    rcases TypeStatus.later_eq_or s t with e | e
    · rw [e]
      exact h.asked.imp_right (List.mem_append_left _)
    · rw [e]
      exact .inr (List.mem_append_right _ List.mem_cons_self)

end Greatest

theorem doubled_allocate (h : ∃ k, tables.capacity = 100 * 2 ^ k) (ty : TypeId) :
    ∃ k, (tables.allocate ty).2.capacity = 100 * 2 ^ k := by
  obtain ⟨k, e⟩ := h
  unfold allocate
  split
  · exact ⟨k, e⟩
  · unfold capacity grow at *
    dsimp only
    split
    · refine ⟨k + 1, ?_⟩
      rw [Array.size_append, Array.size_replicate, e]
      omega
    · exact ⟨k, e⟩

namespace Follows

theorem empty : Follows {} [] where
  lists := .empty
  greatest n := ⟨fun _ mem => (List.not_mem_nil mem).elim, .inl (Numbering.status_empty n)⟩
  doubled := ⟨0, rfl⟩

theorem request (h : Follows tables past) (ty : TypeId) :
    Follows (tables.call (.request ty)) (past ++ [.request ty]) where
  lists := h.lists.call _
  greatest n := by
    rw [call, status_allocate]
    exact (h.greatest n).request ty
  doubled := doubled_allocate h.doubled ty

/-- A status that is asked for on a number that was given out finds its slot. -/
theorem mark (h : Follows tables past) (number : tables.number? ty = some n) (s : TypeStatus) :
    Follows (tables.call (.mark n s)) (past ++ [.mark n s]) where
  lists := h.lists.call _
  greatest m := by
    rw [call, status_setStatus]
    by_cases same : n = m
    · subst same
      rw [if_pos ⟨rfl, h.lists.slot number⟩]
      exact (h.greatest n).mark s
    · rw [if_neg fun both => same both.1]
      exact (h.greatest m).other same s
  doubled := by
    obtain ⟨k, e⟩ := h.doubled
    exact ⟨k, by simpa [call, setStatus, capacity] using e⟩

/-- What every call keeps holds after all of them. -/
theorem callAll (h : Follows tables past) (answered : Answered tables given calls)
    (numbers : ∀ n ∈ given, ∃ ty, tables.number? ty = some n) :
    Follows (tables.callAll calls) (past ++ calls) := by
  induction calls generalizing tables past given with
  | nil => rwa [List.append_nil]
  | cons c calls ih =>
    have step : past ++ c :: calls = past ++ [c] ++ calls := by simp
    rw [step]
    cases c with
    | request ty =>
      refine ih (h.request ty) answered fun n mem => ?_
      rcases List.mem_cons.1 mem with rfl | mem
      · exact ⟨ty, number?_allocate_self tables ty⟩
      · obtain ⟨x, number⟩ := numbers n mem
        exact ⟨x, number?_allocate_of_some number ty⟩
    | mark n s =>
      obtain ⟨mem, rest⟩ := answered
      obtain ⟨ty, number⟩ := numbers n mem
      exact ih (h.mark number s) rest numbers

theorem reflects (h : Follows tables calls) : Reflects tables calls where
  lists := h.lists
  numbered ty := by
    rw [Option.isSome_iff_ne_none, Ne, h.lists.number?_eq_none, not_not, List.mem_eraseDups]
  injective x y n hx hy := h.lists.number?_inj hx hy
  range n := by
    have next := h.lists.next
    refine ⟨fun ⟨ty, number⟩ => ?_, fun ⟨low, high⟩ => ?_⟩
    · have bounds := h.lists.number?_le number
      unfold size
      omega
    · unfold size at high
      have inside : n.value - 1 < (requested calls).eraseDups.length := by omega
      have same : (⟨n.value - 1 + 1⟩ : TypeNumber) = n := by rw [Nat.sub_add_cancel low]
      exact ⟨_, same ▸ h.lists.number?_getElem inside⟩
  order x y m n hx hy := by
    obtain ⟨memx, ex⟩ := h.lists.number?_eq_some.1 hx
    obtain ⟨memy, ey⟩ := h.lists.number?_eq_some.1 hy
    rw [← idxOf_eraseDups_lt_iff (List.mem_eraseDups.1 memx) (List.mem_eraseDups.1 memy)]
    omega
  unrequested ty absent := by
    have none := h.lists.number?_eq_none.2 (mt List.mem_eraseDups.1 absent)
    exact ⟨none, by rw [statusOf, none]⟩
  status ty n number := ⟨h.greatest n, by rw [statusOf, number]⟩
  doubled := h.doubled
  slot ty n number := h.lists.slot number
  fits few := by
    rw [h.lists.next]
    omega

end Follows

theorem Answered.front {behind : List Call} (h : Answered tables given (calls ++ behind)) :
    Answered tables given calls := by
  induction calls generalizing tables given with
  | nil => trivial
  | cons c calls ih =>
    cases c with
    | request ty =>
      have rest : Answered (tables.allocate ty).2 _ (calls ++ behind) := h
      exact ih rest
    | mark n s => exact ⟨h.1, ih h.2⟩

/-- After every step of a history of calls on new tables, the types have the numbers from one to the
number of types in the order of their first requests, each with the greatest status that was asked
for, and the status table has a slot for each of them. Later calls change no number, and a request
is answered with the number that its type has from then on. -/
theorem reflects_callAll {calls before behind : List Call} (answered : Answered {} [] calls)
    (split : calls = before ++ behind) :
    Reflects (callAll {} before) before ∧
      (∀ ty n, (callAll {} before).number? ty = some n → (callAll {} calls).number? ty = some n) ∧
      ∀ ty rest, behind = .request ty :: rest →
        (callAll {} calls).number? ty = some ((callAll {} before).allocate ty).1 := by
  subst split
  rw [callAll_append]
  refine ⟨?_, fun ty n number => number?_callAll number behind, ?_⟩
  · exact (Follows.empty.callAll answered.front (List.forall_mem_nil _)).reflects
  · rintro ty rest rfl
    exact number?_callAll (number?_allocate_self _ ty) rest

/-- As many types as the first status table has slots for, each beyond the ids before it. -/
def filling : List Call := (List.range 99).map fun i => .request (.ofNat (i + 1))

/-- One more type, whose id was passed over, and statuses for its number on both sides of what was
asked for before. -/
def outgrowing : List Call :=
  [.request ⟨0⟩, .mark ⟨100⟩ .crossReferenced, .mark ⟨100⟩ .defined, .mark ⟨99⟩ .crossReferenced,
    .mark ⟨100⟩ .unseen]

theorem filling_outgrowing : Answered {} [] (filling ++ outgrowing) ∧
    Reflects (callAll {} filling) filling ∧
      Reflects (callAll {} (filling ++ outgrowing)) (filling ++ outgrowing) ∧
        (callAll {} (filling ++ outgrowing)).number? ⟨0⟩ =
          some ((callAll {} filling).allocate ⟨0⟩).1 := by
  have answered : Answered {} [] (filling ++ outgrowing) := by decide +kernel
  obtain ⟨filled, -, number⟩ := reflects_callAll answered rfl
  obtain ⟨outgrown, -⟩ := reflects_callAll answered (List.append_nil _).symm
  exact ⟨answered, filled, outgrown, number ⟨0⟩ _ rfl⟩

end NumberTables

end Stabs

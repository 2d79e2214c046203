import Stabs.Proofs.Description.SafePoints
import Stabs.Proofs.Description.Spacing

/-!
# Cuts are invisible

A description is the same text with cuts and without them, and it fails in the same cases with the
same numbering left behind. The cuts themselves are determined by the text: at a safe point it is
cut exactly if what has been written since the last cut is longer than the limit.
-/
namespace Stabs

open TypeDescription

namespace Segment

theorem size_eq (segment : Segment) : segment.size = (Segment.text segment).utf8ByteSize := by
  induction segment with
  | nil => rfl
  | cons t rest ih =>
    rw [size, ih, text, text, List.map_cons, String.join_cons, String.utf8ByteSize_append]

theorem text_append (a b : Segment) : Segment.text (a ++ b) = Segment.text a ++ Segment.text b := by
  rw [text, List.map_append, String.join_append, text, text]

theorem text_flatten (parts : List Segment) :
    Segment.text parts.flatten = String.join (parts.map Segment.text) := by
  induction parts with
  | nil => rfl
  | cons part rest ih => rw [List.flatten_cons, text_append, ih, List.map_cons, String.join_cons]

/-- A safe point stands between two pieces of a text. -/
def SafePoint (front back : Segment) : Prop :=
  ∃ t u, front.getLast? = some t ∧ back.head? = some u ∧ t.meets u = true

/-- No safe point inside of a part lies beyond the limit. -/
def Unbroken (part : Segment) : Prop :=
  ∀ front back, part = front ++ back → SafePoint front back → front.size ≤ limit

/-- Parts as they come out of the emitter, the last one included. -/
structure Greedy (parts : List Segment) : Prop where
  cuts : ∀ before a b after, parts = before ++ a :: b :: after → SafePoint a b ∧ limit < a.size
  parts : ∀ part ∈ parts, part ≠ [] ∧ Unbroken part

/-- A text and the parts it is cut into: the cuts are at safe points, and a safe point is a cut
exactly when the text since the previous cut is longer than the limit there. -/
structure Cut (text : Segment) (parts : List Segment) : Prop where
  joined : parts.flatten = text
  safe : ∀ before a b after, parts = before ++ a :: b :: after → SafePoint a b
  first : ∀ front back, text = front ++ back → SafePoint front back →
    ∃ before a b after, parts = before ++ (a ++ b) :: after ∧ front = before.flatten ++ a ∧
      a ≠ [] ∧ (b = [] ↔ limit < (Segment.text a).utf8ByteSize)

theorem SafePoint.front_ne_nil {front back : Segment} (h : SafePoint front back) : front ≠ [] := by
  rintro rfl
  obtain ⟨t, u, last, -⟩ := h
  cases last

/-- Only the end of the text in front counts. -/
theorem SafePoint.of_append {front a back : Segment} (h : SafePoint (front ++ a) back)
    (some : a ≠ []) : SafePoint a back := by
  obtain ⟨t, u, last, head, meets⟩ := h
  refine ⟨t, u, ?_, head, meets⟩
  rw [List.getLast?_append] at last
  cases ha : a.getLast? with
  | none => exact absurd (List.getLast?_eq_none_iff.1 ha) some
  | some v => simpa [ha] using last

/-- Only the start of the text behind counts. -/
theorem SafePoint.of_back {front b back : Segment} (h : SafePoint front (b ++ back))
    (some : b ≠ []) : SafePoint front b := by
  obtain ⟨t, u, last, head, meets⟩ := h
  refine ⟨t, u, last, ?_, meets⟩
  cases b with
  | nil => exact absurd rfl some
  | cons v b => exact head

/-- In front of a safe point the text ends in a semicolon or a comma. -/
theorem SafePoint.text_front {front back : Segment} (h : SafePoint front back) :
    ∃ s, Segment.text front = s ++ ";" ∨ Segment.text front = s ++ "," := by
  obtain ⟨t, u, last, -, meets⟩ := h
  obtain ⟨more, rfl⟩ := List.getLast?_eq_some_iff.1 last
  obtain ⟨s, ends⟩ := Token.text_of_meets meets
  have whole : Segment.text (more ++ [t]) = Segment.text more ++ t.text := by
    rw [text_append]
    simp [text]
  refine ⟨Segment.text more ++ s, ?_⟩
  rw [whole, String.append_assoc, String.append_assoc]
  rcases ends with e | e <;> simp [e]

theorem unbroken_nil : Unbroken [] := by
  intro front back e safe
  exact absurd (List.append_eq_nil_iff.1 e.symm).1 safe.front_ne_nil

theorem unbroken_singleton (u : Token) : Unbroken [u] := by
  intro front back e safe
  obtain ⟨t, w, last, head, -⟩ := safe
  rcases List.cons_eq_append_iff.1 e with ⟨rfl, -⟩ | ⟨rest, -, e⟩
  · cases last
  · rw [(List.append_eq_nil_iff.1 e.symm).2] at head
    cases head

/-- A token in front of which there is no safe point, unless the part is short enough, leaves the
part unbroken. -/
theorem Unbroken.snoc {segment : Segment} {prev u : Token} (unbroken : Unbroken segment)
    (last : segment.getLast? = some prev)
    (short : prev.meets u = true → segment.size ≤ limit) : Unbroken (segment ++ [u]) := by
  intro front back e safe
  rcases List.eq_nil_or_concat back with rfl | ⟨body, v, rfl⟩
  · obtain ⟨t, w, -, head, -⟩ := safe
    cases head
  · rw [List.concat_eq_append] at e safe
    rw [← List.append_assoc] at e
    obtain ⟨rfl, same⟩ := List.append_inj' e rfl
    cases same
    by_cases inner : body = []
    · subst inner
      obtain ⟨t, w, last', head, meets⟩ := safe
      rw [List.append_nil] at last short
      cases head
      cases last.symm.trans last'
      exact short meets
    · exact unbroken front body rfl (safe.of_back inner)

theorem Greedy.single {part : Segment} (some : part ≠ []) (unbroken : Unbroken part) :
    Greedy [part] where
  cuts before a b after e := by
    rcases List.cons_eq_append_iff.1 e with ⟨-, e⟩ | ⟨rest, -, e⟩
    · cases e
    · cases rest <;> cases e
  parts p mem := by
    cases List.mem_singleton.1 mem
    exact ⟨some, unbroken⟩

theorem Greedy.cons {part next : Segment} {rest : List Segment} (h : Greedy (next :: rest))
    (safe : SafePoint part next) (long : limit < part.size) (unbroken : Unbroken part) :
    Greedy (part :: next :: rest) where
  cuts before a b after e := by
    rcases List.cons_eq_append_iff.1 e with ⟨-, e⟩ | ⟨others, -, e⟩
    · cases e
      exact ⟨safe, long⟩
    · exact h.cuts others a b after e
  parts p mem := by
    rcases List.mem_cons.1 mem with rfl | mem
    · exact ⟨safe.front_ne_nil, unbroken⟩
    · exact h.parts p mem

section

variable {code : Code} {value : Placement} {marks : List Mark} {segment last : Segment}
  {cut : List Segment}

/-- Parts that are cut off already. -/
def continued (code : Code) (value : Placement) (cut : List Segment) : List Record :=
  cut.map fun part => .symbol part code value true

/-- The records of a description as the parts of its text. -/
def records (code : Code) (value : Placement) (cut : List Segment) (last : Segment) :
    List Record :=
  continued code value cut ++ [.symbol last code value false]

/-- The first part starts with the segment in progress. -/
theorem head_of_segments (written : segments code value segment marks = records code value cut last) :
    ∃ more rest, cut ++ [last] = (segment ++ more) :: rest := by
  induction marks generalizing segment with
  | nil =>
    cases cut with
    | nil => cases written; exact ⟨[], [], by rw [List.append_nil]; rfl⟩
    | cons part cut => cases written
  | cons m marks ih =>
    cases m with
    | token u =>
      obtain ⟨more, rest, e⟩ := ih written
      exact ⟨u :: more, rest, by rw [e, List.append_assoc]; rfl⟩
    | safePoint =>
      rw [segments] at written
      split at written
      · cases cut with
        | nil => cases written
        | cons part cut =>
          rw [records, continued, List.map_cons, List.cons_append, List.cons.injEq] at written
          cases written.1
          exact ⟨[], cut ++ [last], by rw [List.append_nil]; rfl⟩
      · exact ih written

/-- Spaced marks are cut at every safe point beyond the limit and nowhere else. The segment in
progress ends in the token before the marks, or it is empty behind a cut. -/
theorem greedy_of_segments {prev : Token} {safe : Bool} (spaced : Spaced prev safe marks)
    (written : segments code value segment marks = records code value cut last)
    (place : (segment.getLast? = some prev ∧ (safe = true → segment.size ≤ limit)) ∨
      (segment = [] ∧ safe = true)) (unbroken : Unbroken segment) : Greedy (cut ++ [last]) := by
  induction marks generalizing prev safe segment cut with
  | nil =>
    cases cut with
    | cons part cut => cases written
    | nil =>
      cases written
      rcases place with ⟨ends, -⟩ | ⟨-, e⟩
      · exact .single (fun e => by rw [e] at ends; cases ends) unbroken
      · cases e.symm.trans spaced
  | cons m marks ih =>
    cases m with
    | token u =>
      obtain ⟨meets, behind⟩ := spaced
      rcases place with ⟨ends, short⟩ | ⟨rfl, -⟩
      · refine ih behind written (.inl ⟨List.getLast?_concat, nofun⟩) ?_
        exact unbroken.snoc ends fun h => short (meets.symm.trans h)
      · exact ih behind written (.inl ⟨rfl, nofun⟩) (unbroken_singleton u)
    | safePoint =>
      obtain ⟨rfl, behind⟩ := spaced
      obtain ⟨ends, -⟩ := place.resolve_right nofun
      rw [segments] at written
      split at written
      · next long =>
        cases cut with
        | nil => cases written
        | cons part cut =>
          rw [records, continued, List.map_cons, List.cons_append, List.cons.injEq] at written
          obtain ⟨e, written⟩ := written
          cases e
          have rest := ih behind written (.inr ⟨rfl, rfl⟩) unbroken_nil
          obtain ⟨u, others, rfl, meets⟩ := behind.exists_token
          obtain ⟨more, after, e⟩ := @head_of_segments _ _ others [u] last cut written
          rw [e] at rest
          rw [List.cons_append, e]
          exact rest.cons ⟨prev, u, ends, rfl, meets⟩ long unbroken
      · next short => exact ih behind written (.inl ⟨ends, fun _ => Nat.le_of_not_lt short⟩) unbroken

end

/-- A safe point between two parts is a cut behind a part beyond the limit. -/
theorem Greedy.first_of_cut {front back : List Segment} (h : Greedy (front ++ back))
    (safe : SafePoint front.flatten back.flatten) :
    ∃ before a b after, front ++ back = before ++ (a ++ b) :: after ∧
      front.flatten = before.flatten ++ a ∧ a ≠ [] ∧
        (b = [] ↔ limit < (Segment.text a).utf8ByteSize) := by
  rcases List.eq_nil_or_concat front with rfl | ⟨before, a, rfl⟩
  · exact absurd rfl safe.front_ne_nil
  · cases back with
    | nil =>
      obtain ⟨t, u, -, head, -⟩ := safe
      cases head
    | cons b after =>
      rw [List.concat_eq_append, List.append_assoc, List.singleton_append] at h ⊢
      obtain ⟨-, long⟩ := h.cuts before a b after rfl
      have some := (h.parts a (by simp)).1
      rw [size_eq] at long
      exact ⟨before, a, [], b :: after, by simp, by simp, some, by simp [long]⟩

/-- Parts as they come out of the emitter cut their text at the first opportunity. -/
theorem Greedy.cut {parts : List Segment} (h : Greedy parts) : Cut parts.flatten parts where
  joined := rfl
  safe before a b after e := (h.cuts before a b after e).1
  first front back e safe := by
    rcases List.flatten_eq_append_iff.1 e with ⟨as, bs, rfl, rfl, rfl⟩ |
      ⟨as, bs, c, cs, ds, rfl, rfl, rfl⟩
    · exact h.first_of_cut safe
    · by_cases none : bs = []
      · subst none
        rw [List.append_nil] at safe ⊢
        exact @first_of_cut as ((c :: cs) :: ds) h safe
      · have inner : SafePoint bs (c :: cs) := (safe.of_append none).of_back nofun
        have short := (h.parts (bs ++ c :: cs) (by simp)).2 bs (c :: cs) rfl inner
        rw [size_eq] at short
        exact ⟨as, bs, c :: cs, ds, rfl, rfl, none, by simp [Nat.not_lt.2 short]⟩

end Segment

/-- An output with cuts beside the one without, both from the same records: what is cut off and
what is in progress on one side is all in progress on the other. -/
def Rejoins (before : Array Record) (code : Code) (value : Placement) (out whole : Emitter) :
    Prop :=
  ∃ (cut : List Segment) (segment : Segment),
    out = ⟨before ++ (Segment.continued code value cut).toArray, some ⟨code, value, segment⟩⟩ ∧
      whole = ⟨before, some ⟨code, value, cut.flatten ++ segment⟩⟩

theorem paired_rejoins (before : Array Record) (code : Code) (value : Placement) :
    Paired Emitter.safePoint id (Rejoins before code value) where
  write := by
    rintro out whole ⟨cut, segment, rfl, rfl⟩ token
    refine .inr ⟨_, _, rfl, rfl, cut, segment ++ [token], rfl, ?_⟩
    rw [List.append_assoc]
  cut := by
    rintro out whole ⟨cut, segment, rfl, rfl⟩
    unfold Emitter.safePoint
    dsimp only
    split
    · exact ⟨cut ++ [segment], [], by simp [PendingSymbol.record, Segment.continued], by simp⟩
    · exact ⟨cut, segment, rfl, rfl⟩

namespace Context

/-- One complete description on an emitter that does nothing at a safe point. -/
def describeUncut (types : TypeTable) (symbol : Symbol) : Emitting Unit := do
  onOutput (·.start symbol.name symbol.letter symbol.code symbol.value)
  onSheet (encodeUncut types symbol.ty symbol.full)
  onOutput Emitter.finish

theorem describeUncut_eq (types : TypeTable) (symbol : Symbol) (c : Context) :
    describeUncut types symbol c =
      match encodeUncut types symbol.ty symbol.full ⟨c.numbering, c.out.begun symbol⟩ with
      | .ok _ sheet => .ok () { c with numbering := sheet.numbering, out := sheet.out.finish }
      | .error cause sheet => .error cause { c with toSheet := sheet } := by
  simp only [describeUncut, Bind.bind, EStateM.bind, onOutput, onSheet, modify_eq]
  rw [← Emitter.begun]
  cases encodeUncut types symbol.ty symbol.full ⟨c.numbering, c.out.begun symbol⟩ <;> rfl

theorem begun_rejoins (out : Emitter) (symbol : Symbol) :
    Rejoins out.records symbol.code symbol.value (out.begun symbol) (out.begun symbol) :=
  ⟨[], [symbol.heading],
    by simp [Emitter.begun, Emitter.start, Symbol.heading, Segment.continued], rfl⟩

/-- Of a description that succeeded the records are its text, cut where it has to be. -/
theorem cut_of_encode {types : TypeTable} {symbol : Symbol} {c : Context} {sheet : Sheet}
    {cut : List Segment} {last : Segment}
    (run : encode types symbol.ty symbol.full ⟨c.numbering, c.out.begun symbol⟩ = .ok () sheet)
    (out : sheet.out = ⟨c.out.records ++ (Segment.continued symbol.code symbol.value cut).toArray,
      some ⟨symbol.code, symbol.value, last⟩⟩) : Segment.Greedy (cut ++ [last]) := by
  obtain ⟨marks, steps, played⟩ := encode_ok rfl run
  have written : symbol.records marks = Segment.records symbol.code symbol.value cut last := by
    have finished := congrArg Emitter.finish (played.symm.trans out)
    have same := congrArg Emitter.records ((c.out.described_eq symbol marks).symm.trans finished)
    simpa [Emitter.finish, PendingSymbol.record, Segment.records] using congrArg Array.toList same
  have spaced : Spaced symbol.heading false marks := steps.spaced ⟨rfl, fun _ _ => rfl⟩
  have short (safe : false = true) : Segment.size [symbol.heading] ≤ Segment.limit :=
    absurd safe Bool.false_ne_true
  exact Segment.greedy_of_segments spaced written (.inl ⟨rfl, short⟩) (Segment.unbroken_singleton _)

/-- Cutting a description shows nowhere but in the cuts. From any context a description succeeds or
fails as it does on an emitter that never cuts, and with the same numbering. Where it succeeds, the
one record of the emitter without cuts is replaced by the parts of its text, all with its code and
value and all but the last continued; the text is cut at the safe points where more than the limit
has been written since the previous cut, and nowhere else. -/
theorem describe_cut (types : TypeTable) (symbol : Symbol) (c : Context) :
    match describe types symbol c, describeUncut types symbol c with
    | .ok _ after, .ok _ whole => ∃ text cut last,
      whole = { c with
        numbering := whole.numbering
        out := ⟨c.out.records.push (.symbol text symbol.code symbol.value false), none⟩ } ∧
      after = { c with
        numbering := whole.numbering
        out := ⟨c.out.records ++ (Segment.records symbol.code symbol.value cut last).toArray,
          none⟩ } ∧
      Segment.Cut text (cut ++ [last]) ∧
      String.join ((cut ++ [last]).map Segment.text) = Segment.text text ∧
      ∀ part ∈ cut, Segment.limit < (Segment.text part).utf8ByteSize ∧
        ∃ s, Segment.text part = s ++ ";" ∨ Segment.text part = s ++ ","
    | .error cause after, .error cause' whole =>
      cause = cause' ∧ after.numbering = whole.numbering
    | _, _ => False := by
  have alike := encodeUncut_alike (paired_rejoins c.out.records symbol.code symbol.value) types
    symbol.ty symbol.full c.numbering (begun_rejoins c.out symbol)
  rw [describe_eq, describeUncut_eq]
  generalize run : encode types symbol.ty symbol.full ⟨c.numbering, c.out.begun symbol⟩ = result
    at alike ⊢
  generalize encodeUncut types symbol.ty symbol.full ⟨c.numbering, c.out.begun symbol⟩ = result'
    at alike ⊢
  cases result with
  | error cause sheet =>
    cases result' with
    | error cause' sheet' => exact alike
    | ok _ sheet' => exact alike.elim
  | ok _ sheet =>
    cases result' with
    | error cause' sheet' => exact alike.elim
    | ok _ sheet' =>
      obtain ⟨N, out⟩ := sheet
      obtain ⟨M, out'⟩ := sheet'
      obtain ⟨same, cut, last, hout, hwhole⟩ := alike
      subst same hout hwhole
      have greedy := cut_of_encode run rfl
      refine ⟨cut.flatten ++ last, cut, last, rfl, ?_, ?_, ?_, fun part mem => ?_⟩
      · simp [Emitter.finish, PendingSymbol.record, Segment.records]
      · simpa using greedy.cut
      · rw [← Segment.text_flatten]
        simp
      · obtain ⟨before, after, rfl⟩ := List.append_of_mem mem
        obtain ⟨next, rest, e⟩ : ∃ next rest, after ++ [last] = next :: rest := by
          cases after <;> exact ⟨_, _, rfl⟩
        have at_cut := greedy.cuts before part next rest (by simp [← e])
        exact ⟨Segment.size_eq part ▸ at_cut.2, at_cut.1.text_front⟩

end Context

end Stabs

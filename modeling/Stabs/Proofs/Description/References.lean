import Stabs.Proofs.Description.Layout
import Stabs.Proofs.Description.Progress
import Stabs.Proofs.Description.Segments

/-!
# The references of a description

A reference is a number, bare or with what follows it. The references of a text stand in the order
of their numbers, so those of a body come behind the number that the body belongs to. Numbers are
introduced before they are used bare, in increasing order, and each is defined at most once; the
status of a type tells which of its references have been written.
-/
namespace Stabs

open TypeDescription

/-- What stands behind the number of a reference. -/
inductive ReferenceForm where
  | bare
  | crossReference (category : Aggregate) (name : String)
  | definition
deriving DecidableEq, Repr

/-- The form of a reference with the tokens behind its number. -/
def ReferenceForm.ofRest : List Token → ReferenceForm
  | .equals :: .crossReference category name :: _ => crossReference category name
  | .equals :: _ => definition
  | _ => bare

structure Reference where
  number : TypeNumber
  form : ReferenceForm
deriving DecidableEq, Repr

/-- The references among tokens, in their order. -/
def references : List Token → List Reference
  | [] => []
  | .number n :: rest => ⟨n, .ofRest rest⟩ :: references rest
  | _ :: rest => references rest

/-- The tokens of a record. -/
def Record.tokens : Record → List Token
  | symbol segment _ _ _ => segment
  | _ => []

/-- What a reference may be behind the references before it: the first one with its number is not
bare, all behind a definition are bare, and only an incomplete type is cross-referenced again. -/
structure Reference.Fits (types : TypeTable) (N : Numbering) (before : List Reference)
    (r : Reference) : Prop where
  introduced : r.number ∉ before.map Reference.number → r.form ≠ .bare
  once : ⟨r.number, .definition⟩ ∈ before → r.form = .bare
  repeated : ∀ category name, r.form = .crossReference category name →
    r.number ∈ before.map Reference.number →
    r ∈ before ∧ ∃ ty node, N.number? ty = some r.number ∧ types.get? ty = some node ∧
      node.isComplete = false

/-- References in an order that can be read in one pass, with what they leave in the numbering. -/
structure Orderly (types : TypeTable) (N : Numbering) (refs : List Reference) : Prop where
  fits : ∀ before r after, refs = before ++ r :: after → r.Fits types N before
  order : (refs.map Reference.number).eraseDups = (List.range' 1 N.size).map TypeNumber.mk
  labelled : ∀ n category name, ⟨n, .crossReference category name⟩ ∈ refs →
    ∃ ty node, N.number? ty = some n ∧ types.get? ty = some node ∧
      aggregate? node.kind = some category ∧ node.name.map TypeName.text = some name
  defined : ∀ ty n, N.number? ty = some n →
    (N.statusOf ty = .defined ↔ ⟨n, .definition⟩ ∈ refs)
  crossReferenced : ∀ ty n, N.number? ty = some n →
    (N.statusOf ty = .crossReferenced ↔
      ⟨n, .definition⟩ ∉ refs ∧ ∃ category name, ⟨n, .crossReference category name⟩ ∈ refs)
  seen : ∀ ty n, N.number? ty = some n → N.statusOf ty ≠ .unseen

/-- Tokens that do not go on with a reference in front of them. -/
def Calm (tokens : List Token) : Prop := ∀ token ∈ tokens.head?, token.follows = false

theorem calm_nil : Calm [] := nofun

theorem calm_cons {token : Token} {rest : List Token} (h : token.follows = false) :
    Calm (token :: rest) := by
  intro t ht
  cases ht
  exact h

theorem Calm.append {a b : List Token} (ha : Calm a) (hb : Calm b) : Calm (a ++ b) := by
  cases a with
  | nil => exact hb
  | cons token rest => exact calm_cons (ha token rfl)

theorem ofRest_of_calm {tokens : List Token} (calm : Calm tokens) :
    ReferenceForm.ofRest tokens = .bare := by
  unfold ReferenceForm.ofRest
  split
  · exact absurd (calm _ rfl) (by simp [Token.follows])
  · exact absurd (calm _ rfl) (by simp [Token.follows])
  · rfl

theorem ofRest_append {b : List Token} (calm : Calm b) (a : List Token) :
    ReferenceForm.ofRest (a ++ b) = .ofRest a := by
  cases a with
  | nil => exact ofRest_of_calm calm
  | cons token rest =>
    cases token with
    | equals =>
      cases rest with
      | nil =>
        cases b with
        | nil => rfl
        | cons next _ =>
          have := calm next rfl
          cases next <;> simp_all [ReferenceForm.ofRest, Token.follows]
      | cons next _ => cases next <;> rfl
    | _ => rfl

theorem references_append {b : List Token} (calm : Calm b) (a : List Token) :
    references (a ++ b) = references a ++ references b := by
  induction a with
  | nil => rfl
  | cons token rest ih =>
    cases token with
    | number n =>
      simp only [List.cons_append, references, ofRest_append calm, ih]
    | _ => exact ih

variable {types : TypeTable} {N M : Numbering} {ty : TypeId} {n : TypeNumber}
  {refs : List Reference} {r : Reference}

theorem Reference.Fits.grows {before : List Reference} (h : r.Fits types N before)
    (grows : N.Grows M) : r.Fits types M before where
  introduced := h.introduced
  once := h.once
  repeated category name form mem := by
    obtain ⟨written, ty, node, number, known, incomplete⟩ := h.repeated category name form mem
    exact ⟨written, ty, node, grows.number? number, known, incomplete⟩

/-- A list with one more element splits at that element or before it. -/
theorem snoc_eq_append_cons {α : Type} {l before after : List α} {a b : α}
    (h : l ++ [a] = before ++ b :: after) :
    (before = l ∧ b = a ∧ after = []) ∨ ∃ rest, after = rest ++ [a] ∧ l = before ++ b :: rest := by
  rcases List.eq_nil_or_concat after with rfl | ⟨rest, c, rfl⟩
  · obtain ⟨rfl, e⟩ := List.append_inj' h rfl
    exact .inl ⟨rfl, (List.singleton_inj.1 e).symm, rfl⟩
  · rw [List.concat_eq_append, ← List.cons_append, ← List.append_assoc] at h
    obtain ⟨rfl, e⟩ := List.append_inj' h rfl
    exact .inr ⟨rest, by rw [List.concat_eq_append, List.singleton_inj.1 e], rfl⟩

namespace Orderly

theorem empty (types : TypeTable) : Orderly types .empty [] where
  fits before r after h := by simp at h
  order := rfl
  labelled := nofun
  defined := nofun
  crossReferenced := nofun
  seen := nofun

/-- The numbers that have been written are those that have been given out. -/
theorem mem_numbers (h : Orderly types N refs) :
    n ∈ refs.map Reference.number ↔ 1 ≤ n.value ∧ n.value ≤ N.size := by
  rw [← List.mem_eraseDups, h.order]
  simp only [List.mem_map, List.mem_range'_1]
  constructor
  · rintro ⟨i, hi, rfl⟩
    simp only
    omega
  · intro hn
    exact ⟨n.value, by omega, rfl⟩

theorem mem_of_number? (h : Orderly types N refs) (number : N.number? ty = some n) :
    n ∈ refs.map Reference.number := by
  rw [h.mem_numbers, N.size_eq]
  exact Numbering.number?_le number

/-- A number beyond the numbering has not been written. -/
theorem not_mem_of_none (h : Orderly types N refs) (fresh : N.number? ty = none) :
    (N.allocate ty).1 ∉ refs.map Reference.number := by
  rw [h.mem_numbers, Numbering.allocate_fst_of_none fresh, N.size_eq]
  omega

/-- The references so far and one more, which fits behind them. -/
theorem fits_snoc (h : Orderly types N refs) (grows : N.Grows M) (fits : r.Fits types M refs) :
    ∀ before r' after, refs ++ [r] = before ++ r' :: after → r'.Fits types M before := by
  intro before r' after e
  rcases snoc_eq_append_cons e with ⟨rfl, rfl, -⟩ | ⟨rest, -, e⟩
  · exact fits
  · exact (h.fits before r' rest e).grows grows

theorem order_snoc_of_mem (h : Orderly types N refs) (old : r.number ∈ refs.map Reference.number) :
    ((refs ++ [r]).map Reference.number).eraseDups =
      (List.range' 1 N.size).map TypeNumber.mk := by
  rw [← h.order, List.map_append]
  exact eraseDups_append_of_subset (List.cons_subset.2 ⟨old, List.nil_subset _⟩)

theorem order_snoc_of_not_mem (h : Orderly types N refs)
    (new : r.number ∉ refs.map Reference.number) (next : r.number.value = N.size + 1) :
    ((refs ++ [r]).map Reference.number).eraseDups =
      (List.range' 1 (N.size + 1)).map TypeNumber.mk := by
  rw [List.map_append, List.range'_1_concat, List.map_append, ← h.order]
  have same : r.number = ⟨1 + N.size⟩ := by
    cases hr : r.number
    rw [hr] at next
    simp only [TypeNumber.mk.injEq]
    exact next.trans (Nat.add_comm ..)
  rw [List.map_singleton, List.map_singleton, ← same]
  exact eraseDups_snoc_of_not_mem new

/-- A bare reference to a number that is written changes nothing. -/
theorem bare (h : Orderly types N refs) (number : N.number? ty = some n) :
    Orderly types N (refs ++ [⟨n, .bare⟩]) where
  fits := by
    refine h.fits_snoc (.refl N) ⟨fun new => ?_, fun _ => rfl, nofun⟩
    exact absurd (h.mem_of_number? number) new
  order := h.order_snoc_of_mem (h.mem_of_number? number)
  labelled m category name mem := h.labelled m category name (by simpa using mem)
  defined x m hm := by simpa using h.defined x m hm
  crossReferenced x m hm := by simpa using h.crossReferenced x m hm
  seen := h.seen

/-- A type is introduced under the next number, or its number is written already. -/
theorem order_introduce (h : Orderly types N refs) (ty : TypeId) (s : TypeStatus)
    (form : ReferenceForm) :
    ((refs ++ [Reference.mk (N.allocate ty).1 form]).map Reference.number).eraseDups =
      (List.range' 1 (N.introduce ty s).size).map TypeNumber.mk := by
  rw [Numbering.size_eq, Numbering.order_introduce]
  cases hn : N.number? ty with
  | some n =>
    rw [Numbering.allocate_of_some hn, ← N.size_eq]
    exact h.order_snoc_of_mem (h.mem_of_number? hn)
  | none =>
    rw [Numbering.order_allocate_of_none hn, List.length_append, ← N.size_eq]
    refine h.order_snoc_of_not_mem (h.not_mem_of_none hn) ?_
    rw [N.size_eq]
    exact Numbering.allocate_fst_of_none hn

/-- A definition is not among the references while its type is not defined. -/
theorem not_mem_definition (h : Orderly types N refs)
    (waiting : N.statusOf ty ≠ .defined) : ⟨(N.allocate ty).1, .definition⟩ ∉ refs := by
  cases hn : N.number? ty with
  | some n =>
    rw [Numbering.allocate_of_some hn, ← h.defined ty n hn]
    exact waiting
  | none =>
    intro mem
    exact h.not_mem_of_none hn (List.mem_map_of_mem mem)

/-- A reference that introduces its type, or introduces it anew, with the status it gives. -/
theorem introduce (h : Orderly types N refs) (tidy : N.Tidy) (waiting : N.statusOf ty ≠ .defined)
    {s : TypeStatus} {form : ReferenceForm}
    (fits : Reference.Fits types (N.introduce ty s) refs ⟨(N.allocate ty).1, form⟩)
    (gives : s = .defined ∧ form = .definition ∨
      s = .crossReferenced ∧ ∃ node category name, form = .crossReference category name ∧
        types.get? ty = some node ∧ aggregate? node.kind = some category ∧
          node.name.map TypeName.text = some name) :
    Orderly types (N.introduce ty s) (refs ++ [⟨(N.allocate ty).1, form⟩]) := by
  have grows := Numbering.grows_introduce N ty s
  have self : (N.introduce ty s).statusOf ty = s := by
    rw [Numbering.statusOf_introduce tidy, if_pos rfl]
    rcases gives with ⟨rfl, -⟩ | ⟨rfl, -⟩
    · exact TypeStatus.later_defined _
    · cases hs : N.statusOf ty <;> simp_all [TypeStatus.later, TypeStatus.rank]
  have other {x : TypeId} {m : TypeNumber} (hm : (N.introduce ty s).number? x = some m)
      (ne : x ≠ ty) : N.number? x = some m ∧ m ≠ (N.allocate ty).1 ∧
        (N.introduce ty s).statusOf x = N.statusOf x := by
    refine ⟨?_, ?_, ?_⟩
    · rwa [Numbering.number?_introduce, Numbering.number?_allocate_of_ne ne] at hm
    · rintro rfl
      exact ne (Numbering.number?_inj hm (Numbering.number?_introduce_self N ty s))
    · rw [Numbering.statusOf_introduce tidy, if_neg ne]
  have own {m : TypeNumber} (hm : (N.introduce ty s).number? ty = some m) :
      m = (N.allocate ty).1 :=
    Option.some.inj (hm.symm.trans (Numbering.number?_introduce_self N ty s))
  have absent := h.not_mem_definition waiting
  refine ⟨h.fits_snoc grows fits, h.order_introduce ty s form, ?_, ?_, ?_, ?_⟩
  · intro m category name mem
    rcases List.mem_append.1 mem with mem | mem
    · obtain ⟨x, node, number, known, label⟩ := h.labelled m category name mem
      exact ⟨x, node, grows.number? number, known, label⟩
    · cases List.mem_singleton.1 mem
      rcases gives with ⟨-, e⟩ | ⟨rfl, node, category', name', e, known, label⟩
      · cases e
      · cases e
        exact ⟨ty, node, Numbering.number?_introduce_self N ty _, known, label⟩
  · intro x m hm
    by_cases e : x = ty
    · subst e
      rw [own hm, self]
      rcases gives with ⟨rfl, rfl⟩ | ⟨rfl, node, category, name, rfl, -⟩ <;> simp [absent]
    · obtain ⟨number, ne, same⟩ := other hm e
      rw [same, h.defined x m number]
      simp [ne]
  · intro x m hm
    by_cases e : x = ty
    · subst e
      rw [own hm, self]
      rcases gives with ⟨rfl, rfl⟩ | ⟨rfl, node, category, name, rfl, -⟩
      · simp
      · simp only [List.mem_append, List.mem_singleton, Reference.mk.injEq, true_and,
          true_iff, reduceCtorEq, or_false]
        exact ⟨absent, category, name, .inr rfl⟩
    · obtain ⟨number, ne, same⟩ := other hm e
      rw [same, h.crossReferenced x m number]
      simp [ne]
  · intro x m hm
    by_cases e : x = ty
    · subst e
      rw [self]
      rcases gives with ⟨rfl, -⟩ | ⟨rfl, -⟩ <;> simp
    · obtain ⟨number, -, same⟩ := other hm e
      rw [same]
      exact h.seen x m number

/-- A type whose number is written is cross-referenced a second time only if it is incomplete, and
then in the same words. -/
theorem again (h : Orderly types N refs) {node : TypeNode} {full : Bool} {category : Aggregate}
    {name : TypeName} (known : types.get? ty = some node)
    (waiting : N.statusOf ty = .unseen ∨ N.statusOf ty = .crossReferenced ∧ full = true)
    (crossed : crossReference? node full = some category) (named : node.name = some name)
    (old : (N.allocate ty).1 ∈ refs.map Reference.number) :
    ⟨(N.allocate ty).1, .crossReference category name.text⟩ ∈ refs ∧
      N.number? ty = some (N.allocate ty).1 ∧ node.isComplete = false := by
  cases hn : N.number? ty with
  | none => exact absurd old (h.not_mem_of_none hn)
  | some n =>
    rw [Numbering.allocate_of_some hn]
    obtain ⟨status, rfl⟩ := waiting.resolve_left (h.seen ty n hn)
    obtain ⟨incomplete, label⟩ := crossReference?_eq_some.1 crossed
    obtain ⟨-, category', name', mem⟩ := (h.crossReferenced ty n hn).1 status
    obtain ⟨x, node', number, known', label', named'⟩ := h.labelled n category' name' mem
    obtain rfl := Numbering.number?_inj number hn
    obtain rfl : node = node' := Option.some.inj (known.symm.trans known')
    rw [label, Option.some.injEq] at label'
    rw [named, Option.map_some, Option.some.injEq] at named'
    subst label' named'
    exact ⟨mem, rfl, by simpa using incomplete⟩

end Orderly

namespace TypeDescription

/-- The tokens that marks put into the text. -/
def tokens (marks : List Mark) : List Token :=
  marks.filterMap fun
    | .token token => some token
    | .safePoint => none

theorem tokens_append (a b : List Mark) : tokens (a ++ b) = tokens a ++ tokens b :=
  List.filterMap_append

/-- A piece that is no part of a reference. -/
def Piece.Plain : Piece → Prop
  | .mark (.token token) => token.follows = false ∧ ∀ n, token ≠ .number n
  | _ => True

theorem Piece.InBody.plain {p : Piece} {node : TypeNode} (h : p.InBody node) : p.Plain := by
  cases p with
  | mark m =>
    cases m with
    | token => exact h
    | safePoint => trivial
  | reference => trivial
  | fault => trivial

theorem plain_layout (ty : TypeId) (n : TypeNumber) (node : TypeNode) :
    ∀ p ∈ layout ty n node, p.Plain := fun _ mem => (inBody_of_mem_layout mem).plain

theorem plain_reference (ty : TypeId) (full : Bool) :
    ∀ p ∈ [Piece.reference ty full], p.Plain := List.forall_mem_singleton.2 trivial

theorem plain_fault (cause : DescribeError) : ∀ p ∈ [Piece.fault cause], p.Plain :=
  List.forall_mem_singleton.2 trivial

theorem references_mark {m : Mark} (plain : (Piece.mark m).Plain) :
    references (tokens [m]) = [] := by
  cases m with
  | safePoint => rfl
  | token token =>
    obtain ⟨-, number⟩ := plain
    cases token <;> simp_all [tokens, references]

variable {p : Piece} {ms : List Mark} {pending body left : List Piece}

namespace Expands

theorem plain (h : Expands types N p ms M body) : ∀ q ∈ body, q.Plain := by
  cases h with
  | unknown => exact plain_fault _
  | unnamed => exact plain_fault _
  | defined => exact plain_layout _ _ _
  | _ => exact nofun

/-- What takes the place of a plain piece, and what waits behind it. -/
theorem plain_append (h : Expands types N p ms M body) (plain : ∀ q ∈ p :: pending, q.Plain) :
    ∀ q ∈ body ++ pending, q.Plain := by
  intro q mem
  rcases List.mem_append.1 mem with mem | mem
  · exact h.plain q mem
  · exact plain q (List.mem_cons_of_mem _ mem)

theorem calm (h : Expands types N p ms M body) (plain : p.Plain) : Calm (tokens ms) := by
  cases h with
  | mark m =>
    cases m with
    | token token => exact calm_cons plain.1
    | safePoint => exact calm_nil
  | unknown => exact calm_nil
  | _ => exact calm_cons rfl

/-- One step leaves the references in order, or it runs into a fault. -/
theorem orderly (h : Expands types N p ms M body) (plain : p.Plain) (sound : Sound types N)
    (orderly : Orderly types N refs) :
    Orderly types M (refs ++ references (tokens ms)) ∨ Stopped body := by
  cases h with
  | mark m => exact .inl (by rwa [references_mark plain, List.append_nil])
  | unknown => exact .inr ⟨_, _, rfl⟩
  | @settled ty full node known enough =>
    left
    have same := allocate_of_settled sound enough
    have number := Numbering.number?_allocate_self N ty
    rw [same] at number ⊢
    exact orderly.bare number
  | @crossReferenced ty full node category name known unsettled crossed named =>
    left
    rw [Numbering.status_allocate_fst sound.tidy, isSettled_eq_false] at unsettled
    have waiting : N.statusOf ty ≠ .defined := by
      rcases unsettled with h | ⟨h, -⟩ <;> simp [h]
    have label := (crossReference?_eq_some.1 crossed).2
    refine orderly.introduce sound.tidy waiting ⟨fun _ => nofun, fun mem => ?_, ?_⟩
      (.inr ⟨rfl, node, category, name.text, rfl, known, label, by rw [named]; rfl⟩)
    · exact absurd mem (orderly.not_mem_definition waiting)
    · rintro category' name' - old
      obtain ⟨mem, number, incomplete⟩ := orderly.again known unsettled crossed named old
      exact ⟨mem, ty, node, Numbering.number?_introduce_self N ty _, known, incomplete⟩
  | unnamed => exact .inr ⟨_, _, rfl⟩
  | @defined ty full node known unsettled clear =>
    left
    rw [Numbering.status_allocate_fst sound.tidy, isSettled_eq_false] at unsettled
    have waiting : N.statusOf ty ≠ .defined := by
      rcases unsettled with h | ⟨h, -⟩ <;> simp [h]
    refine orderly.introduce sound.tidy waiting ⟨fun _ => nofun, fun mem => ?_, nofun⟩
      (.inl ⟨rfl, rfl⟩)
    exact absurd mem (orderly.not_mem_definition waiting)

end Expands

namespace Steps

theorem not_stopped (h : Steps types N pending ms M []) : ¬ Stopped pending := by
  rintro ⟨cause, rest, rfl⟩
  cases h with
  | cons first more => cases first

theorem calm (h : Steps types N pending ms M left) (plain : ∀ p ∈ pending, p.Plain) :
    Calm (tokens ms) := by
  induction h with
  | refl => exact calm_nil
  | cons first more ih =>
    rw [tokens_append]
    exact (first.calm (plain _ List.mem_cons_self)).append (ih (first.plain_append plain))

/-- The references of a description go on in order with those before it. -/
theorem orderly (h : Steps types N pending ms M []) (plain : ∀ p ∈ pending, p.Plain)
    (sound : Sound types N) (orderly : Orderly types N refs) :
    Orderly types M (refs ++ references (tokens ms)) := by
  generalize e : ([] : List Piece) = none at h
  induction h generalizing refs with
  | refl => simpa [tokens, references] using orderly
  | @cons N M N' p pending body left ms rest first more ih =>
    subst e
    have plain' := first.plain_append plain
    have running : ¬ Stopped body := by
      rintro ⟨cause, others, rfl⟩
      exact more.not_stopped ⟨cause, others ++ pending, rfl⟩
    have sound' := (first.sound sound).resolve_right running
    have orderly' :=
      (first.orderly (plain p List.mem_cons_self) sound orderly).resolve_right running
    rw [tokens_append, references_append (more.calm plain'), ← List.append_assoc]
    exact ih plain' sound' orderly' rfl

end Steps

end TypeDescription

end Stabs

import Stabs.Proofs.Description.Steps

/-!
# What a description achieves

Numbers stay and statuses move forward through every step. A reference that was written without a
fault has done what it was for: its type is defined, or it is cross-referenced and may only be so.
A defined type has the pieces of its body done or still pending, so at the end of a description all
of them are done.
-/
namespace Stabs.TypeDescription

variable {types : TypeTable} {N M : Numbering} {p : Piece} {ms : List Mark}
  {pending body left : List Piece}

theorem isSettled_eq_true {s : TypeStatus} {full : Bool} :
    isSettled s full = true ↔ s = .defined ∨ s = .crossReferenced ∧ full = false := by
  cases s <;> cases full <;> simp [isSettled]

theorem isSettled_eq_false {s : TypeStatus} {full : Bool} :
    isSettled s full = false ↔ s = .unseen ∨ s = .crossReferenced ∧ full = true := by
  cases s <;> cases full <;> simp [isSettled]

theorem crossReference?_eq_some {node : TypeNode} {full : Bool} {category : Aggregate} :
    crossReference? node full = some category ↔
      ((node.name.isSome = true ∧ full = false) ∨ node.isComplete = false) ∧
        aggregate? node.kind = some category := by
  unfold crossReference?
  split <;> simp_all

/-- A type with a name that has to be cross-referenced in full has to be so in any case. -/
theorem crossReference?_false {node : TypeNode} {full : Bool} {category : Aggregate}
    (h : crossReference? node full = some category) (named : node.name.isSome) :
    crossReference? node false = some category := by
  rw [crossReference?_eq_some] at h ⊢
  exact ⟨.inl ⟨named, rfl⟩, h.2⟩

/-- What may be defined in some case may be defined in full. -/
theorem crossReference?_true {node : TypeNode} {full : Bool}
    (h : crossReference? node full = none) : crossReference? node true = none := by
  cases hc : crossReference? node true with
  | none => rfl
  | some category =>
    rw [crossReference?_eq_some] at hc
    have incomplete : node.isComplete = false := by simpa using hc.1
    rw [crossReference?_eq_some.2 ⟨.inr incomplete, hc.2⟩] at h
    cases h

/-- A type that may be defined in full is cross-referenced for its name alone. -/
theorem name_of_crossed {node : TypeNode} {full : Bool} (clear : crossReference? node true = none)
    (crossed : crossReference? node full ≠ none) : node.name ≠ none := by
  intro unnamed
  unfold crossReference? at clear crossed
  simp_all

/-- What was written without a fault: a reference leaves its type defined, or seen where it has to
be cross-referenced. -/
def Done (types : TypeTable) (N : Numbering) : Piece → Prop
  | .mark _ => True
  | .reference ty full => ∃ node, types.get? ty = some node ∧ N.statusOf ty ≠ .unseen ∧
      (crossReference? node full = none → N.statusOf ty = .defined) ∧
      (crossReference? node full ≠ none → node.name ≠ none)
  | .fault _ => False

/-- The numbering between two descriptions: each type that has a number is seen and known, it is
only cross-referenced if it has a name to do so, and it is only defined if nothing in it is
missing. -/
structure Sound (types : TypeTable) (N : Numbering) : Prop where
  tidy : N.Tidy
  seen : ∀ x, (N.number? x).isSome → N.statusOf x ≠ .unseen
  known : ∀ x, N.statusOf x ≠ .unseen → ∃ node, types.get? x = some node
  named : ∀ x node, types.get? x = some node → N.statusOf x = .crossReferenced →
    node.name ≠ none ∧ crossReference? node false ≠ none
  complete : ∀ x node, types.get? x = some node → N.statusOf x = .defined →
    crossReference? node true = none

theorem sound_empty (types : TypeTable) : Sound types .empty where
  tidy := Numbering.tidy_empty
  seen := nofun
  known _ seen := absurd rfl seen
  named := nofun
  complete := nofun

/-- A description stopped at a fault. -/
def Stopped (pieces : List Piece) : Prop := ∃ cause rest, pieces = .fault cause :: rest

namespace Expands

theorem grows (h : Expands types N p ms M body) : N.Grows M := by
  cases h with
  | mark => exact .refl N
  | unknown => exact .refl N
  | settled => exact Numbering.grows_allocate N _
  | crossReferenced => exact Numbering.grows_introduce N _ _
  | unnamed => exact Numbering.grows_allocate N _
  | defined => exact Numbering.grows_introduce N _ _

end Expands

theorem Expands.keeps_defined (h : Expands types N p ms M body) {x : TypeId}
    (defined : N.statusOf x = .defined) : M.statusOf x = .defined :=
  h.grows.defined defined

/-- Introducing a type keeps a sound numbering, if a cross-reference has a name for it. -/
theorem Sound.introduce (sound : Sound types N) {ty : TypeId} {node : TypeNode} {s : TypeStatus}
    (known : types.get? ty = some node) (hs : s ≠ .unseen)
    (named : s = .crossReferenced → node.name ≠ none ∧ crossReference? node false ≠ none)
    (complete : s = .defined → crossReference? node true = none) :
    Sound types (N.introduce ty s) where
  tidy := sound.tidy.introduce ty s
  seen x hx := by
    rw [Numbering.statusOf_introduce sound.tidy]
    split
    · cases s <;> cases N.statusOf ty <;> simp_all [TypeStatus.later, TypeStatus.rank]
    · next other =>
      apply sound.seen x
      rw [Numbering.number?_introduce, Numbering.number?_isSome] at hx
      rw [Numbering.number?_isSome]
      cases hn : N.number? ty with
      | some n => rwa [Numbering.allocate_of_some hn] at hx
      | none => simpa [Numbering.order_allocate_of_none hn, other] using hx
  known x hx := by
    rw [Numbering.statusOf_introduce sound.tidy] at hx
    split at hx
    · next same => exact ⟨node, same ▸ known⟩
    · exact sound.known x hx
  named x node' known' hx := by
    rw [Numbering.statusOf_introduce sound.tidy] at hx
    split at hx
    · next same =>
      subst same
      obtain rfl : node = node' := Option.some.inj (known.symm.trans known')
      cases hs' : N.statusOf x with
      | crossReferenced => exact sound.named x node known hs'
      | unseen => rw [hs', TypeStatus.unseen_later] at hx; exact named hx
      | defined => simp [hs'] at hx
    · exact sound.named x node' known' hx
  complete x node' known' hx := by
    rw [Numbering.statusOf_introduce sound.tidy] at hx
    split at hx
    · next same =>
      subst same
      obtain rfl : node = node' := Option.some.inj (known.symm.trans known')
      cases hs' : N.statusOf x with
      | defined => exact sound.complete x node known hs'
      | unseen => rw [hs', TypeStatus.unseen_later] at hx; exact complete hx
      | crossReferenced =>
        rw [hs'] at hx
        apply complete
        cases s <;> simp_all [TypeStatus.later, TypeStatus.rank]
    · exact sound.complete x node' known' hx

/-- A settled type has its number already. -/
theorem allocate_of_settled (sound : Sound types N) {ty : TypeId} {full : Bool}
    (enough : isSettled (N.status (N.allocate ty).1) full = true) : (N.allocate ty).2 = N := by
  rw [Numbering.status_allocate_fst sound.tidy] at enough
  cases hn : N.number? ty with
  | some n => rw [Numbering.allocate_of_some hn]
  | none => simp [Numbering.statusOf_of_none hn, isSettled] at enough

theorem Expands.sound (h : Expands types N p ms M body) (sound : Sound types N) :
    Sound types M ∨ Stopped body := by
  cases h with
  | mark => exact .inl sound
  | unknown => exact .inr ⟨_, _, rfl⟩
  | settled known enough => exact .inl (by rwa [allocate_of_settled sound enough])
  | @crossReferenced ty full node category name known unsettled crossed named =>
    refine .inl (sound.introduce known nofun (fun _ => ⟨by simp [named], ?_⟩) nofun)
    simp [crossReference?_false crossed (by simp [named])]
  | unnamed => exact .inr ⟨_, _, rfl⟩
  | defined known _ clear =>
    exact .inl (sound.introduce known nofun nofun fun _ => crossReference?_true clear)

theorem Expands.done (h : Expands types N p ms M body) (sound : Sound types N) :
    Done types M p ∨ Stopped body := by
  cases h with
  | mark => exact .inl trivial
  | unknown => exact .inr ⟨_, _, rfl⟩
  | @settled ty full node known enough =>
    left
    rw [allocate_of_settled sound enough]
    rw [Numbering.status_allocate_fst sound.tidy, isSettled_eq_true] at enough
    refine ⟨node, known, ?_, fun clear => ?_, fun crossed => ?_⟩
    · rcases enough with h | ⟨h, -⟩ <;> simp [h]
    · rcases enough with h | ⟨h, rfl⟩
      · exact h
      · exact absurd clear (sound.named ty node known h).2
    · rcases enough with h | ⟨h, -⟩
      · exact name_of_crossed (sound.complete ty node known h) crossed
      · exact (sound.named ty node known h).1
  | @crossReferenced ty full node category name known unsettled crossed named =>
    refine .inl ⟨node, known, ?_, by simp [crossed], by simp [named]⟩
    rw [Numbering.statusOf_introduce sound.tidy, if_pos rfl]
    cases N.statusOf ty <;> simp [TypeStatus.later, TypeStatus.rank]
  | unnamed => exact .inr ⟨_, _, rfl⟩
  | @defined ty full node known unsettled clear =>
    refine .inl ⟨node, known, ?_, fun _ => ?_, by simp [clear]⟩ <;>
      simp [Numbering.statusOf_introduce sound.tidy]

namespace Steps

/-- What every step keeps, holds at the end. -/
theorem keeps (Inv : Numbering → List Piece → Prop)
    (step : ∀ {N M p ms body pending}, Expands types N p ms M body → Inv N (p :: pending) →
      Inv M (body ++ pending)) (h : Steps types N pending ms M left) (inv : Inv N pending) :
    Inv M left := by
  induction h with
  | refl => exact inv
  | cons first _ ih => exact ih (step first inv)

/-- What every step without a fault keeps, holds at the end of a description without a fault. -/
theorem keeps_of_done (Inv : Numbering → List Piece → Prop)
    (step : ∀ {N M p ms body pending}, Expands types N p ms M body → Inv N (p :: pending) →
      Inv M (body ++ pending) ∨ Stopped body) (h : Steps types N pending ms M [])
    (inv : Inv N pending) : Inv M [] := by
  have inv' := h.keeps (fun N pending => Inv N pending ∨ Stopped pending) ?_ (.inl inv)
  · rcases inv' with inv' | ⟨cause, rest, stopped⟩
    · exact inv'
    · cases stopped
  · intro N M p ms body pending first before
    rcases before with before | ⟨cause, rest, stopped⟩
    · rcases step first before with after | ⟨cause, rest, rfl⟩
      · exact .inl after
      · exact .inr ⟨cause, rest ++ pending, rfl⟩
    · cases stopped
      cases first

theorem grows (h : Steps types N pending ms M left) : N.Grows M := by
  induction h with
  | refl => exact .refl _
  | cons first _ ih => exact first.grows.trans ih

theorem sound (h : Steps types N pending ms M []) (sound : Sound types N) : Sound types M :=
  h.keeps_of_done (fun N _ => Sound types N) (fun first before => first.sound before) sound

end Steps

theorem Done.grows (h : Done types N p) (grows : N.Grows M) : Done types M p := by
  cases p with
  | mark => trivial
  | reference ty full =>
    obtain ⟨node, known, seen, defined, named⟩ := h
    exact ⟨node, known, grows.seen seen, fun clear => grows.defined (defined clear), named⟩
  | fault => exact h

/-- At the end of a description all of its pieces are done. -/
theorem Steps.done (h : Steps types N pending ms M []) (sound : Sound types N) :
    ∀ p ∈ pending, Done types M p := by
  have inv := h.keeps_of_done
    (fun N' left => Sound types N' ∧ ∀ p ∈ pending, p ∈ left ∨ Done types N' p) ?_
    ⟨sound, fun p mem => .inl mem⟩
  · exact fun p mem => (inv.2 p mem).resolve_left List.not_mem_nil
  · intro N M q ms body left first ⟨sound, before⟩
    rcases first.done sound with done | stopped
    · rcases first.sound sound with sound' | stopped
      · refine .inl ⟨sound', fun p mem => ?_⟩
        rcases before p mem with waiting | earlier
        · rcases List.mem_cons.1 waiting with rfl | waiting
          · exact .inr done
          · exact .inl (List.mem_append_right _ waiting)
        · exact .inr (earlier.grows (first.grows))
      · exact .inr stopped
    · exact .inr stopped

/-- Each piece in the body of a defined type is done, or it is among the pending ones. -/
def Closed (types : TypeTable) (N : Numbering) (pending : List Piece) : Prop :=
  ∀ x node n, types.get? x = some node → N.statusOf x = .defined → N.number? x = some n →
    ∀ p ∈ layout x n node, p ∈ pending ∨ Done types N p

/-- Only the step that defines a type makes it defined. -/
theorem Expands.newly_defined (h : Expands types N p ms M body) (sound : Sound types N)
    {x : TypeId} (before : N.statusOf x ≠ .defined) (after : M.statusOf x = .defined) :
    ∃ full node, p = .reference x full ∧ types.get? x = some node ∧
      crossReference? node full = none ∧ M = N.introduce x .defined ∧
      body = layout x (N.allocate x).1 node := by
  cases h with
  | mark => exact absurd after before
  | unknown => exact absurd after before
  | settled known enough => exact absurd (allocate_of_settled sound enough ▸ after) before
  | crossReferenced =>
    rw [Numbering.statusOf_introduce sound.tidy] at after
    split at after
    · next same =>
      subst same
      cases hs : N.statusOf x <;> simp_all [TypeStatus.later, TypeStatus.rank]
    · exact absurd after before
  | unnamed => exact absurd (Numbering.statusOf_allocate sound.tidy _ x ▸ after) before
  | @defined ty full node known _ clear =>
    rw [Numbering.statusOf_introduce sound.tidy] at after
    split at after
    · next same => subst same; exact ⟨full, node, rfl, known, clear, rfl, rfl⟩
    · exact absurd after before

theorem closed_empty (types : TypeTable) : Closed types .empty [] := nofun

/-- At the end of a description the bodies of all defined types are done. -/
theorem Steps.closed (h : Steps types N pending ms M []) (sound : Sound types N)
    (closed : Closed types N pending) : Closed types M [] := by
  refine (h.keeps_of_done (fun N left => Sound types N ∧ Closed types N left) ?_
    ⟨sound, closed⟩).2
  intro N M p ms body left first ⟨sound, before⟩
  rcases first.done sound with done | stopped
  · rcases first.sound sound with sound' | stopped
    · refine .inl ⟨sound', fun x node n known defined number q mem => ?_⟩
      by_cases old : N.statusOf x = .defined
      · have seen : N.statusOf x ≠ .unseen := by simp [old]
        obtain ⟨m, hm⟩ := Numbering.exists_number seen
        have same : m = n :=
          Option.some.inj (((first.grows).number? hm).symm.trans number)
        rcases before x node m known old hm q (same ▸ mem) with waiting | earlier
        · rcases List.mem_cons.1 waiting with rfl | waiting
          · exact .inr done
          · exact .inl (List.mem_append_right _ waiting)
        · exact .inr (earlier.grows (first.grows))
      · obtain ⟨full, node', rfl, known', -, rfl, rfl⟩ := first.newly_defined sound old defined
        obtain rfl : node' = node := Option.some.inj (known'.symm.trans known)
        rw [Numbering.number?_introduce_self] at number
        cases number
        exact .inl (List.mem_append_left _ mem)
    · exact .inr stopped
  · exact .inr stopped

/-- A description in full defines a type unless it has to be cross-referenced, whatever was numbered
before. -/
theorem Steps.defined_of_full {ty : TypeId} {node : TypeNode}
    (h : Steps types N [.reference ty true] ms M []) (known : types.get? ty = some node)
    (clear : crossReference? node true = none) : M.statusOf ty = .defined := by
  have kept {N M : Numbering} {ps : List Piece} {ms : List Mark} (steps : Steps types N ps ms M [])
      (defined : N.statusOf ty = .defined) : M.statusOf ty = .defined :=
    steps.keeps (fun N _ => N.statusOf ty = .defined)
      (fun first before => first.keeps_defined before) defined
  cases h with
  | cons first more =>
    apply kept more
    cases first with
    | unknown missing => simp [known] at missing
    | settled _ enough =>
      rw [isSettled_eq_true] at enough
      rw [Numbering.statusOf_of_some (Numbering.number?_allocate_self N ty),
        Numbering.status_allocate]
      exact enough.resolve_right nofun
    | crossReferenced known' _ crossed =>
      cases known.symm.trans known'
      simp [clear] at crossed
    | unnamed known' _ crossed =>
      cases known.symm.trans known'
      simp [clear] at crossed
    | defined => exact Numbering.statusOf_allocate_setStatus N ty

end Stabs.TypeDescription

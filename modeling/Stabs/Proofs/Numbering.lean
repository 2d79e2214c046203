import Stabs.Output.Numbering

/-!
# Laws of the numbering

Numbers are given out in the order of the first requests and stay with their types, and a status
only moves forward. In a tidy numbering no number has a status before it is given out; there the
status of a type changes only when it is introduced.
-/
namespace Stabs

namespace TypeStatus

theorem rank_le_later_left (a b : TypeStatus) : a.rank ≤ (a.later b).rank := by
  cases a <;> cases b <;> decide

theorem rank_le_later_right (a b : TypeStatus) : b.rank ≤ (a.later b).rank := by
  cases a <;> cases b <;> decide

theorem later_eq_or (a b : TypeStatus) : a.later b = a ∨ a.later b = b := by
  cases a <;> cases b <;> decide

theorem eq_defined_of_rank_le {a : TypeStatus} (h : defined.rank ≤ a.rank) : a = defined := by
  cases a <;> simp_all [rank]

@[simp] theorem unseen_later (a : TypeStatus) : unseen.later a = a := by
  cases a <;> rfl

end TypeStatus

section

variable {α : Type} [DecidableEq α] {l m : List α} {a : α}

/-- What stood in front already adds nothing. -/
theorem eraseDups_append_of_subset (h : m ⊆ l) : (l ++ m).eraseDups = l.eraseDups := by
  have none : m.removeAll l = [] := by
    refine List.filter_eq_nil_iff.2 fun a mem => ?_
    simpa using h mem
  rw [List.eraseDups_append, none, List.eraseDups_nil, List.append_nil]

theorem eraseDups_snoc_of_not_mem (h : a ∉ l) : (l ++ [a]).eraseDups = l.eraseDups ++ [a] := by
  have one : [a].removeAll l = [a] := by simp [List.removeAll, h]
  rw [List.eraseDups_append, one]
  rfl

theorem eraseDups_of_nodup (h : l.Nodup) :
    l.eraseDups = l := by
  induction l with
  | nil => rfl
  | cons a l ih =>
    obtain ⟨new, rest⟩ := List.nodup_cons.1 h
    have same : l.filter (fun b => !b == a) = l := by
      refine List.filter_eq_self.2 fun b mem => ?_
      have other : b ≠ a := fun e => new (e ▸ mem)
      simpa using other
    rw [List.eraseDups_cons, same, ih rest]

end

/-- A status that is the last one stays. -/
theorem NumberTables.setStatus_of_defined {tables : NumberTables} {n : TypeNumber}
    (h : tables.status n = .defined) : tables.setStatus n .defined = tables := by
  have same : tables.statuses.modify n.value (·.later .defined) = tables.statuses := by
    apply Array.ext_getElem?
    intro i
    rw [Array.getElem?_modify]
    split
    · next e =>
      subst e
      unfold status at h
      cases hs : tables.statuses[n.value]? with
      | none => rfl
      | some s => rw [hs] at h; simp [show s = .defined from h]
    · rfl
  rw [setStatus, same]

namespace NumberTables.Lists

variable {tables : NumberTables} {order others : List TypeId} {x y : TypeId} {n : TypeNumber}

/-- A number leads back to its type. -/
theorem getElem?_of_number? (h : tables.Lists order) (number : tables.number? x = some n) :
    order[n.value - 1]? = some x := by
  obtain ⟨mem, place⟩ := h.number?_eq_some.1 number
  rw [place, Nat.add_sub_cancel, List.getElem?_eq_getElem (List.idxOf_lt_length_of_mem mem),
    List.getElem_idxOf]

theorem number?_inj (h : tables.Lists order) (hx : tables.number? x = some n)
    (hy : tables.number? y = some n) : x = y := by
  have both := h.getElem?_of_number? hx
  rw [h.getElem?_of_number? hy] at both
  exact (Option.some.inj both).symm

theorem number?_getElem (h : tables.Lists order) {i : Nat} (inside : i < order.length) :
    tables.number? order[i] = some ⟨i + 1⟩ :=
  h.number?_eq_some.2 ⟨List.getElem_mem inside, by rw [h.distinct.idxOf_getElem]⟩

/-- The statuses are free as long as there is room for them. -/
theorem withStatuses (h : tables.Lists order) {statuses : Array TypeStatus}
    (room : order.length + 1 < statuses.size) : Lists { tables with statuses } order where
  numbers := h.numbers
  distinct := h.distinct
  next := h.next
  room := by rw [h.next]; exact room

/-- The tables leave no choice of the list. -/
theorem unique (h : tables.Lists order) (h' : tables.Lists others) : order = others := by
  have same : order.length = others.length := Nat.succ.inj (h.next.symm.trans h'.next)
  refine List.ext_getElem same fun i inside inside' => ?_
  exact h.number?_inj (h.number?_getElem inside) (h'.number?_getElem inside')

end NumberTables.Lists

namespace Numbering

variable {N M : Numbering} {ty x y : TypeId} {n : TypeNumber}

theorem ext_tables (h : N.toNumberTables = M.toNumberTables) : N = M := by
  cases N
  cases M
  cases h
  rfl

/-- Requests a type and moves its status forward. -/
def introduce (N : Numbering) (ty : TypeId) (s : TypeStatus) : Numbering :=
  (N.allocate ty).2.setStatus (N.allocate ty).1 s

/-- The types in the order of their numbers. -/
noncomputable def order (N : Numbering) : List TypeId := N.listed.choose

theorem lists (N : Numbering) : N.Lists N.order := N.listed.choose_spec

theorem order_eq {l : List TypeId} (h : N.Lists l) : N.order = l := N.lists.unique h

@[simp] theorem order_empty : empty.order = [] := order_eq .empty

/-- Numbers that are not given out have no status. -/
def Tidy (N : Numbering) : Prop := ∀ n : TypeNumber, N.order.length < n.value → N.status n = .unseen

theorem room (N : Numbering) : N.order.length + 1 < N.statuses.size := by
  rw [← N.lists.next]
  exact N.lists.room

theorem size_eq (N : Numbering) : N.size = N.order.length := by
  rw [NumberTables.size, N.lists.next, Nat.add_sub_cancel]

theorem number?_eq_some : N.number? x = some n ↔
    x ∈ N.order ∧ n.value = N.order.idxOf x + 1 := N.lists.number?_eq_some

theorem number?_eq_none : N.number? x = none ↔ x ∉ N.order := N.lists.number?_eq_none

theorem number?_isSome : (N.number? x).isSome ↔ x ∈ N.order := by
  rw [Option.isSome_iff_ne_none, Ne, number?_eq_none, Classical.not_not]

theorem number?_le (h : N.number? x = some n) : 1 ≤ n.value ∧ n.value ≤ N.order.length :=
  N.lists.number?_le h

theorem number?_inj (hx : N.number? x = some n) (hy : N.number? y = some n) : x = y :=
  N.lists.number?_inj hx hy

theorem number?_mono (h : N.order <+: M.order) (hx : N.number? x = some n) :
    M.number? x = some n := by
  obtain ⟨mem, eq⟩ := number?_eq_some.1 hx
  obtain ⟨more, e⟩ := h
  rw [number?_eq_some, ← e]
  exact ⟨List.mem_append_left _ mem, by rw [List.idxOf_append, if_pos mem, eq]⟩

theorem allocate_of_some (h : N.number? ty = some n) : N.allocate ty = (n, N) := by
  have same : N.toNumberTables.allocate ty = (n, N.toNumberTables) :=
    NumberTables.allocate_of_some h
  have number : (N.allocate ty).1 = n := congrArg Prod.fst same
  have tables : (N.allocate ty).2.toNumberTables = N.toNumberTables := congrArg Prod.snd same
  exact Prod.ext number (ext_tables tables)

theorem allocate_fst_of_none (h : N.number? ty = none) :
    (N.allocate ty).1.value = N.order.length + 1 := by
  simp [allocate, NumberTables.allocate, h, N.lists.next]

theorem order_allocate_of_none (h : N.number? ty = none) :
    (N.allocate ty).2.order = N.order ++ [ty] := order_eq (N.lists.new h)

@[simp] theorem order_setStatus (N : Numbering) (n : TypeNumber) (s : TypeStatus) :
    (N.setStatus n s).order = N.order := order_eq (N.lists.setStatus n s)

theorem prefix_order_allocate (N : Numbering) (ty : TypeId) :
    N.order <+: (N.allocate ty).2.order := by
  cases h : N.number? ty with
  | none => exact order_allocate_of_none h ▸ List.prefix_append _ _
  | some n => simp only [allocate_of_some h, List.prefix_refl]

@[simp] theorem order_introduce (N : Numbering) (ty : TypeId) (s : TypeStatus) :
    (N.introduce ty s).order = (N.allocate ty).2.order := order_setStatus ..

theorem number?_introduce_self (N : Numbering) (ty : TypeId) (s : TypeStatus) :
    (N.introduce ty s).number? ty = some (N.allocate ty).1 := number?_allocate_self N ty

theorem slot_allocate (N : Numbering) (ty : TypeId) :
    (N.allocate ty).1.value < (N.allocate ty).2.statuses.size :=
  slot (number?_allocate_self N ty)

theorem status_introduce (N : Numbering) (ty : TypeId) (s : TypeStatus) (n : TypeNumber) :
    (N.introduce ty s).status n =
      if (N.allocate ty).1 = n then (N.status n).later s else N.status n := by
  simp [introduce, status_setStatus, slot_allocate]

theorem status_empty (n : TypeNumber) : empty.status n = .unseen := by
  simp only [NumberTables.status, empty]
  by_cases hn : n.value < 100
  · simp [hn]
  · simp [Nat.le_of_not_lt hn]

theorem tidy_empty : Tidy empty := fun n _ => status_empty n

theorem Tidy.introduce (tidy : N.Tidy) (ty : TypeId) (s : TypeStatus) :
    (N.introduce ty s).Tidy := by
  intro n h
  have given := (number?_le (number?_allocate_self N ty)).2
  rw [order_introduce] at h
  rw [status_introduce, if_neg (fun e => by rw [e] at given; omega)]
  exact tidy n (Nat.lt_of_le_of_lt (prefix_order_allocate N ty).length_le h)

/-- The number that a request gives has the status of its type. -/
theorem status_allocate_fst (tidy : N.Tidy) (ty : TypeId) :
    N.status (N.allocate ty).1 = N.statusOf ty := by
  cases h : N.number? ty with
  | none => rw [statusOf_of_none h, tidy _ (by rw [allocate_fst_of_none h]; omega)]
  | some n => rw [statusOf_of_some h, allocate_of_some h]

/-- A request numbers no other type. -/
theorem number?_allocate_of_ne (other : x ≠ ty) : (N.allocate ty).2.number? x = N.number? x :=
  NumberTables.number?_allocate_of_ne _ other

theorem statusOf_allocate_of_ne (other : x ≠ ty) :
    (N.allocate ty).2.statusOf x = N.statusOf x := by
  have same : (N.allocate ty).2.number? x = N.number? x := number?_allocate_of_ne other
  cases h : N.number? x with
  | none => rw [statusOf_of_none h, statusOf_of_none (same.trans h)]
  | some n => rw [statusOf_of_some h, statusOf_of_some (same.trans h), status_allocate]

theorem statusOf_allocate (tidy : N.Tidy) (ty x : TypeId) :
    (N.allocate ty).2.statusOf x = N.statusOf x := by
  by_cases e : x = ty
  · subst e
    rw [statusOf_of_some (number?_allocate_self N x), status_allocate, status_allocate_fst tidy]
  · exact statusOf_allocate_of_ne e

theorem number?_introduce (N : Numbering) (ty : TypeId) (s : TypeStatus) (x : TypeId) :
    (N.introduce ty s).number? x = (N.allocate ty).2.number? x := rfl

/-- Introducing a type touches its own status alone. -/
theorem statusOf_introduce_of_ne (other : x ≠ ty) (s : TypeStatus) :
    (N.introduce ty s).statusOf x = N.statusOf x := by
  rw [← statusOf_allocate_of_ne (N := N) other]
  cases h : (N.allocate ty).2.number? x with
  | none => rw [statusOf_of_none h, statusOf_of_none ((number?_introduce N ty s x).trans h)]
  | some n =>
    have different : (N.allocate ty).1 ≠ n := fun same =>
      other (number?_inj h (same ▸ number?_allocate_self N ty))
    rw [statusOf_of_some h, statusOf_of_some ((number?_introduce N ty s x).trans h),
      status_introduce, if_neg different, status_allocate]

theorem statusOf_introduce (tidy : N.Tidy) (ty : TypeId) (s : TypeStatus) (x : TypeId) :
    (N.introduce ty s).statusOf x =
      if x = ty then (N.statusOf ty).later s else N.statusOf x := by
  by_cases e : x = ty
  · subst e
    rw [if_pos rfl, statusOf_of_some (number?_introduce_self N x s), status_introduce, if_pos rfl,
      status_allocate_fst tidy]
  · rw [if_neg e, statusOf_introduce_of_ne e]

/-- Numbers stay with their types and statuses only move forward. -/
structure Grows (N M : Numbering) : Prop where
  order : N.order <+: M.order
  status : ∀ x, (N.statusOf x).rank ≤ (M.statusOf x).rank

namespace Grows

theorem refl (N : Numbering) : N.Grows N := ⟨List.prefix_refl _, fun _ => Nat.le_refl _⟩

theorem trans {K : Numbering} (a : N.Grows M) (b : M.Grows K) : N.Grows K :=
  ⟨a.order.trans b.order, fun x => Nat.le_trans (a.status x) (b.status x)⟩

theorem defined (h : N.Grows M) (hx : N.statusOf x = .defined) : M.statusOf x = .defined :=
  TypeStatus.eq_defined_of_rank_le (hx ▸ h.status x)

theorem seen (h : N.Grows M) (hx : N.statusOf x ≠ .unseen) : M.statusOf x ≠ .unseen := by
  intro unseen
  have le := h.status x
  rw [unseen] at le
  cases hs : N.statusOf x <;> simp_all [TypeStatus.rank]

theorem number? (h : N.Grows M) (hx : N.number? x = some n) : M.number? x = some n :=
  number?_mono h.order hx

end Grows

theorem grows_allocate (N : Numbering) (ty : TypeId) : N.Grows (N.allocate ty).2 where
  order := prefix_order_allocate N ty
  status x := by
    cases h : N.number? x with
    | none => simp [statusOf_of_none h, TypeStatus.rank]
    | some n =>
      have same : (N.allocate ty).2.statusOf x = N.statusOf x := by
        rw [statusOf_of_some h, statusOf_of_some (number?_allocate_of_some h ty), status_allocate]
      exact Nat.le_of_eq (congrArg TypeStatus.rank same.symm)

theorem grows_setStatus (N : Numbering) (n : TypeNumber) (s : TypeStatus) :
    N.Grows (N.setStatus n s) where
  order := order_setStatus N n s ▸ List.prefix_refl _
  status x := by
    cases h : N.number? x with
    | none => simp [statusOf_of_none h, TypeStatus.rank]
    | some m =>
      have same : (N.setStatus n s).number? x = some m := h
      rw [statusOf_of_some h, statusOf_of_some same, status_setStatus]
      split
      · exact TypeStatus.rank_le_later_left _ _
      · exact Nat.le_refl _

theorem grows_introduce (N : Numbering) (ty : TypeId) (s : TypeStatus) :
    N.Grows (N.introduce ty s) :=
  (grows_allocate N ty).trans (grows_setStatus _ _ s)

theorem exists_number (h : N.statusOf x ≠ .unseen) : ∃ n, N.number? x = some n := by
  cases hn : N.number? x with
  | none => exact absurd (statusOf_of_none hn) h
  | some n => exact ⟨n, rfl⟩

/-- A type that is defined already can be introduced again without a trace. -/
theorem introduce_of_defined (h : N.statusOf ty = .defined) : N.introduce ty .defined = N := by
  cases hn : N.number? ty with
  | none => simp [statusOf_of_none hn] at h
  | some n =>
    rw [statusOf_of_some hn] at h
    rw [introduce, allocate_of_some hn]
    exact ext_tables (NumberTables.setStatus_of_defined h)

end Numbering

end Stabs

import Stabs.Types.Node

/-!
# Type numbering

The first request for a type gives it the next free number, counted from one. Beside each number
stands how much of the type has been written, so that a later reference can choose between the
bare number, a cross-reference and a definition. A status only moves forward.

Numbers are kept in a table by the id of the type, which grows up to the id that is asked for, and
statuses in a table by number, which doubles when the next number has no slot.
-/
namespace Stabs

structure TypeNumber where
  value : Nat
deriving DecidableEq, Repr

/-- The built-in `int` is described under number one; other integer types are its subranges. -/
def TypeNumber.int : TypeNumber := ⟨1⟩

def TypeNumber.char : TypeNumber := ⟨2⟩

/-- How much of a type has been written: at most its number, only a cross-reference, or its
definition, which may still be in progress. -/
inductive TypeStatus where
  | unseen
  | crossReferenced
  | defined
deriving DecidableEq, Repr, Inhabited

namespace TypeStatus

def rank : TypeStatus → Nat
  | unseen => 0
  | crossReferenced => 1
  | defined => 2

/-- The later of two statuses. -/
def later (a b : TypeStatus) : TypeStatus := if a.rank ≤ b.rank then b else a

@[simp] theorem later_defined (a : TypeStatus) : later a defined = defined := by
  cases a <;> rfl

@[simp] theorem defined_later (a : TypeStatus) : later defined a = defined := by
  cases a <;> rfl

end TypeStatus

/-! ## The tables -/

/-- The number of each type by its id, the status of each number, and the next number. -/
structure NumberTables where
  numbers : Array (Option TypeNumber) := #[]
  statuses : Array TypeStatus := Array.replicate 100 .unseen
  next : Nat := 1

namespace NumberTables

/-- The number of a type that has been requested before. -/
def number? (tables : NumberTables) (ty : TypeId) : Option TypeNumber :=
  tables.numbers[ty.toNat]?.join

/-- A number beyond the table counts as unseen. -/
def status (tables : NumberTables) (n : TypeNumber) : TypeStatus :=
  tables.statuses[n.value]?.getD .unseen

def statusOf (tables : NumberTables) (ty : TypeId) : TypeStatus :=
  match tables.number? ty with
  | some n => tables.status n
  | none => .unseen

/-- How many numbers have been given out. -/
def size (tables : NumberTables) : Nat := tables.next - 1

def isEmpty (tables : NumberTables) : Bool := tables.size == 0

/-- How many slots the status table has. -/
def capacity (tables : NumberTables) : Nat := tables.statuses.size

/-- The table with a slot for an id; slots that are added are free. -/
def withSlot (numbers : Array (Option TypeNumber)) (id : Nat) : Array (Option TypeNumber) :=
  numbers ++ Array.replicate (id + 1 - numbers.size) none

def assign (numbers : Array (Option TypeNumber)) (id : Nat) (n : TypeNumber) :
    Array (Option TypeNumber) :=
  (withSlot numbers id).setIfInBounds id (some n)

/-- The table doubles when the next number has no slot. -/
def grow (statuses : Array TypeStatus) (next : Nat) : Array TypeStatus :=
  if next = statuses.size then statuses ++ Array.replicate statuses.size .unseen else statuses

/-- The number of a type, the next free one on first request. -/
def allocate (tables : NumberTables) (ty : TypeId) : TypeNumber × NumberTables :=
  match tables.number? ty with
  | some n => (n, tables)
  | none =>
    (⟨tables.next⟩,
      { numbers := assign tables.numbers ty.toNat ⟨tables.next⟩
        statuses := grow tables.statuses (tables.next + 1)
        next := tables.next + 1 })

/-- Moves the status of a number forward; a number beyond the table is left alone. -/
def setStatus (tables : NumberTables) (n : TypeNumber) (status : TypeStatus) : NumberTables :=
  { tables with statuses := tables.statuses.modify n.value (·.later status) }

/-- The tables hold the types of the list, numbered in its order, and have a slot for the status of
the next number. -/
structure Lists (tables : NumberTables) (order : List TypeId) : Prop where
  numbers : ∀ ty, tables.number? ty = if ty ∈ order then some ⟨order.idxOf ty + 1⟩ else none
  distinct : order.Nodup
  next : tables.next = order.length + 1
  room : tables.next < tables.statuses.size

variable {tables : NumberTables} {order : List TypeId} {numbers : Array (Option TypeNumber)}
  {ty x : TypeId} {n : TypeNumber}

theorem join_withSlot (numbers : Array (Option TypeNumber)) (id i : Nat) :
    (withSlot numbers id)[i]?.join = numbers[i]?.join := by
  rw [withSlot, Array.getElem?_append]
  split
  · rfl
  · next beyond =>
    rw [Array.getElem?_eq_none (Nat.le_of_not_lt beyond), Array.getElem?_replicate]
    split <;> rfl

theorem join_assign_self (numbers : Array (Option TypeNumber)) (id : Nat) (n : TypeNumber) :
    (assign numbers id n)[id]?.join = some n := by
  have inside : id < (withSlot numbers id).size := by
    rw [withSlot, Array.size_append, Array.size_replicate]
    omega
  rw [assign, Array.getElem?_setIfInBounds_self, if_pos inside]
  rfl

theorem join_assign_of_ne {id i : Nat} (other : i ≠ id) (n : TypeNumber) :
    (assign numbers id n)[i]?.join = numbers[i]?.join := by
  rw [assign, Array.getElem?_setIfInBounds_ne other.symm, join_withSlot]

theorem allocate_of_some (h : tables.number? ty = some n) : tables.allocate ty = (n, tables) := by
  simp [allocate, h]

theorem number?_allocate_self (tables : NumberTables) (ty : TypeId) :
    (tables.allocate ty).2.number? ty = some (tables.allocate ty).1 := by
  unfold allocate
  split
  · next h => exact h
  · exact join_assign_self ..

/-- A request numbers no other type. -/
theorem number?_allocate_of_ne (tables : NumberTables) (other : x ≠ ty) :
    (tables.allocate ty).2.number? x = tables.number? x := by
  unfold allocate
  split
  · rfl
  · exact join_assign_of_ne (mt TypeId.toNat_inj.1 other) _

theorem number?_allocate_of_some (h : tables.number? x = some n) (ty : TypeId) :
    (tables.allocate ty).2.number? x = some n := by
  by_cases same : x = ty
  · subst same
    rwa [allocate_of_some h]
  · rwa [number?_allocate_of_ne tables same]

theorem status_grow {statuses : Array TypeStatus} (next i : Nat) :
    ((grow statuses next)[i]?.getD .unseen) = statuses[i]?.getD .unseen := by
  unfold grow
  split
  · rw [Array.getElem?_append]
    split
    · rfl
    · next h =>
      rw [Array.getElem?_eq_none (Nat.le_of_not_lt h), Array.getElem?_replicate]
      split <;> rfl
  · rfl

theorem room_grow {statuses : Array TypeStatus} {next : Nat} (h : next < statuses.size) :
    next + 1 < (grow statuses (next + 1)).size := by
  unfold grow
  split
  · rw [Array.size_append, Array.size_replicate]
    omega
  · omega

@[simp] theorem status_allocate (tables : NumberTables) (ty : TypeId) (n : TypeNumber) :
    (tables.allocate ty).2.status n = tables.status n := by
  unfold allocate
  split
  · rfl
  · exact status_grow _ _

theorem status_setStatus (tables : NumberTables) (n m : TypeNumber) (s : TypeStatus) :
    (tables.setStatus n s).status m =
      if n = m ∧ n.value < tables.statuses.size then (tables.status m).later s
      else tables.status m := by
  unfold setStatus status
  simp only [Array.getElem?_modify]
  by_cases h : n = m
  · subst h
    by_cases hn : n.value < tables.statuses.size <;> simp [hn]
  · have : n.value ≠ m.value := fun e => h (by cases n; cases m; exact congrArg _ e)
    simp [h, this]

namespace Lists

theorem empty : Lists {} [] where
  numbers _ := rfl
  distinct := .nil
  next := rfl
  room := by decide

theorem number?_eq_some (h : tables.Lists order) :
    tables.number? ty = some n ↔ ty ∈ order ∧ n.value = order.idxOf ty + 1 := by
  rw [h.numbers]
  split
  · next mem => cases n; simp [mem, eq_comm]
  · next absent => simp [absent]

theorem number?_eq_none (h : tables.Lists order) : tables.number? ty = none ↔ ty ∉ order := by
  rw [h.numbers]
  split <;> simp_all

theorem number?_le (h : tables.Lists order) (number : tables.number? ty = some n) :
    1 ≤ n.value ∧ n.value ≤ order.length := by
  obtain ⟨mem, place⟩ := h.number?_eq_some.1 number
  have := List.idxOf_lt_length_of_mem mem
  omega

/-- A number that was given out has a slot for its status. -/
theorem slot (h : tables.Lists order) (number : tables.number? ty = some n) :
    n.value < tables.statuses.size := by
  have bounds := h.number?_le number
  have room := h.room
  rw [h.next] at room
  omega

/-- A type that is listed is not moved. -/
theorem again (h : tables.Lists order) (number : tables.number? ty = some n) :
    (tables.allocate ty).2.Lists order := by
  rwa [allocate_of_some number]

/-- A type that is not listed is numbered behind the others. -/
theorem new (h : tables.Lists order) (fresh : tables.number? ty = none) :
    (tables.allocate ty).2.Lists (order ++ [ty]) where
  numbers x := by
    have absent := h.number?_eq_none.1 fresh
    by_cases same : x = ty
    · subst same
      rw [number?_allocate_self, if_pos (List.mem_append_right _ List.mem_cons_self),
        List.idxOf_append, if_neg absent]
      simp [allocate, fresh, h.next]
    · rw [number?_allocate_of_ne tables same, h.numbers]
      by_cases mem : x ∈ order
      · rw [if_pos mem, if_pos (List.mem_append_left _ mem), List.idxOf_append, if_pos mem]
      · simp [mem, same]
  distinct := by
    refine List.nodup_append.2 ⟨h.distinct, by simp, fun x mem y last same => ?_⟩
    rw [same, List.mem_singleton.1 last] at mem
    exact h.number?_eq_none.1 fresh mem
  next := by simp [allocate, fresh, h.next]
  room := by
    simp only [allocate, fresh]
    exact room_grow h.room

theorem setStatus (h : tables.Lists order) (n : TypeNumber) (s : TypeStatus) :
    (tables.setStatus n s).Lists order where
  numbers := h.numbers
  distinct := h.distinct
  next := h.next
  room := by rw [NumberTables.setStatus, Array.size_modify]; exact h.room

theorem exists_allocate (h : tables.Lists order) (ty : TypeId) :
    ∃ after, (tables.allocate ty).2.Lists after := by
  cases number : tables.number? ty with
  | some n => exact ⟨_, h.again number⟩
  | none => exact ⟨_, h.new number⟩

end Lists

end NumberTables

/-! ## Numberings -/

/-- Tables that are filled in the order of their numbers. -/
structure Numbering extends NumberTables where
  listed : ∃ order, toNumberTables.Lists order

namespace Numbering

def empty : Numbering := ⟨{}, _, .empty⟩

instance : Inhabited Numbering := ⟨empty⟩

/-- Forgets all types; the next one gets the first number again. -/
def reset (_ : Numbering) : Numbering := empty

/-- The number of a type, the next free one on first request. -/
def allocate (numbering : Numbering) (ty : TypeId) : TypeNumber × Numbering :=
  let answer := numbering.toNumberTables.allocate ty
  (answer.1, ⟨answer.2, numbering.listed.elim fun _ lists => lists.exists_allocate ty⟩)

/-- Moves the status of a number forward; a number beyond the table is left alone. -/
def setStatus (numbering : Numbering) (n : TypeNumber) (status : TypeStatus) : Numbering :=
  ⟨numbering.toNumberTables.setStatus n status,
    numbering.listed.imp fun _ lists => lists.setStatus n status⟩

theorem number?_allocate_self (numbering : Numbering) (ty : TypeId) :
    (numbering.allocate ty).2.number? ty = some (numbering.allocate ty).1 :=
  NumberTables.number?_allocate_self _ ty

theorem number?_allocate_of_some {numbering : Numbering} {x : TypeId} {n : TypeNumber}
    (h : numbering.number? x = some n) (ty : TypeId) :
    (numbering.allocate ty).2.number? x = some n :=
  NumberTables.number?_allocate_of_some h ty

@[simp] theorem status_allocate (numbering : Numbering) (ty : TypeId) (n : TypeNumber) :
    (numbering.allocate ty).2.status n = numbering.status n :=
  NumberTables.status_allocate _ ty n

@[simp] theorem number?_setStatus (numbering : Numbering) (n : TypeNumber) (s : TypeStatus)
    (x : TypeId) : (numbering.setStatus n s).number? x = numbering.number? x := rfl

theorem status_setStatus (numbering : Numbering) (n m : TypeNumber) (s : TypeStatus) :
    (numbering.setStatus n s).status m =
      if n = m ∧ n.value < numbering.statuses.size then (numbering.status m).later s
      else numbering.status m :=
  NumberTables.status_setStatus _ n m s

theorem statusOf_of_none {numbering : Numbering} {x : TypeId} (h : numbering.number? x = none) :
    numbering.statusOf x = .unseen := by
  simp [NumberTables.statusOf, h]

theorem statusOf_of_some {numbering : Numbering} {x : TypeId} {n : TypeNumber}
    (h : numbering.number? x = some n) : numbering.statusOf x = numbering.status n := by
  simp [NumberTables.statusOf, h]

/-- A number that was given out has a slot for its status. -/
theorem slot {numbering : Numbering} {ty : TypeId} {n : TypeNumber}
    (h : numbering.number? ty = some n) : n.value < numbering.statuses.size := by
  obtain ⟨order, lists⟩ := numbering.listed
  exact lists.slot h

/-- What is defined stays defined under a request for a number. -/
theorem statusOf_allocate_of_defined {numbering : Numbering} {x : TypeId}
    (h : numbering.statusOf x = .defined) (ty : TypeId) :
    (numbering.allocate ty).2.statusOf x = .defined := by
  cases number : numbering.number? x with
  | none => simp [statusOf_of_none number] at h
  | some n =>
    rw [statusOf_of_some number] at h
    rw [statusOf_of_some (number?_allocate_of_some number ty), status_allocate, h]

/-- What is defined stays defined when a status moves. -/
theorem statusOf_setStatus_of_defined {numbering : Numbering} {x : TypeId}
    (h : numbering.statusOf x = .defined) (n : TypeNumber) (s : TypeStatus) :
    (numbering.setStatus n s).statusOf x = .defined := by
  cases number : numbering.number? x with
  | none => simp [statusOf_of_none number] at h
  | some m =>
    rw [statusOf_of_some number] at h
    have same : (numbering.setStatus n s).number? x = some m := number
    rw [statusOf_of_some same, status_setStatus, h]
    split <;> simp

/-- A status set on the number of a type is really stored. -/
theorem statusOf_setStatus_self {numbering : Numbering} {ty : TypeId} {n : TypeNumber}
    (h : numbering.number? ty = some n) : (numbering.setStatus n .defined).statusOf ty = .defined := by
  have same : (numbering.setStatus n .defined).number? ty = some n := h
  rw [statusOf_of_some same, status_setStatus, if_pos ⟨rfl, slot h⟩, TypeStatus.later_defined]

theorem statusOf_allocate_setStatus (numbering : Numbering) (ty : TypeId) :
    ((numbering.allocate ty).2.setStatus (numbering.allocate ty).1 .defined).statusOf ty =
      .defined :=
  statusOf_setStatus_self (number?_allocate_self numbering ty)

end Numbering

end Stabs

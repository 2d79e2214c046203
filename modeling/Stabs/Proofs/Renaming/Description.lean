import Mathlib.Data.List.Nodup
import Stabs.Proofs.Description.Outcome
import Stabs.Proofs.Description.Segments
import Stabs.Proofs.Numbering.History
import Stabs.Proofs.Renaming.Syntax

/-!
# Descriptions under a renaming

A description takes the same course in a renamed table. The numbers follow the order of the first
requests and the recursion follows the statuses of the numbers, so the same marks are left. Where a
description fails it fails for the same reason, and only the reason names a type.
-/
namespace Stabs

namespace NumberTables

variable {l : List TypeId} {statuses : Array TypeStatus} {ty : TypeId}

/-- The tables after requests for the types of a list, with other statuses. -/
def requestAll (l : List TypeId) (statuses : Array TypeStatus) : NumberTables :=
  { callAll {} (l.map .request) with statuses }

theorem lists_callAll_requests (l : List TypeId) :
    (callAll {} (l.map .request)).Lists l.eraseDups := by
  have start : Lists {} (requested []).eraseDups := .empty
  have all := start.callAll (l.map .request)
  rwa [List.nil_append, requested_requests] at all

theorem lists_requestAll (room : l.eraseDups.length + 1 < statuses.size) :
    (requestAll l statuses).Lists l.eraseDups := (lists_callAll_requests l).withStatuses room

theorem requestAll_snoc (new : (requestAll l statuses).number? ty = none) :
    requestAll (l ++ [ty]) (grow statuses ((requestAll l statuses).next + 1)) =
      ((requestAll l statuses).allocate ty).2 := by
  have absent : (callAll {} (l.map .request)).number? ty = none := new
  have step : callAll (callAll {} (l.map .request)) [.request ty] =
      ((callAll {} (l.map .request)).allocate ty).2 := rfl
  rw [requestAll, List.map_append, callAll_append, List.map_singleton, step]
  simp only [allocate, absent, new]
  rfl

end NumberTables

namespace Numbering

variable {ρ : TypeId → TypeId} {types others : TypeTable} {N : Numbering} {ty : TypeId}

/-- The renamed types are requested in the same order, and the numbers have their statuses. -/
noncomputable def rename (ρ : TypeId → TypeId) (N : Numbering) : Numbering where
  toNumberTables := .requestAll (N.order.map ρ) N.statuses
  listed := by
    have distinct := (NumberTables.lists_callAll_requests (N.order.map ρ)).distinct
    have fewer := distinct.length_le_of_subset fun _ mem => List.mem_eraseDups.1 mem
    rw [List.length_map] at fewer
    exact ⟨_, NumberTables.lists_requestAll (Nat.lt_of_le_of_lt (Nat.succ_le_succ fewer) N.room)⟩

theorem tables_rename : (N.rename ρ).toNumberTables =
    .requestAll (N.order.map ρ) N.statuses := rfl

theorem rename_empty : empty.rename ρ = empty := by
  refine ext_tables ?_
  rw [tables_rename, order_empty]
  rfl

theorem rename_setStatus (n : TypeNumber) (s : TypeStatus) :
    (N.setStatus n s).rename ρ = (N.rename ρ).setStatus n s := by
  refine ext_tables ?_
  rw [tables_rename, order_setStatus]
  rfl

/-- Only types of the table have numbers. -/
def Within (types : TypeTable) (N : Numbering) : Prop := ∀ ty ∈ N.order, types.Knows ty

theorem idxOf_map {l : List TypeId} (inj : ∀ x ∈ l, ρ x = ρ ty → x = ty) :
    (l.map ρ).idxOf (ρ ty) = l.idxOf ty := by
  induction l with
  | nil => rfl
  | cons x l ih =>
    have rest := ih fun y mem => inj y (List.mem_cons_of_mem _ mem)
    rw [List.map_cons, List.idxOf_cons, List.idxOf_cons, rest]
    by_cases e : x = ty
    · subst e
      rw [beq_self_eq_true, beq_self_eq_true]
    · have other : ρ x ≠ ρ ty := fun same => e (inj x List.mem_cons_self same)
      rw [beq_false_of_ne e, beq_false_of_ne other]

section

variable (h : types.Renames ρ others) (within : N.Within types)

include h within

theorem order_rename : (N.rename ρ).order = N.order.map ρ := by
  have distinct : (N.order.map ρ).Nodup := by
    refine List.Nodup.map_on (fun x hx y hy same => ?_) N.lists.distinct
    exact (h.inj (within x hx) (within y hy)).1 same
  have same := eraseDups_of_nodup distinct
  refine order_eq ?_
  have room : (N.order.map ρ).eraseDups.length + 1 < N.statuses.size := by
    rw [same, List.length_map]
    exact N.room
  exact same ▸ NumberTables.lists_requestAll room

theorem next_rename : (N.rename ρ).next = N.next := by
  rw [(N.rename ρ).lists.next, order_rename h within, List.length_map, N.lists.next]

variable (known : types.Knows ty)

include known

theorem number?_rename : (N.rename ρ).number? (ρ ty) = N.number? ty := by
  have inj (x : TypeId) (mem : x ∈ N.order) : ρ x = ρ ty → x = ty :=
    (h.inj (within x mem) known).1
  have mem : ρ ty ∈ N.order.map ρ ↔ ty ∈ N.order := by
    refine ⟨fun mem => ?_, List.mem_map_of_mem⟩
    obtain ⟨x, mem, e⟩ := List.mem_map.1 mem
    exact inj x mem e ▸ mem
  rw [(N.rename ρ).lists.numbers, N.lists.numbers, order_rename h within]
  simp only [mem, idxOf_map inj]

theorem statusOf_rename : (N.rename ρ).statusOf (ρ ty) = N.statusOf ty := by
  rw [NumberTables.statusOf, NumberTables.statusOf, number?_rename h within known]
  rfl

theorem allocate_rename :
    (N.rename ρ).allocate (ρ ty) = ((N.allocate ty).1, (N.allocate ty).2.rename ρ) := by
  have same := number?_rename h within known
  cases number : N.number? ty with
  | some n => rw [allocate_of_some number, allocate_of_some (same.trans number)]
  | none =>
    have next := next_rename h within
    have order := order_allocate_of_none number
    have new : (N.rename ρ).number? (ρ ty) = none := same.trans number
    refine Prod.ext ?_ (ext_tables ?_)
    · simp only [allocate, NumberTables.allocate, same, number, next]
    · rw [tables_rename, order, List.map_append]
      have statuses : (N.allocate ty).2.statuses =
          NumberTables.grow N.statuses ((N.rename ρ).next + 1) := by
        simp only [allocate, NumberTables.allocate, number, next]
      rw [statuses]
      exact (NumberTables.requestAll_snoc new).symm

theorem introduce_rename (status : TypeStatus) :
    (N.rename ρ).introduce (ρ ty) status = (N.introduce ty status).rename ρ := by
  rw [introduce, allocate_rename h within known, introduce, rename_setStatus]

end

theorem Within.allocate (within : N.Within types) (known : types.Knows ty) :
    (N.allocate ty).2.Within types := by
  cases number : N.number? ty with
  | some n =>
    rw [allocate_of_some number]
    exact within
  | none =>
    intro x mem
    rw [order_allocate_of_none number] at mem
    rcases List.mem_append.1 mem with mem | mem
    · exact within x mem
    · exact List.mem_singleton.1 mem ▸ known

theorem Within.introduce (within : N.Within types) (known : types.Knows ty) (s : TypeStatus) :
    (N.introduce ty s).Within types := by
  rw [Within, order_introduce]
  exact within.allocate known

end Numbering

namespace TypeDescription

variable {ρ : TypeId → TypeId} {types others : TypeTable} {N M N' M' : Numbering} {p : Piece}
  {pending body body' left left' : List Piece} {ms ms' : List Mark}

def Piece.rename (ρ : TypeId → TypeId) : Piece → Piece
  | mark m => mark m
  | reference ty full => reference (ρ ty) full
  | fault cause => fault (cause.rename ρ)

/-- A reference to a type of the table. -/
def Piece.Within (types : TypeTable) : Piece → Prop
  | reference ty _ => types.Knows ty
  | _ => True

theorem separated_rename {α β : Type} (f : α → β) {item : α → List Piece} {other : β → List Piece}
    (same : ∀ a, other (f a) = (item a).map (Piece.rename ρ)) (l : List α) :
    separated other (l.map f) = (separated item l).map (Piece.rename ρ) := by
  have rest (l : List α) : ((l.map f).flatMap fun b => Piece.mark .safePoint :: other b) =
      (l.flatMap fun b => .mark .safePoint :: item b).map (Piece.rename ρ) := by
    simp only [List.flatMap_map, List.map_flatMap, List.map_cons, same]
    rfl
  cases l with
  | nil => rfl
  | cons a l => rw [List.map_cons, separated, separated, rest, same, List.map_append]

theorem namedFields_rename (fields : List Field) :
    namedFields (fields.map (Field.rename ρ)) =
      (namedFields fields).map fun m => (m.1, m.2.rename ρ) := by
  simp only [namedFields, List.filterMap_map, List.map_filterMap]
  congr
  funext field
  cases h : field.name <;> simp [Field.rename, h]

theorem aggregateLayout_rename (category : Aggregate) (size : Option UInt64)
    (fields : List Field) : aggregateLayout category size (fields.map (Field.rename ρ)) =
      (aggregateLayout category size fields).map (Piece.rename ρ) := by
  have members := @separated_rename ρ _ _ (fun m => (m.1, m.2.rename ρ)) memberPieces memberPieces
    (fun _ => rfl) (namedFields fields)
  rw [aggregateLayout, aggregateLayout, namedFields_rename, members, List.map_cons,
    List.map_append]
  rfl

theorem enumerators_rename (values : List Enumerator) :
    (separated enumeratorPieces values).map (Piece.rename ρ) =
      separated enumeratorPieces values := by
  have same := @separated_rename ρ _ _ id enumeratorPieces enumeratorPieces (fun _ => rfl) values
  rw [← same, List.map_id]

theorem crossReference?_rename (node : TypeNode) (full : Bool) :
    crossReference? (node.rename ρ) full = crossReference? node full := by
  have kind : aggregate? (node.kind.rename ρ) = aggregate? node.kind := by cases node.kind <;> rfl
  simp only [crossReference?, TypeNode.rename, TypeNode.isComplete, kind]
  rfl

theorem category_rename (kind : TypeKind) : (kind.rename ρ).category = kind.category := by
  cases kind <;> rfl

/-- The body of a renamed type is the renamed body. -/
theorem layout_rename (h : types.Renames ρ others) {ty : TypeId} (known : types.Knows ty)
    (n : TypeNumber) (node : TypeNode) :
    layout (ρ ty) n (node.rename ρ) = (layout ty n node).map (Piece.rename ρ) := by
  obtain ⟨kind, name, size⟩ := node
  have char : ρ ty = .char ↔ ty = .char := by
    have same := h.inj known types.knows_char
    rwa [h.builtins.2.1] at same
  cases kind with
  | void => rfl
  | integer min max => simp only [layout, TypeNode.rename, TypeKind.rename, integerRange, char]; rfl
  | real => cases size <;> rfl
  | array element length =>
    simp only [layout, TypeNode.rename, TypeKind.rename]
    split <;> rfl
  | record fields => exact aggregateLayout_rename .record size fields
  | union fields => exact aggregateLayout_rename .union size fields
  | enumeration values =>
    simp only [layout, TypeNode.rename, TypeKind.rename, List.map_cons, List.map_append,
      enumerators_rename]
    rfl
  | pointer target => rfl
  | function returns =>
    cases returns with
    | some target => rfl
    | none =>
      simp only [layout, TypeNode.rename, TypeKind.rename, Option.map_none, Option.getD_none,
        List.map_cons, List.map_nil, Piece.rename, h.builtins.2.2]

theorem within_layout (closed : types.Closed) {ty : TypeId} {node : TypeNode}
    (known : types.get? ty = some node) (n : TypeNumber) :
    ∀ p ∈ layout ty n node, p.Within types := by
  intro p mem
  have inBody := inBody_of_mem_layout mem
  cases p with
  | reference child full => exact closed _ (TypeTable.mem_entries known) child inBody.2
  | _ => trivial

/-- A step keeps to the table. -/
theorem Expands.within (first : Expands types N p ms M body) (closed : types.Closed)
    (within : N.Within types) : M.Within types ∧ ∀ q ∈ body, q.Within types := by
  cases first with
  | mark => exact ⟨within, List.forall_mem_nil _⟩
  | unknown => exact ⟨within, fun q mem => List.mem_singleton.1 mem ▸ trivial⟩
  | settled known => exact ⟨within.allocate ⟨_, known⟩, List.forall_mem_nil _⟩
  | crossReferenced known => exact ⟨within.introduce ⟨_, known⟩ _, List.forall_mem_nil _⟩
  | unnamed known =>
    exact ⟨within.allocate ⟨_, known⟩, fun q mem => List.mem_singleton.1 mem ▸ trivial⟩
  | defined known => exact ⟨within.introduce ⟨_, known⟩ _, within_layout closed known _⟩

theorem Steps.within (h : Steps types N pending ms M left) (closed : types.Closed)
    (within : N.Within types) (refs : ∀ q ∈ pending, q.Within types) : M.Within types := by
  have kept := h.keeps (fun N pending => N.Within types ∧ ∀ q ∈ pending, q.Within types) ?_
    ⟨within, refs⟩
  · exact kept.1
  · intro N M p ms body pending first ⟨within, refs⟩
    obtain ⟨within', refs'⟩ := first.within closed within
    refine ⟨within', fun q mem => ?_⟩
    rcases List.mem_append.1 mem with mem | mem
    · exact refs' q mem
    · exact refs q (List.mem_cons_of_mem _ mem)

/-- In the renamed table the renamed piece leaves the same marks. -/
theorem Expands.rename (h : types.Renames ρ others) (within : N.Within types)
    (ref : p.Within types) (first : Expands types N p ms M body) :
    Expands others (N.rename ρ) (p.rename ρ) ms (M.rename ρ) (body.map (Piece.rename ρ)) := by
  cases first with
  | mark m => exact .mark m
  | unknown missing =>
    obtain ⟨node, known⟩ := ref
    cases known.symm.trans missing
  | @settled ty full node known enough =>
    have number := Numbering.allocate_rename h within ref
    have step := @Expands.settled others (N.rename ρ) (ρ ty) full _ (h.get? known)
      (by rwa [number])
    rwa [number] at step
  | @crossReferenced ty full node category name known unsettled crossed named =>
    have number := Numbering.allocate_rename h within ref
    have step := @Expands.crossReferenced others (N.rename ρ) (ρ ty) full _ _ _ (h.get? known)
      (by rwa [number]) ((crossReference?_rename node full).trans crossed) named
    rwa [number, Numbering.introduce_rename h within ref] at step
  | @unnamed ty full node category known unsettled crossed unnamed =>
    have number := Numbering.allocate_rename h within ref
    have step := @Expands.unnamed others (N.rename ρ) (ρ ty) full _ _ (h.get? known)
      (by rwa [number]) ((crossReference?_rename node full).trans crossed) unnamed
    rwa [number, TypeNode.rename, category_rename] at step
  | @defined ty full node known unsettled clear =>
    have number := Numbering.allocate_rename h within ref
    have step := @Expands.defined others (N.rename ρ) (ρ ty) full _ (h.get? known)
      (by rwa [number]) ((crossReference?_rename node full).trans clear)
    rwa [number, Numbering.introduce_rename h within ref, layout_rename h ref] at step

/-- The steps of a description are taken in the renamed table as well. -/
theorem Steps.rename (h : types.Renames ρ others) (closed : types.Closed)
    (steps : Steps types N pending ms M left) (within : N.Within types)
    (refs : ∀ q ∈ pending, q.Within types) :
    Steps others (N.rename ρ) (pending.map (Piece.rename ρ)) ms (M.rename ρ)
      (left.map (Piece.rename ρ)) := by
  induction steps with
  | refl => exact .refl _ _
  | cons first _ ih =>
    obtain ⟨within', refs'⟩ := first.within closed within
    have rest := ih within' fun q mem => (List.mem_append.1 mem).elim (refs' q) fun mem =>
      refs q (List.mem_cons_of_mem _ mem)
    rw [List.map_append] at rest
    exact .cons (first.rename h within (refs _ List.mem_cons_self)) rest

end TypeDescription

/-- An outcome with everything that names a type renamed. -/
def renamed {σ : Type} (ρ : TypeId → TypeId) (rename : σ → σ) :
    EStateM.Result DescribeError σ Unit → EStateM.Result DescribeError σ Unit
  | .ok _ after => .ok () (rename after)
  | .error cause after => .error (cause.rename ρ) (rename after)

noncomputable def Sheet.rename (ρ : TypeId → TypeId) (sheet : Sheet) : Sheet :=
  { sheet with numbering := sheet.numbering.rename ρ }

noncomputable def Context.rename (ρ : TypeId → TypeId) (c : Context) : Context :=
  { c with numbering := c.numbering.rename ρ, typedefsWritten := c.typedefsWritten.map ρ }

namespace TypeDescription

variable {ρ : TypeId → TypeId} {types others : TypeTable}

theorem outcome_rename (M : Numbering) (out : Emitter) (left : List Piece) :
    outcome ⟨M.rename ρ, out⟩ (left.map (Piece.rename ρ)) =
      renamed ρ (Sheet.rename ρ) (outcome ⟨M, out⟩ left) := by
  cases left with
  | nil => rfl
  | cons p left => cases p <;> rfl

theorem Final.rename {left : List Piece} (final : Final left) :
    Final (left.map (Piece.rename ρ)) := by
  rcases final with rfl | ⟨cause, rest, rfl⟩
  · exact .inl rfl
  · exact .inr ⟨_, _, rfl⟩

/-- Writing a renamed reference is writing the reference, up to names. -/
theorem encode_rename (h : types.Renames ρ others) (closed : types.Closed) {ty : TypeId}
    (known : types.Knows ty) (full : Bool) {N : Numbering} (within : N.Within types)
    {out : Emitter} (symbol : out.inSymbol) :
    encode others (ρ ty) full ⟨N.rename ρ, out⟩ =
      renamed ρ (Sheet.rename ρ) (encode types ty full ⟨N, out⟩) := by
  obtain ⟨marks, M, left, steps, final, run⟩ := encode_final types ty full N symbol
  obtain ⟨marks', M', left', steps', final', run'⟩ :=
    encode_final others (ρ ty) full (N.rename ρ) symbol
  have moved := steps.rename h closed within fun p mem => List.mem_singleton.1 mem ▸ known
  obtain ⟨rfl, rfl, rfl⟩ := moved.unique final.rename steps' final'
  rw [run, run', outcome_rename]

end TypeDescription

namespace Context

variable {ρ : TypeId → TypeId} {types others : TypeTable}

/-- A renamed symbol gets the same description. -/
theorem describe_rename (h : types.Renames ρ others) (closed : types.Closed) {symbol : Symbol}
    (known : types.Knows symbol.ty) {c : Context} (within : c.numbering.Within types) :
    describe others (symbol.rename ρ) (c.rename ρ) =
      renamed ρ (Context.rename ρ) (describe types symbol c) := by
  have run : TypeDescription.encode others (symbol.rename ρ).ty (symbol.rename ρ).full
      ⟨(c.rename ρ).numbering, (c.rename ρ).out.begun (symbol.rename ρ)⟩ =
        renamed ρ (Sheet.rename ρ)
          (TypeDescription.encode types symbol.ty symbol.full ⟨c.numbering, c.out.begun symbol⟩) :=
    TypeDescription.encode_rename h closed known symbol.full within rfl
  rw [describe_eq, describe_eq, run]
  cases TypeDescription.encode types symbol.ty symbol.full ⟨c.numbering, c.out.begun symbol⟩ <;>
    rfl

end Context

end Stabs

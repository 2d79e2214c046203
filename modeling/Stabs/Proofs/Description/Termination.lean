import Stabs.Proofs.Description.Outcome
import Stabs.Proofs.Description.References

/-!
# Every description comes to an end

The type graph may have any shape, and types of it may be missing. Before a reference goes on to
the body of its type, it leaves the type defined where it was not, and that is never undone. So a
level of the descent leaves one type fewer to define, no body is written twice, and the descent is
at most one level deeper than there are types to define.
-/
namespace Stabs

namespace Numbering

/-- How many definitions may still be written for a number. -/
def due (N : Numbering) (n : TypeNumber) : Nat := if N.status n = .defined then 0 else 1

theorem due_of_ne {N : Numbering} {n : TypeNumber} (h : N.status n ≠ .defined) : N.due n = 1 :=
  if_neg h

@[simp] theorem due_allocate (N : Numbering) (ty : TypeId) (n : TypeNumber) :
    (N.allocate ty).2.due n = N.due n := by
  simp [due]

/-- A status that moves forward makes no definition due. -/
theorem due_introduce_le (N : Numbering) (ty : TypeId) (s : TypeStatus) (n : TypeNumber) :
    (N.introduce ty s).due n ≤ N.due n := by
  unfold due
  rw [status_introduce]
  split
  · cases N.status n <;> cases s <;> simp [TypeStatus.later, TypeStatus.rank]
  · exact Nat.le_refl _

theorem due_introduce_defined (N : Numbering) (ty : TypeId) :
    (N.introduce ty .defined).due (N.allocate ty).1 = 0 := by
  simp [due, status_introduce]

end Numbering

namespace Emitter

/-- The tokens of all records, and behind them those of the symbol in progress. -/
def tokens (out : Emitter) : List Token :=
  out.records.toList.flatMap Record.tokens ++ (out.pending.map PendingSymbol.segment).getD []

open TypeDescription (Mark)

theorem tokens_put {out : Emitter} (symbol : out.inSymbol) (m : Mark) :
    (out.put m).tokens = out.tokens ++ TypeDescription.tokens [m] := by
  unfold inSymbol at symbol
  cases hp : out.pending with
  | none => simp [hp] at symbol
  | some pending =>
    cases m with
    | token token => simp [put, write?, hp, tokens, TypeDescription.tokens]
    | safePoint =>
      simp only [put, safePoint, hp]
      split <;> simp [tokens, TypeDescription.tokens, hp, Record.tokens, PendingSymbol.record]

/-- Wherever a description is cut, its tokens go behind those before it. -/
theorem tokens_play {out : Emitter} (symbol : out.inSymbol) (marks : List Mark) :
    (out.play marks).tokens = out.tokens ++ TypeDescription.tokens marks := by
  induction marks generalizing out with
  | nil => simp [TypeDescription.tokens]
  | cons m marks ih =>
    rw [play_cons, ih (inSymbol_put symbol m), tokens_put symbol, List.append_assoc,
      ← TypeDescription.tokens_append]
    rfl

end Emitter

namespace TypeDescription

variable {types : TypeTable} {N M : Numbering} {p : Piece} {ms : List Mark}
  {pending body left pieces : List Piece} {ty : TypeId} {full : Bool} {sheet : Sheet}

/-- A step that goes on writes a definition only where one is due, and it is not due any more. -/
theorem Expands.count_definition (h : Expands types N p ms M body) (plain : p.Plain)
    (n : TypeNumber) :
    (references (tokens ms)).count ⟨n, .definition⟩ + M.due n ≤ N.due n ∨
      Stopped body ∧ (references (tokens ms)).count ⟨n, .definition⟩ ≤ N.due n := by
  cases h with
  | mark m => simp [references_mark plain]
  | unknown => exact .inr ⟨⟨_, _, rfl⟩, Nat.zero_le _⟩
  | settled => simp [tokens, references, ReferenceForm.ofRest]
  | crossReferenced =>
    left
    simpa [tokens, references, ReferenceForm.ofRest] using Numbering.due_introduce_le N _ _ n
  | @unnamed ty full node category known unsettled =>
    -- the number and the sign behind it are out, the type stays undefined, but nothing follows
    refine .inr ⟨⟨_, _, rfl⟩, ?_⟩
    by_cases e : (N.allocate ty).1 = n
    · subst e
      have waiting := ne_defined_of_not_settled (Bool.eq_false_iff.1 unsettled)
      simp [tokens, references, ReferenceForm.ofRest, Numbering.due_of_ne waiting]
    · simp [tokens, references, ReferenceForm.ofRest, e]
  | @defined ty full node known unsettled =>
    left
    by_cases e : (N.allocate ty).1 = n
    · subst e
      have waiting := ne_defined_of_not_settled (Bool.eq_false_iff.1 unsettled)
      simp [tokens, references, ReferenceForm.ofRest, Numbering.due_of_ne waiting,
        Numbering.due_introduce_defined]
    · simpa [tokens, references, ReferenceForm.ofRest, e] using
        Numbering.due_introduce_le N ty .defined n

/-- Nothing is written behind a fault. -/
theorem Steps.of_stopped (h : Steps types N pending ms M left) (stopped : Stopped pending) :
    ms = [] := by
  obtain ⟨cause, rest, rfl⟩ := stopped
  cases h with
  | refl => rfl
  | cons first => cases first

/-- However a description goes on, it writes no definition that is not due, and none twice. -/
theorem Steps.count_definition (h : Steps types N pending ms M left)
    (plain : ∀ p ∈ pending, p.Plain) (n : TypeNumber) :
    (references (tokens ms)).count ⟨n, .definition⟩ ≤ N.due n := by
  induction h with
  | refl => exact Nat.zero_le _
  | @cons N M N' p pending body left ms rest first more ih =>
    have plain' := first.plain_append plain
    rw [tokens_append, references_append (more.calm plain'), List.count_append]
    rcases first.count_definition (plain p List.mem_cons_self) n with le | ⟨stopped, le⟩
    · have := ih plain'
      omega
    · obtain ⟨cause, others, rfl⟩ := stopped
      rw [more.of_stopped ⟨cause, others ++ pending, rfl⟩]
      simpa [tokens, references] using le

/-- What a bounded description that has the given outcome comes to. -/
def asBounded : EStateM.Result DescribeError Sheet Unit → EStateM.Result Halt Sheet Unit
  | .ok _ after => .ok () after
  | .error cause after => .error (.fault cause) after

/-- The sheet that a description leaves behind, also where it fails. -/
def sheetAfter {ε : Type} : EStateM.Result ε Sheet Unit → Sheet
  | .ok _ after => after
  | .error _ after => after

theorem sheetAfter_asBounded (result : EStateM.Result DescribeError Sheet Unit) :
    sheetAfter (asBounded result) = sheetAfter result := by
  cases result <;> rfl

theorem sheetAfter_outcome (sheet : Sheet) (left : List Piece) :
    sheetAfter (outcome sheet left) = sheet := by
  unfold outcome
  split <;> rfl

theorem encodeWithin_size (types : TypeTable) (ty : TypeId) (full : Bool) (sheet : Sheet) :
    encodeWithin types (types.size + 1) ty full sheet = asBounded (encode types ty full sheet) := by
  unfold encode
  split
  · next eq => exact eq
  · next eq => exact eq
  · next eq => exact absurd eq (encodeWithin_ne_depthSpent types ty full sheet _)

/-- The same pieces written from the same sheet come to the same result, unless a bound is met. -/
theorem Realized.unique {a b : EStateM.Result Halt Sheet Unit} (ha : Realized types pieces sheet a)
    (hb : Realized types pieces sheet b) (finished : ∀ after, a ≠ .error .depthSpent after)
    (finished' : ∀ after, b ≠ .error .depthSpent after) : a = b := by
  have spread {r : EStateM.Result Halt Sheet Unit} (h : Realized types pieces sheet r)
      (finished : ∀ after, r ≠ .error .depthSpent after) :
      ∃ marks M left, Steps types sheet.numbering pieces marks M left ∧ Final left ∧
        r = asBounded (outcome ⟨M, sheet.out.play marks⟩ left) := by
    cases r with
    | ok _ after =>
      obtain ⟨marks, steps, out⟩ := h
      exact ⟨marks, _, _, steps, .inl rfl, by rw [← out]; rfl⟩
    | error halt after =>
      cases halt with
      | depthSpent => exact absurd rfl (finished after)
      | fault cause =>
        obtain ⟨marks, left, steps, out⟩ := h
        exact ⟨marks, _, _, steps, .inr ⟨_, _, rfl⟩, by rw [← out]; rfl⟩
  obtain ⟨marks, M, left, steps, final, rfl⟩ := spread ha finished
  obtain ⟨marks', M', left', steps', final', rfl⟩ := spread hb finished'
  obtain ⟨rfl, rfl, rfl⟩ := steps.unique final steps' final'
  rfl

/-- Where a reference goes on to the body of its type: the type was not defined, now it is, and no
other type has moved. -/
structure Marked (types : TypeTable) (ty : TypeId) (n : TypeNumber) (node : TypeNode)
    (sheet marked : Sheet) : Prop where
  known : types.get? ty = some node
  number : marked.numbering.number? ty = some n
  waiting : sheet.numbering.statusOf ty ≠ .defined
  stored : marked.numbering.statusOf ty = .defined
  others : ∀ x, x ≠ ty → marked.numbering.statusOf x = sheet.numbering.statusOf x
  fewer : undefinedCount types marked.numbering < undefinedCount types sheet.numbering

theorem marked_introduce {node : TypeNode} {out : Emitter} (known : types.get? ty = some node)
    (unsettled : isSettled (sheet.numbering.status (sheet.numbering.allocate ty).1) full = false) :
    Marked types ty (sheet.numbering.allocate ty).1 node sheet
      ⟨sheet.numbering.introduce ty .defined, out⟩ := by
  have waiting : sheet.numbering.statusOf ty ≠ .defined := by
    cases hn : sheet.numbering.number? ty with
    | none => simp [Numbering.statusOf_of_none hn]
    | some n =>
      rw [Numbering.allocate_of_some hn] at unsettled
      rw [Numbering.statusOf_of_some hn]
      exact ne_defined_of_not_settled (Bool.eq_false_iff.1 unsettled)
  have stored := Numbering.statusOf_allocate_setStatus sheet.numbering ty
  have keeps : Keeps sheet ⟨sheet.numbering.introduce ty .defined, out⟩ := fun _ defined =>
    (Numbering.grows_introduce sheet.numbering ty .defined).defined defined
  exact {
    known, waiting, stored
    number := Numbering.number?_introduce_self sheet.numbering ty .defined
    others := fun x other => Numbering.statusOf_introduce_of_ne other .defined
    fewer := undefinedCount_lt keeps known waiting stored }

/-- Without a symbol in progress a reference gets no further than to its number. -/
theorem encodeWithin_outside (types : TypeTable) (ty : TypeId) (full : Bool)
    (outside : ¬ sheet.out.inSymbol) :
    ∃ cause M, sheet.numbering.Grows M ∧ ∀ depth,
      encodeWithin types (depth + 1) ty full sheet = .error (.fault cause) ⟨M, sheet.out⟩ := by
  have nowhere : sheet.out.pending = none := by simpa [Emitter.inSymbol] using outside
  cases known : types.get? ty with
  | none => exact ⟨.unknownType ty, _, .refl _, fun depth => by rw [encodeWithin, known]; rfl⟩
  | some node =>
    refine ⟨.noSymbol, _, Numbering.grows_allocate sheet.numbering ty, fun depth => ?_⟩
    simp only [encodeWithin, known, Bind.bind, EStateM.bind, allocate, write, Emitter.write?,
      nowhere]

/-- One level of the descent: either nothing further down takes part in it, or it is the body of
the type, from a sheet where the type is marked. -/
def Descends (types : TypeTable) (ty : TypeId) (full : Bool) (sheet : Sheet) : Prop :=
  (∃ result, ∀ depth, encodeWithin types (depth + 1) ty full sheet = result) ∨
    ∃ n node marked, Marked types ty n node sheet marked ∧
      ∀ depth, encodeWithin types (depth + 1) ty full sheet =
        TypeDescription.body (fun child => encodeWithin types depth child false) ty n node marked

theorem descends (types : TypeTable) (ty : TypeId) (full : Bool) (sheet : Sheet) :
    Descends types ty full sheet := by
  by_cases symbol : sheet.out.inSymbol
  case neg =>
    obtain ⟨_, _, -, eq⟩ := encodeWithin_outside types ty full symbol
    exact .inl ⟨_, eq⟩
  have symbol' := Emitter.inSymbol_put symbol (.token (.number (sheet.numbering.allocate ty).1))
  have symbol'' := Emitter.inSymbol_put symbol' (.token .equals)
  unfold Descends
  cases known : types.get? ty with
  | none => exact .inl ⟨_, fun depth => by rw [encodeWithin, known]⟩
  | some node =>
    simp only [encodeWithin, known, Bind.bind, EStateM.bind, allocate, write,
      Emitter.write?_eq_some symbol, get_eq, Numbering.status_allocate]
    cases settled : isSettled (sheet.numbering.status (sheet.numbering.allocate ty).1) full with
    | true => exact .inl ⟨_, fun _ => rfl⟩
    | false =>
      simp only [Bool.false_eq_true, if_false, introduce, Bind.bind, EStateM.bind, write,
        Emitter.write?_eq_some symbol']
      cases crossed : crossReference? node full with
      | none => exact .inr ⟨_, node, _, marked_introduce known settled, fun _ => rfl⟩
      | some category => exact .inl ⟨_, fun _ => rfl⟩

/-- A depth beyond the number of types to define makes no difference. -/
theorem encodeWithin_of_undefinedCount_lt {depth : Nat}
    (deep : undefinedCount types sheet.numbering < depth) :
    encodeWithin types depth ty full sheet = asBounded (encode types ty full sheet) := by
  obtain ⟨d, rfl⟩ := Nat.exists_eq_succ_of_ne_zero (Nat.ne_zero_of_lt deep)
  rw [← encodeWithin_size]
  by_cases symbol : sheet.out.inSymbol
  · apply Realized.unique (encodeWithin_realizes types (d + 1) ty full sheet symbol)
      (encodeWithin_realizes types (types.size + 1) ty full sheet symbol)
    · intro after eq
      have bounded := encodeWithin_bounded types d ty full sheet (Nat.le_of_lt_succ deep)
      rw [BoundedAt, eq] at bounded
      exact bounded.2 rfl
    · exact encodeWithin_ne_depthSpent types ty full sheet
  · obtain ⟨_, _, -, eq⟩ := encodeWithin_outside types ty full symbol
    rw [Nat.succ_eq_add_one, eq, eq]

/-- A reference brings the numbering forward and adds to the output what it has written, with no
definition that is not due and none twice. -/
theorem encode_adds (types : TypeTable) (ty : TypeId) (full : Bool) (sheet : Sheet) :
    sheet.numbering.Grows (sheetAfter (encode types ty full sheet)).numbering ∧
      ∃ written, (sheetAfter (encode types ty full sheet)).out.tokens =
          sheet.out.tokens ++ written ∧
        ∀ n, (references written).count ⟨n, .definition⟩ ≤ sheet.numbering.due n := by
  by_cases symbol : sheet.out.inSymbol
  · obtain ⟨marks, M, left, steps, -, eq⟩ :=
      encode_final types ty full sheet.numbering symbol
    simp only [eq, sheetAfter_outcome]
    exact ⟨steps.grows, tokens marks, Emitter.tokens_play symbol marks,
      steps.count_definition (plain_reference ty full)⟩
  · -- nothing is written without a symbol, but the type may have got its number
    obtain ⟨_, M, grows, eq⟩ := encodeWithin_outside types ty full symbol
    rw [← sheetAfter_asBounded, ← encodeWithin_size, eq]
    exact ⟨grows, [], (List.append_nil _).symm, fun _ => Nat.zero_le _⟩

/-- Every reference comes to an end: for any table, from any numbering and any output, for any type
and in either form. The depth of the descent is at most one more than the number of types that are
not defined, since each level that goes on has first defined one of them; no number and no status
is lost, and no body is written twice. -/
theorem encode_terminates (types : TypeTable) (ty : TypeId) (full : Bool) (sheet : Sheet) :
    let result := encode types ty full sheet
    (∀ more, encodeWithin types (undefinedCount types sheet.numbering + 1 + more) ty full sheet =
        asBounded result) ∧
      Descends types ty full sheet ∧
      sheet.numbering.Grows (sheetAfter result).numbering ∧
      ∃ written, (sheetAfter result).out.tokens = sheet.out.tokens ++ written ∧
        ∀ n, (references written).count ⟨n, .definition⟩ ≤ sheet.numbering.due n :=
  ⟨fun _ => encodeWithin_of_undefinedCount_lt (by omega), descends types ty full sheet,
    encode_adds types ty full sheet⟩

end TypeDescription

end Stabs

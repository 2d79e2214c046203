import Stabs.Describe.Context
import Stabs.Proofs.Description.Emission

/-!
# Safe points as a parameter

A description passes the same safe points whatever its emitter does there. With the emitter's
answer as a parameter, the answer of `Emitter.safePoint` gives the descriptions of the library, and
an emitter that does nothing at a safe point writes each description in one piece. Two runs with
different answers take the same course, and their outputs stay in any relation that tokens and
answers keep.
-/
namespace Stabs

namespace TypeDescription

namespace SafePoints

variable (cut : Emitter → Emitter)

def pause : Writing Unit := modify fun sheet => { sheet with out := cut sheet.out }

/-- Writes every item, with a safe point between two of them. -/
def between {α : Type} (item : α → Writing Unit) : List α → Writing Unit
  | [] => pure ()
  | a :: rest => do
    item a
    forM rest fun b => do
      pause cut
      item b

def members (child : TypeId → Writing Unit) (category : Aggregate) (size : Option UInt64)
    (fields : List Field) : Writing Unit := do
  write (.aggregate category (size.getD 0).toNat)
  between cut
    (fun (name, field) => do
      write (.member name)
      child field.ty
      write (.extent field.bitOffset.toNat field.bitSize.toNat))
    (namedFields fields)
  write .close

/-- Only records, unions and enumerations have safe points of their own. -/
def body (child : TypeId → Writing Unit) (ty : TypeId) (n : TypeNumber) (node : TypeNode) :
    Writing Unit :=
  match node.kind with
  | .record fields => members cut child .record node.size fields
  | .union fields => members cut child .union node.size fields
  | .enumeration values => do
    write .enumeration
    between cut (fun v : Enumerator => write (.enumerator v.name v.value.toInt)) values
    write .close
  | _ => TypeDescription.body child ty n node

def introduce (child : TypeId → Writing Unit) (ty : TypeId) (n : TypeNumber) (node : TypeNode)
    (full : Bool) : Writing Unit := do
  write .equals
  match crossReference? node full with
  | some category =>
    match node.name with
    | some name => do
      write (.crossReference category name.text)
      mark n .crossReferenced
    | none => fail (.unnamedType ty node.kind.category)
  | none => do
    mark n .defined
    body cut child ty n node

/-- What stands behind the number of a type, if anything. -/
def settle (child : TypeId → Writing Unit) (ty : TypeId) (n : TypeNumber) (node : TypeNode)
    (full : Bool) : Writing Unit := do
  let sheet ← get
  if isSettled (sheet.numbering.status n) full then pure ()
  else introduce cut child ty n node full

def encodeWithin (types : TypeTable) : Nat → TypeId → Bool → Writing Unit
  | 0, _, _ => throw .depthSpent
  | depth + 1, ty, full =>
    match types.get? ty with
    | none => fail (.unknownType ty)
    | some node => do
      let n ← allocate ty
      write (.number n)
      settle cut (fun child => encodeWithin types depth child false) ty n node full

theorem body_safePoint (child : TypeId → Writing Unit) (ty : TypeId) (n : TypeNumber)
    (node : TypeNode) : body Emitter.safePoint child ty n node =
      TypeDescription.body child ty n node := by
  unfold body TypeDescription.body
  cases node.kind <;> rfl

theorem introduce_safePoint (child : TypeId → Writing Unit) (ty : TypeId) (n : TypeNumber)
    (node : TypeNode) (full : Bool) : introduce Emitter.safePoint child ty n node full =
      TypeDescription.introduce child ty n node full := by
  unfold introduce
  rw [body_safePoint]
  rfl

/-- With the answer of the emitter the references are those of the library. -/
theorem encodeWithin_safePoint (types : TypeTable) (depth : Nat) (ty : TypeId) (full : Bool) :
    encodeWithin Emitter.safePoint types depth ty full =
      TypeDescription.encodeWithin types depth ty full := by
  induction depth generalizing ty full with
  | zero => rfl
  | succ depth ih =>
    unfold encodeWithin
    simp only [settle, introduce_safePoint, ih]
    rfl

end SafePoints

/-- Both runs succeed or both fail for the same reason; the numbering is the same and the outputs
are related. -/
def Alike (R : Emitter → Emitter → Prop) :
    EStateM.Result Halt Sheet Unit → EStateM.Result Halt Sheet Unit → Prop
  | .ok _ a, .ok _ b => a.numbering = b.numbering ∧ R a.out b.out
  | .error halt a, .error halt' b => halt = halt' ∧ a.numbering = b.numbering ∧ R a.out b.out
  | _, _ => False

/-- From related outputs the two steps come to the same. -/
def Follows (R : Emitter → Emitter → Prop) (step other : Writing Unit) : Prop :=
  ∀ N out out', R out out' → Alike R (step ⟨N, out⟩) (other ⟨N, out'⟩)

/-- A relation of outputs that tokens and the answers at safe points keep. A token has nowhere to
go on both sides or on none. -/
structure Paired (cut cut' : Emitter → Emitter) (R : Emitter → Emitter → Prop) : Prop where
  write : ∀ {out out'}, R out out' → ∀ token,
    (out.write? token = none ∧ out'.write? token = none) ∨
      ∃ next next', out.write? token = some next ∧ out'.write? token = some next' ∧ R next next'
  cut : ∀ {out out'}, R out out' → R (cut out) (cut' out')

namespace Follows

variable {R : Emitter → Emitter → Prop} {cut cut' : Emitter → Emitter}
  {step other next after : Writing Unit}

theorem pure : Follows R (Pure.pure ()) (Pure.pure ()) := fun _ _ _ related => ⟨rfl, related⟩

theorem fail (cause : DescribeError) :
    Follows R (TypeDescription.fail cause) (TypeDescription.fail cause) :=
  fun _ _ _ related => ⟨rfl, rfl, related⟩

theorem mark (n : TypeNumber) (status : TypeStatus) :
    Follows R (TypeDescription.mark n status) (TypeDescription.mark n status) :=
  fun _ _ _ related => ⟨rfl, related⟩

theorem write (paired : Paired cut cut' R) (token : Token) :
    Follows R (TypeDescription.write token) (TypeDescription.write token) := by
  intro N out out' related
  unfold TypeDescription.write
  rcases paired.write related token with ⟨none, none'⟩ | ⟨next, next', some, some', kept⟩
  · rw [none, none']
    exact ⟨rfl, rfl, related⟩
  · rw [some, some']
    exact ⟨rfl, kept⟩

theorem pause (paired : Paired cut cut' R) :
    Follows R (SafePoints.pause cut) (SafePoints.pause cut') :=
  fun _ _ _ related => ⟨rfl, paired.cut related⟩

theorem bind (hs : Follows R step other) (hn : Follows R next after) :
    Follows R (step >>= fun _ => next) (other >>= fun _ => after) := by
  intro N out out' related
  have first := hs N out out' related
  simp only [Bind.bind, EStateM.bind]
  cases h : step ⟨N, out⟩ with
  | error halt a =>
    cases h' : other ⟨N, out'⟩ with
    | error halt' b => rwa [h, h'] at first
    | ok _ b => rw [h, h'] at first; exact first.elim
  | ok _ a =>
    cases h' : other ⟨N, out'⟩ with
    | error halt' b => rw [h, h'] at first; exact first.elim
    | ok _ b =>
      rw [h, h'] at first
      obtain ⟨M, o⟩ := a
      obtain ⟨M', o'⟩ := b
      obtain ⟨rfl, kept⟩ : M = M' ∧ R o o' := first
      exact hn M o o' kept

theorem forM {α : Type} {item item' : α → Writing Unit} (h : ∀ a, Follows R (item a) (item' a))
    (l : List α) : Follows R (ForM.forM l item) (ForM.forM l item') := by
  induction l with
  | nil => exact pure
  | cons a l ih =>
    rw [List.forM_cons, List.forM_cons]
    exact bind (h a) ih

theorem between (paired : Paired cut cut' R) {α : Type} {item item' : α → Writing Unit}
    (h : ∀ a, Follows R (item a) (item' a)) (l : List α) :
    Follows R (SafePoints.between cut item l) (SafePoints.between cut' item' l) := by
  cases l with
  | nil => exact pure
  | cons a l => exact bind (h a) (forM (fun b => bind (pause paired) (h b)) l)

variable {child child' : TypeId → Writing Unit} (paired : Paired cut cut' R)
  (hc : ∀ ty, Follows R (child ty) (child' ty))

include paired hc

theorem members (category : Aggregate) (size : Option UInt64) (fields : List Field) :
    Follows R (SafePoints.members cut child category size fields)
      (SafePoints.members cut' child' category size fields) :=
  bind (write paired _) (bind
    (between paired (fun _ => bind (write paired _) (bind (hc _) (write paired _))) _)
    (write paired _))

theorem body (ty : TypeId) (n : TypeNumber) (node : TypeNode) :
    Follows R (SafePoints.body cut child ty n node) (SafePoints.body cut' child' ty n node) := by
  unfold SafePoints.body TypeDescription.body
  cases node.kind with
  | void => exact write paired _
  | integer min max => exact write paired _
  | real =>
    cases node.size with
    | some size => exact write paired _
    | none => exact fail _
  | array element length =>
    dsimp only
    split
    · exact bind (write paired _) (hc _)
    · exact fail _
  | record fields => exact members paired hc _ _ _
  | union fields => exact members paired hc _ _ _
  | enumeration values =>
    exact bind (write paired _) (bind (between paired (fun _ => write paired _) _)
      (write paired _))
  | pointer target => exact bind (write paired _) (hc _)
  | function returns => exact bind (write paired _) (hc _)

theorem introduce (ty : TypeId) (n : TypeNumber) (node : TypeNode) (full : Bool) :
    Follows R (SafePoints.introduce cut child ty n node full)
      (SafePoints.introduce cut' child' ty n node full) := by
  unfold SafePoints.introduce
  apply bind (write paired _)
  split
  · split
    · exact bind (write paired _) (mark _ _)
    · exact fail _
  · exact bind (mark _ _) (body paired hc ty n node)

theorem settle (ty : TypeId) (n : TypeNumber) (node : TypeNode) (full : Bool) :
    Follows R (SafePoints.settle cut child ty n node full)
      (SafePoints.settle cut' child' ty n node full) := by
  intro N out out' related
  simp only [SafePoints.settle, Bind.bind, EStateM.bind, get_eq]
  split
  · exact pure N out out' related
  · exact introduce paired hc ty n node full N out out' related

end Follows

/-- Whatever the answers at the safe points, a reference takes the same course. -/
theorem encodeWithin_follows {R : Emitter → Emitter → Prop} {cut cut' : Emitter → Emitter}
    (paired : Paired cut cut' R) (types : TypeTable) (depth : Nat) (ty : TypeId) (full : Bool) :
    Follows R (SafePoints.encodeWithin cut types depth ty full)
      (SafePoints.encodeWithin cut' types depth ty full) := by
  induction depth generalizing ty full with
  | zero => exact fun _ _ _ related => ⟨rfl, rfl, related⟩
  | succ depth ih =>
    intro N out out' related
    unfold SafePoints.encodeWithin
    cases types.get? ty with
    | none => exact Follows.fail _ N out out' related
    | some node =>
      have behind := Follows.settle paired (fun child => ih child false) ty (N.allocate ty).1 node full
      exact Follows.bind (Follows.write paired _) behind (N.allocate ty).2 out out' related

/-- Without cuts a token has a place exactly when it has one with cuts. -/
theorem paired_inSymbol :
    Paired Emitter.safePoint id fun out whole => out.inSymbol = whole.inSymbol where
  write {out whole} same token := by
    unfold Emitter.inSymbol at same
    unfold Emitter.write?
    cases hp : out.pending with
    | none => cases hw : whole.pending <;> simp_all
    | some symbol =>
      cases hw : whole.pending with
      | none => simp_all
      | some symbol' => exact .inr ⟨_, _, rfl, rfl, rfl⟩
  cut {out whole} same := by
    refine Eq.trans ?_ same
    unfold Emitter.safePoint
    cases hp : out.pending with
    | none => rfl
    | some symbol =>
      dsimp only
      split
      · simp [Emitter.inSymbol, hp]
      · rfl

theorem encodeWithin_uncut_ne_depthSpent (types : TypeTable) (ty : TypeId) (full : Bool)
    (sheet after : Sheet) :
    SafePoints.encodeWithin id types (types.size + 1) ty full sheet ≠ .error .depthSpent after := by
  intro h
  have alike := encodeWithin_follows paired_inSymbol types (types.size + 1) ty full
    sheet.numbering sheet.out sheet.out rfl
  rw [SafePoints.encodeWithin_safePoint, h] at alike
  cases run : encodeWithin types (types.size + 1) ty full sheet with
  | ok _ a => rw [run] at alike; exact alike
  | error halt a =>
    rw [run] at alike
    obtain ⟨rfl, -⟩ := alike
    exact encodeWithin_ne_depthSpent types ty full sheet a run

/-- A bounded step that never meets its bound. -/
def unbounded (step : Writing Unit) (bounded : ∀ sheet after, step sheet ≠ .error .depthSpent after) :
    Describing Sheet Unit := fun sheet =>
  match h : step sheet with
  | .ok _ after => .ok () after
  | .error (.fault cause) after => .error cause after
  | .error .depthSpent after => absurd h (bounded sheet after)

/-- Writes a reference as `encode` does, on an emitter that does nothing at a safe point. -/
def encodeUncut (types : TypeTable) (ty : TypeId) (full : Bool) : Describing Sheet Unit :=
  unbounded (SafePoints.encodeWithin id types (types.size + 1) ty full)
    (encodeWithin_uncut_ne_depthSpent types ty full)

theorem unbounded_alike {R : Emitter → Emitter → Prop} {step other : Writing Unit}
    (bounded : ∀ sheet after, step sheet ≠ .error .depthSpent after)
    (bounded' : ∀ sheet after, other sheet ≠ .error .depthSpent after) {sheet sheet' : Sheet}
    (alike : Alike R (step sheet) (other sheet')) :
    match unbounded step bounded sheet, unbounded other bounded' sheet' with
    | .ok _ a, .ok _ b => a.numbering = b.numbering ∧ R a.out b.out
    | .error cause a, .error cause' b => cause = cause' ∧ a.numbering = b.numbering
    | _, _ => False := by
  have value {step : Writing Unit} (bounded : ∀ sheet after, step sheet ≠ .error .depthSpent after)
      (sheet : Sheet) : (∃ after, step sheet = .ok () after ∧
        unbounded step bounded sheet = .ok () after) ∨
      ∃ cause after, step sheet = .error (.fault cause) after ∧
        unbounded step bounded sheet = .error cause after := by
    unfold unbounded
    split
    · next after h => exact .inl ⟨after, h, rfl⟩
    · next cause after h => exact .inr ⟨cause, after, h, rfl⟩
    · next after h => exact absurd h (bounded sheet after)
  rcases value bounded sheet with ⟨a, h, e⟩ | ⟨cause, a, h, e⟩ <;>
    rcases value bounded' sheet' with ⟨b, h', e'⟩ | ⟨cause', b, h', e'⟩ <;>
    rw [h, h'] at alike <;> rw [e, e']
  · exact alike
  · exact alike
  · exact alike
  · exact ⟨Halt.fault.inj alike.1, alike.2.1⟩

/-- With and without cuts a reference succeeds or fails alike. -/
theorem encodeUncut_alike {R : Emitter → Emitter → Prop} (paired : Paired Emitter.safePoint id R)
    (types : TypeTable) (ty : TypeId) (full : Bool) (N : Numbering) {out whole : Emitter}
    (related : R out whole) :
    match encode types ty full ⟨N, out⟩, encodeUncut types ty full ⟨N, whole⟩ with
    | .ok _ a, .ok _ b => a.numbering = b.numbering ∧ R a.out b.out
    | .error cause a, .error cause' b => cause = cause' ∧ a.numbering = b.numbering
    | _, _ => False := by
  have alike := encodeWithin_follows paired types (types.size + 1) ty full N out whole related
  rw [SafePoints.encodeWithin_safePoint] at alike
  exact unbounded_alike _ _ alike

end TypeDescription

end Stabs

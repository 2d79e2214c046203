import Stabs.Describe.Error
import Stabs.Output.Emitter
import Stabs.Types.Table

/-!
# Type descriptions

A type reference is always its number. Where a type is met for the first time, or where its
definition is asked for and only a cross-reference is out, the number is followed by `=` and a
body. A named record, union or enumeration that is not asked for in full, and any of them while
incomplete, is cross-referenced by name.

The type graph may be cyclic. A type is marked as defined before its body is written, so each
descent leaves one more entry of the table defined, and the depth of the descent is bounded by
the number of entries not yet defined.
-/
namespace Stabs

/-- What the description of a type works on: the numbering and the output. -/
structure Sheet where
  numbering : Numbering := .empty
  out : Emitter := .empty

namespace TypeDescription

/-- Why a bounded description stopped. -/
inductive Halt where
  | depthSpent
  | fault (cause : DescribeError)
deriving DecidableEq

abbrev Writing := EStateM Halt Sheet

def fail {α : Type} (cause : DescribeError) : Writing α := throw (.fault cause)

def write (token : Token) : Writing Unit := fun sheet =>
  match sheet.out.write? token with
  | some out => .ok () { sheet with out }
  | none => .error (.fault .noSymbol) sheet

def safePoint : Writing Unit := modify fun sheet => { sheet with out := sheet.out.safePoint }

def allocate (ty : TypeId) : Writing TypeNumber := fun sheet =>
  .ok (sheet.numbering.allocate ty).1 { sheet with numbering := (sheet.numbering.allocate ty).2 }

def mark (n : TypeNumber) (status : TypeStatus) : Writing Unit :=
  modify fun sheet => { sheet with numbering := sheet.numbering.setStatus n status }

/-- Whether a bare number is enough for a reference. -/
def isSettled (status : TypeStatus) (full : Bool) : Bool :=
  match status with
  | .defined => true
  | .crossReferenced => !full
  | .unseen => false

def aggregate? : TypeKind → Option Aggregate
  | .record _ => some .record
  | .union _ => some .union
  | .enumeration _ => some .enumeration
  | _ => none

/-- The category under which a node has to be cross-referenced. -/
def crossReference? (node : TypeNode) (full : Bool) : Option Aggregate :=
  if (node.name.isSome && !full) || !node.isComplete then aggregate? node.kind else none

/-- Writes every item, with a safe point between two of them. -/
def withSafePoints {α : Type} (item : α → Writing Unit) : List α → Writing Unit
  | [] => pure ()
  | a :: rest => do
    item a
    forM rest fun b => do
      safePoint
      item b

/-- The fields that have a name, each beside it. -/
def namedFields (fields : List Field) : List (String × Field) :=
  fields.filterMap fun field => field.name.map fun name => (name, field)

def members (child : TypeId → Writing Unit) (category : Aggregate) (size : Option UInt64)
    (fields : List Field) : Writing Unit := do
  write (.aggregate category (size.getD 0).toNat)
  withSafePoints
    (fun (name, field) => do
      write (.member name)
      child field.ty
      write (.extent field.bitOffset.toNat field.bitSize.toNat))
    (namedFields fields)
  write .close

/-- Older debuggers expect the range of a seven-bit `char`. -/
def integerRange (ty : TypeId) (min max : Int64) : Token :=
  if ty = .char then .range .char 0 127 else .range .int min.toInt max.toInt

/-- The body of a definition; `child` writes the references in it. -/
def body (child : TypeId → Writing Unit) (ty : TypeId) (n : TypeNumber) (node : TypeNode) :
    Writing Unit :=
  match node.kind with
  | .void => write (.itself n)
  | .integer min max => write (integerRange ty min max)
  | .real =>
    match node.size with
    | some size => write (.range .int size.toNat 0)
    | none => fail (.unsizedReal ty)
  | .array element length =>
    if length.toNat ≤ Int64.maxValue.toInt then do
      write (.bounds (length.toNat - 1))
      child element
    else fail (.arrayTooLong ty length)
  | .record fields => members child .record node.size fields
  | .union fields => members child .union node.size fields
  | .enumeration values => do
    write .enumeration
    withSafePoints (fun v : Enumerator => write (.enumerator v.name v.value.toInt)) values
    write .close
  | .pointer target => do
    write .pointer
    child target
  | .function returns => do
    write .function
    child (returns.getD .void)

/-- What follows the number of a type that is not settled. -/
def introduce (child : TypeId → Writing Unit) (ty : TypeId) (n : TypeNumber) (node : TypeNode)
    (full : Bool) : Writing Unit := do
  write .equals
  match crossReference? node full with
  | some category =>
    match node.name with
    | some name => do
      write (.crossReference category name.text)
      mark n .crossReferenced
    | none => fail (.unnamedType ty node.kind.category)
  | none => do
    mark n .defined
    body child ty n node

/-- Writes a reference, descending at most `depth` levels. -/
def encodeWithin (types : TypeTable) : Nat → TypeId → Bool → Writing Unit
  | 0, _, _ => throw .depthSpent
  | depth + 1, ty, full =>
    match types.get? ty with
    | none => fail (.unknownType ty)
    | some node => do
      let n ← allocate ty
      write (.number n)
      let sheet ← get
      if isSettled (sheet.numbering.status n) full then pure ()
      else introduce (fun child => encodeWithin types depth child false) ty n node full

/-- How many entries of the table are not yet defined. -/
def undefinedCount (types : TypeTable) (numbering : Numbering) : Nat :=
  (List.range types.size).countP fun i => numbering.statusOf (.ofNat i) ≠ .defined

/-- Whatever is defined before is defined after. -/
def Keeps (a b : Sheet) : Prop :=
  ∀ ty, a.numbering.statusOf ty = .defined → b.numbering.statusOf ty = .defined

/-- From this sheet, a step undefines nothing and does not run out of depth. -/
def BoundedAt {α : Type} (step : Writing α) (sheet : Sheet) : Prop :=
  match step sheet with
  | .ok _ after => Keeps sheet after
  | .error halt after => Keeps sheet after ∧ halt ≠ .depthSpent

/-- A step is bounded from every sheet with at most `d` undefined entries. -/
def Bounded (types : TypeTable) (d : Nat) {α : Type} (step : Writing α) : Prop :=
  ∀ sheet, undefinedCount types sheet.numbering ≤ d → BoundedAt step sheet

theorem undefinedCount_le {types : TypeTable} {a b : Sheet} (h : Keeps a b) :
    undefinedCount types b.numbering ≤ undefinedCount types a.numbering := by
  refine List.countP_mono_left fun i _ hb => ?_
  simp only [ne_eq, decide_eq_true_eq] at hb ⊢
  exact fun ha => hb (h _ ha)

private theorem countP_lt {α : Type} {p q : α → Bool} {l : List α} (le : ∀ x, p x → q x) {x : α}
    (mem : x ∈ l) (hp : p x = false) (hq : q x = true) : l.countP p < l.countP q := by
  induction l with
  | nil => cases mem
  | cons y l ih =>
    have tail : l.countP p ≤ l.countP q := List.countP_mono_left fun z _ => le z
    rw [List.countP_cons, List.countP_cons]
    rcases List.mem_cons.1 mem with rfl | mem
    · simp only [hp, hq]; simp; omega
    · have := ih mem
      have head : (if p y then 1 else 0) ≤ if q y then 1 else 0 := by
        by_cases h : p y
        · simp [h, le y h]
        · simp [h]
      omega

theorem undefinedCount_lt {types : TypeTable} {a b : Sheet} (h : Keeps a b) {ty : TypeId}
    {node : TypeNode} (known : types.get? ty = some node)
    (before : a.numbering.statusOf ty ≠ .defined) (after : b.numbering.statusOf ty = .defined) :
    undefinedCount types b.numbering < undefinedCount types a.numbering := by
  refine countP_lt (x := ty.toNat) ?_ ?_ ?_ ?_
  · intro i hb
    simp only [ne_eq, decide_eq_true_eq] at hb ⊢
    exact fun ha => hb (h _ ha)
  · rw [List.mem_range]
    exact (Array.getElem?_eq_some_iff.1 known).1
  · simp [TypeId.ofNat_toNat, after]
  · simp [TypeId.ofNat_toNat, before]

theorem BoundedAt.bind {α β : Type} {step : Writing α} {next : α → Writing β} {sheet : Sheet}
    (hs : BoundedAt step sheet)
    (hn : ∀ a middle, step sheet = .ok a middle → Keeps sheet middle → BoundedAt (next a) middle) :
    BoundedAt (step >>= next) sheet := by
  simp only [BoundedAt, Bind.bind, EStateM.bind] at hs ⊢
  cases h : step sheet with
  | error halt after => rwa [h] at hs
  | ok a middle =>
    rw [h] at hs
    have second := hn a middle h hs
    dsimp only [BoundedAt] at hs second ⊢
    cases h' : next a middle with
    | error halt after =>
      rw [h'] at second
      exact ⟨fun ty ht => second.1 ty (hs ty ht), second.2⟩
    | ok b after => rw [h'] at second; exact fun ty ht => second ty (hs ty ht)

namespace Bounded

variable {types : TypeTable} {d : Nat} {α β : Type}

theorem pure (a : α) : Bounded types d (Pure.pure a) := fun _ _ _ h => h

theorem fail (cause : DescribeError) : Bounded types d (TypeDescription.fail (α := α) cause) :=
  fun _ _ => ⟨fun _ h => h, nofun⟩

theorem bind {step : Writing α} {next : α → Writing β} (hs : Bounded types d step)
    (hn : ∀ a, Bounded types d (next a)) : Bounded types d (step >>= next) := fun sheet hd =>
  .bind (hs sheet hd) fun a middle _ keeps =>
    hn a middle (Nat.le_trans (undefinedCount_le keeps) hd)

theorem write (token : Token) : Bounded types d (TypeDescription.write token) := by
  intro sheet _
  unfold BoundedAt TypeDescription.write
  cases sheet.out.write? token with
  | none => exact ⟨fun _ h => h, nofun⟩
  | some out => exact fun _ h => h

theorem safePoint : Bounded types d TypeDescription.safePoint := fun _ _ _ h => h

theorem allocate (ty : TypeId) : Bounded types d (TypeDescription.allocate ty) :=
  fun _ _ _ h => Numbering.statusOf_allocate_of_defined h ty

theorem mark (n : TypeNumber) (status : TypeStatus) :
    Bounded types d (TypeDescription.mark n status) :=
  fun _ _ _ h => Numbering.statusOf_setStatus_of_defined h n status

theorem forM {step : α → Writing Unit} (hs : ∀ a, Bounded types d (step a)) (l : List α) :
    Bounded types d (ForM.forM l step) := by
  induction l with
  | nil => exact pure ()
  | cons a l ih => rw [List.forM_cons]; exact bind (hs a) fun _ => ih

theorem withSafePoints {item : α → Writing Unit} (hi : ∀ a, Bounded types d (item a))
    (l : List α) : Bounded types d (TypeDescription.withSafePoints item l) := by
  cases l with
  | nil => exact pure ()
  | cons a l => exact bind (hi a) fun _ => forM (fun b => bind safePoint fun _ => hi b) l

theorem members {child : TypeId → Writing Unit} (hc : ∀ ty, Bounded types d (child ty))
    (category : Aggregate) (size : Option UInt64) (fields : List Field) :
    Bounded types d (TypeDescription.members child category size fields) :=
  bind (write _) fun _ => bind
    (withSafePoints (fun _ => bind (write _) fun _ => bind (hc _) fun _ => write _) _)
    fun _ => write _

theorem body {child : TypeId → Writing Unit} (hc : ∀ ty, Bounded types d (child ty))
    (ty : TypeId) (n : TypeNumber) (node : TypeNode) :
    Bounded types d (TypeDescription.body child ty n node) := by
  unfold TypeDescription.body
  split
  · exact write _
  · exact write _
  · split
    · exact write _
    · exact fail _
  · split
    · exact bind (write _) fun _ => hc _
    · exact fail _
  · exact members hc _ _ _
  · exact members hc _ _ _
  · exact bind (write _) fun _ => bind (withSafePoints (fun _ => write _) _) fun _ => write _
  · exact bind (write _) fun _ => hc _
  · exact bind (write _) fun _ => hc _

end Bounded

theorem ne_defined_of_not_settled {status : TypeStatus} {full : Bool}
    (h : ¬ isSettled status full = true) : status ≠ .defined := by
  rintro rfl; exact h rfl

/-- A definition leaves its own type defined before it writes the references in its body. -/
theorem introduce_boundedAt {types : TypeTable} {d : Nat} {child : TypeId → Writing Unit}
    (hc : ∀ e, e + 1 = d → ∀ ty, Bounded types e (child ty)) {ty : TypeId} {node : TypeNode}
    (known : types.get? ty = some node) (full : Bool) {sheet : Sheet} {n : TypeNumber}
    (number : sheet.numbering.number? ty = some n)
    (unsettled : sheet.numbering.status n ≠ .defined)
    (count : undefinedCount types sheet.numbering ≤ d) :
    BoundedAt (introduce child ty n node full) sheet := by
  refine .bind (@Bounded.write types _ _ sheet count) fun _ middle step _ => ?_
  have same : middle.numbering = sheet.numbering := by
    unfold write at step
    split at step
    · cases step; rfl
    · cases step
  rw [← same] at number unsettled count
  split
  · split
    · exact Bounded.bind (Bounded.write _) (fun _ => Bounded.mark _ _) middle count
    · exact Bounded.fail _ middle count
  · refine .bind (@Bounded.mark types _ _ _ middle count) fun _ after step keeps => ?_
    have before : middle.numbering.statusOf ty ≠ .defined := by
      rwa [Numbering.statusOf_of_some number]
    have defined : after.numbering.statusOf ty = .defined := by
      cases step
      exact Numbering.statusOf_setStatus_self number
    have less := undefinedCount_lt keeps known before defined
    exact Bounded.body (hc (d - 1) (by omega)) ty n node after (by omega)

/-- A depth one greater than the number of undefined entries suffices. -/
theorem encodeWithin_bounded (types : TypeTable) (d : Nat) (ty : TypeId) (full : Bool) :
    Bounded types d (encodeWithin types (d + 1) ty full) := by
  induction d using Nat.strongRecOn generalizing ty full with
  | ind d ih =>
    intro sheet count
    unfold encodeWithin
    split
    · exact Bounded.fail _ sheet count
    · next node known =>
      refine .bind (@Bounded.allocate types _ ty sheet count) fun n middle step keeps => ?_
      cases step
      refine .bind (@Bounded.write types _ (.number _) _
        (Nat.le_trans (undefinedCount_le keeps) count)) fun _ after step keeps' => ?_
      have same : after.numbering = (sheet.numbering.allocate ty).2 := by
        unfold write at step
        split at step
        · cases step; rfl
        · cases step
      have count' := Nat.le_trans (undefinedCount_le keeps')
        (Nat.le_trans (undefinedCount_le keeps) count)
      refine .bind (fun _ h => h) fun seen now step _ => ?_
      cases step
      split
      · exact fun _ h => h
      · next h =>
        refine introduce_boundedAt ?_ known full ?_ (ne_defined_of_not_settled h) count'
        · rintro e rfl ty
          exact ih e (Nat.lt_succ_self e) ty false
        · rw [same]; exact Numbering.number?_allocate_self _ _

theorem undefinedCount_le_size (types : TypeTable) (numbering : Numbering) :
    undefinedCount types numbering ≤ types.size := by
  simpa [undefinedCount] using List.countP_le_length
    (p := fun i => decide (numbering.statusOf (.ofNat i) ≠ .defined)) (l := List.range types.size)

/-- The size of the table bounds the depth of every reference. -/
theorem encodeWithin_ne_depthSpent (types : TypeTable) (ty : TypeId) (full : Bool)
    (sheet after : Sheet) :
    encodeWithin types (types.size + 1) ty full sheet ≠ .error .depthSpent after := by
  intro h
  have bounded := encodeWithin_bounded types _ ty full sheet
    (undefinedCount_le_size types sheet.numbering)
  rw [BoundedAt, h] at bounded
  exact bounded.2 rfl

/-- Writes a reference to a type into the symbol in progress, with its definition or
cross-reference where it is due. When `full` is set, a type that is only cross-referenced gets its
definition now. -/
def encode (types : TypeTable) (ty : TypeId) (full : Bool) : Describing Sheet Unit := fun sheet =>
  match h : encodeWithin types (types.size + 1) ty full sheet with
  | .ok _ after => .ok () after
  | .error (.fault cause) after => .error cause after
  | .error .depthSpent after => absurd h (encodeWithin_ne_depthSpent types ty full sheet after)

end TypeDescription

end Stabs

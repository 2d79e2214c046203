import Stabs.Types.Table

/-!
# Operations on a type table

An operation adds one node at the end, or fills in or names one node, or is refused and changes
nothing. Whatever a node becomes, it stays in its category, it stays complete once it is, and it
keeps its tag. So the built-ins stay what they are, and an id stands for one type from its creation
on.
-/
namespace Stabs

namespace TypeTable

inductive Operation where
  | integer (name : String) (min max : Int64) (size : UInt64)
  | real (name : String) (size : UInt64)
  | pointerTo (target : TypeId)
  | arrayOf (element : TypeId) (length : UInt64)
  | functionReturning (returns : Option TypeId)
  | record (tag : Option String) (fields : List Field) (size : UInt64)
  | union (tag : Option String) (fields : List Field) (size : UInt64)
  | enumeration (tag : Option String) (values : List Enumerator)
  | declareRecord (tag : String)
  | declareUnion (tag : String)
  | declareEnumeration (tag : String)
  | add (node : TypeNode)
  | complete (ty : TypeId) (fields : List Field) (size : UInt64)
  | completeEnumeration (ty : TypeId) (values : List Enumerator)
  | setTypedefName (ty : TypeId) (name : String)

/-- The node that an operation is about, unless it creates one. -/
def Operation.target? : Operation → Option TypeId
  | complete ty _ _ => some ty
  | completeEnumeration ty _ => some ty
  | setTypedefName ty _ => some ty
  | _ => none

/-- The new id, nothing, or why the operation was refused. -/
abbrev Answer := Except TypeTableError (Option TypeId)

def created : TypeId × TypeTable → Answer × TypeTable
  | (ty, after) => (.ok (some ty), after)

/-- A table that is not updated stays. -/
def updated (table : TypeTable) : Except TypeTableError TypeTable → Answer × TypeTable
  | .ok after => (.ok none, after)
  | .error cause => (.error cause, table)

def perform (table : TypeTable) : Operation → Answer × TypeTable
  | .integer name min max size => created (table.integer name min max size)
  | .real name size => created (table.real name size)
  | .pointerTo target => created (table.pointerTo target)
  | .arrayOf element length => created (table.arrayOf element length)
  | .functionReturning returns => created (table.functionReturning returns)
  | .record tag fields size => created (table.record tag fields size)
  | .union tag fields size => created (table.union tag fields size)
  | .enumeration tag values => created (table.enumeration tag values)
  | .declareRecord tag => created (table.declareRecord tag)
  | .declareUnion tag => created (table.declareUnion tag)
  | .declareEnumeration tag => created (table.declareEnumeration tag)
  | .add node => created (table.add node)
  | .complete ty fields size => table.updated (table.complete ty fields size)
  | .completeEnumeration ty values => table.updated (table.completeEnumeration ty values)
  | .setTypedefName ty name => table.updated (table.setTypedefName ty name)

/-- Performs operations one after the other, going on behind those that are refused. -/
def performAll (table : TypeTable) (operations : List Operation) : TypeTable :=
  operations.foldl (fun table operation => (table.perform operation).2) table

end TypeTable

/-- What a node may become: it stays in its category and stays complete, and it keeps its tag. -/
structure TypeNode.Becomes (old new : TypeNode) : Prop where
  category : new.kind.category = old.kind.category
  complete : old.isComplete = true → new.isComplete = true
  tag : ∀ tag, old.name = some (.tag tag) → new.name = some (.tag tag)

namespace TypeNode.Becomes

theorem refl (node : TypeNode) : node.Becomes node := ⟨rfl, id, fun _ => id⟩

theorem trans {a b c : TypeNode} (h : a.Becomes b) (h' : b.Becomes c) : a.Becomes c where
  category := h'.category.trans h.category
  complete := h'.complete ∘ h.complete
  tag tag named := h'.tag tag (h.tag tag named)

end TypeNode.Becomes

namespace TypeTable

open TypeNode (Becomes)

/-- What comes of an update of one node: it is refused, or another node takes the place. -/
inductive Update (table : TypeTable) (ty : TypeId) : Except TypeTableError TypeTable → Prop
  | refused (cause : TypeTableError) : Update table ty (.error cause)
  | replaced (inside : ty.toNat < table.nodes.size) (node : TypeNode)
      (replaces : Replaces table.nodes[ty.toNat] node)
      (becomes : Becomes table.nodes[ty.toNat] node) :
      Update table ty (.ok (table.set ty.toNat inside node replaces))

/-- What an operation does to a table. -/
inductive Effect (table : TypeTable) (operation : Operation) : Answer × TypeTable → Prop
  | created (node : TypeNode) (creates : operation.target? = none) :
      Effect table operation (created (table.add node))
  | updated {ty : TypeId} {result : Except TypeTableError TypeTable}
      (target : operation.target? = some ty) (update : Update table ty result) :
      Effect table operation (table.updated result)

/-- Every node is still there, or what has become of it. -/
def Extends (table after : TypeTable) : Prop :=
  ∀ (i : Nat) (node : TypeNode), table.nodes[i]? = some node →
    ∃ node', after.nodes[i]? = some node' ∧ Becomes node node'

/-- What every operation and every succession of operations leaves as it is. -/
structure Stable (table : TypeTable) : Prop where
  int : ∃ min max name size, table.get? .int = some ⟨.integer min max, some (.typedef name), size⟩
  char : ∃ min max name size, table.get? .char = some ⟨.integer min max, some (.typedef name), size⟩
  void : ∃ name size, table.get? .void = some ⟨.void, some (.typedef name), size⟩
  reread : ofNodes table.nodes = .ok table
  creates : ∀ operation, operation.target? = none → table.size < UInt32.size →
    ∃ ty node, (table.perform operation).1 = .ok (some ty) ∧ ty.toNat = table.size ∧
      (table.perform operation).2.nodes = table.nodes.push node
  updates : ∀ operation ty, operation.target? = some ty →
    (table.perform operation).2.size = table.size ∧
      ∀ other, other ≠ ty → (table.perform operation).2.get? other = table.get? other
  refuses : ∀ operation cause, (table.perform operation).1 = .error cause →
    (table.perform operation).2 = table
  keeps : ∀ later, table.Extends (table.performAll later)

variable {table after : TypeTable}

theorem update_complete (table : TypeTable) (ty : TypeId) (fields : List Field) (size : UInt64) :
    Update table ty (table.complete ty fields size) := by
  unfold complete
  split
  · next inside =>
    split
    · next kind => exact .replaced inside _ _ ⟨by rw [kind]; rfl, fun _ => rfl, fun _ => id⟩
    · next kind => exact .replaced inside _ _ ⟨by rw [kind]; rfl, fun _ => rfl, fun _ => id⟩
    · exact .refused _
  · exact .refused _

theorem update_completeEnumeration (table : TypeTable) (ty : TypeId) (values : List Enumerator) :
    Update table ty (table.completeEnumeration ty values) := by
  unfold completeEnumeration
  split
  · next inside =>
    split
    · next kind => exact .replaced inside _ _ ⟨by rw [kind]; rfl, fun _ => rfl, fun _ => id⟩
    · exact .refused _
  · exact .refused _

/-- A node with a tag cannot be named by a typedef. -/
theorem update_setTypedefName (table : TypeTable) (ty : TypeId) (name : String) :
    Update table ty (table.setTypedefName ty name) := by
  unfold setTypedefName
  split
  · next inside =>
    split
    · exact .refused _
    · next untagged =>
      exact .replaced inside _ _ ⟨rfl, id, fun tag named => absurd named (untagged tag)⟩
  · exact .refused _

theorem effect_perform (table : TypeTable) (operation : Operation) :
    Effect table operation (table.perform operation) := by
  cases operation with
  | complete ty fields size => exact .updated rfl (update_complete table ty fields size)
  | completeEnumeration ty values =>
    exact .updated rfl (update_completeEnumeration table ty values)
  | setTypedefName ty name => exact .updated rfl (update_setTypedefName table ty name)
  | _ => exact .created _ rfl

theorem toNat_add (small : table.size < UInt32.size) (node : TypeNode) :
    (table.add node).1.toNat = table.size := TypeId.toNat_ofNat small

theorem Extends.refl (table : TypeTable) : table.Extends table :=
  fun _ node known => ⟨node, known, Becomes.refl node⟩

theorem Extends.trans {a b c : TypeTable} (h : a.Extends b) (h' : b.Extends c) : a.Extends c := by
  intro i node known
  obtain ⟨node', known', becomes⟩ := h i node known
  obtain ⟨node'', known'', becomes'⟩ := h' i node' known'
  exact ⟨node'', known'', becomes.trans becomes'⟩

theorem extends_add (table : TypeTable) (node : TypeNode) : table.Extends (table.add node).2 := by
  intro i old known
  refine ⟨old, ?_, Becomes.refl old⟩
  obtain ⟨inside, -⟩ := Array.getElem?_eq_some_iff.1 known
  rw [add, Array.getElem?_push, if_neg (Nat.ne_of_lt inside)]
  exact known

theorem extends_set {i : Nat} (inside : i < table.nodes.size) {node : TypeNode}
    (replaces : Replaces table.nodes[i] node) (becomes : Becomes table.nodes[i] node) :
    table.Extends (table.set i inside node replaces) := by
  intro j old known
  by_cases same : i = j
  · subst same
    obtain ⟨-, rfl⟩ := Array.getElem?_eq_some_iff.1 known
    exact ⟨node, by simp [set], becomes⟩
  · exact ⟨old, by rwa [set, Array.getElem?_set_ne _ same], Becomes.refl old⟩

theorem extends_perform (table : TypeTable) (operation : Operation) :
    table.Extends (table.perform operation).2 := by
  have effect := effect_perform table operation
  generalize table.perform operation = result at effect ⊢
  cases effect with
  | created node => exact extends_add table node
  | updated target update =>
    cases update with
    | refused cause => exact .refl table
    | replaced inside node replaces becomes => exact extends_set inside replaces becomes

theorem extends_performAll (table : TypeTable) (operations : List Operation) :
    table.Extends (table.performAll operations) := by
  induction operations generalizing table with
  | nil => exact .refl table
  | cons operation rest ih => exact (extends_perform table operation).trans (ih _)

theorem exists_typedef {node : TypeNode} (named : node.typedefName?.isSome = true) :
    ∃ name, node.name = some (.typedef name) := by
  obtain ⟨kind, _ | (_ | name), size⟩ := node
  · cases named
  · cases named
  · exact ⟨name, rfl⟩

theorem exists_integer {node : TypeNode} {i : Nat} (fits : node.fits i = true) (h : i < 2) :
    ∃ min max name size, node = ⟨.integer min max, some (.typedef name), size⟩ := by
  have both : node.isInteger = true ∧ node.typedefName?.isSome = true := by
    match i, h with
    | 0, _ => exact Bool.and_eq_true_iff.1 fits
    | 1, _ => exact Bool.and_eq_true_iff.1 fits
  obtain ⟨name, named⟩ := exists_typedef both.2
  obtain ⟨kind, _, size⟩ := node
  cases named
  cases kind with
  | integer min max => exact ⟨min, max, name, size, rfl⟩
  | _ => cases both.1

theorem exists_void {node : TypeNode} (fits : node.fits 2 = true) :
    ∃ name size, node = ⟨.void, some (.typedef name), size⟩ := by
  obtain ⟨void, typedef⟩ := Bool.and_eq_true_iff.1 fits
  obtain ⟨name, named⟩ := exists_typedef typedef
  obtain ⟨kind, _, size⟩ := node
  cases named
  cases kind with
  | void => exact ⟨name, size, rfl⟩
  | _ => cases void

theorem creates_perform {operation : Operation} (creates : operation.target? = none)
    (small : table.size < UInt32.size) :
    ∃ ty node, (table.perform operation).1 = .ok (some ty) ∧ ty.toNat = table.size ∧
      (table.perform operation).2.nodes = table.nodes.push node := by
  have effect := effect_perform table operation
  generalize table.perform operation = result at effect ⊢
  cases effect with
  | created node => exact ⟨_, node, rfl, toNat_add small node, rfl⟩
  | updated target update => cases creates.symm.trans target

theorem updates_perform {operation : Operation} {ty : TypeId}
    (target : operation.target? = some ty) : (table.perform operation).2.size = table.size ∧
      ∀ other, other ≠ ty → (table.perform operation).2.get? other = table.get? other := by
  have effect := effect_perform table operation
  generalize table.perform operation = result at effect ⊢
  cases effect with
  | created node creates => cases creates.symm.trans target
  | updated target' update =>
    cases target.symm.trans target'
    cases update with
    | refused cause => exact ⟨rfl, fun _ _ => rfl⟩
    | replaced inside node replaces becomes =>
      refine ⟨Array.size_set inside, fun other different => ?_⟩
      exact Array.getElem?_set_ne inside fun same => different (TypeId.toNat_inj.1 same.symm)

theorem refuses_perform {operation : Operation} {cause : TypeTableError}
    (refused : (table.perform operation).1 = .error cause) :
    (table.perform operation).2 = table := by
  have effect := effect_perform table operation
  generalize table.perform operation = result at effect refused ⊢
  cases effect with
  | created node => cases refused
  | updated target update =>
    cases update with
    | refused cause => rfl
    | replaced => cases refused

/-- After any operations on a fresh table, refused ones included, the table starts with its
built-ins and is accepted as it stands. Every further operation adds one node under the next id, or
replaces no node but its own, or is refused and changes nothing; and whatever operations follow,
every node stays in its category, stays complete once it is, and keeps its tag. -/
theorem stable_performAll (operations : List Operation) :
    Stable (builtin.performAll operations) := by
  generalize builtin.performAll operations = table
  have three := table.builtins.three
  have known (ty : TypeId) (h : ty.toNat < 3) :
      ∃ node, table.get? ty = some node ∧ node.fits ty.toNat = true :=
    ⟨_, Array.getElem?_eq_getElem (Nat.lt_of_lt_of_le h three), table.builtins.fits _ _⟩
  obtain ⟨int, int_known, int_fits⟩ := known .int (by decide)
  obtain ⟨char, char_known, char_fits⟩ := known .char (by decide)
  obtain ⟨void, void_known, void_fits⟩ := known .void (by decide)
  exact {
    int := by
      obtain ⟨min, max, name, size, rfl⟩ := exists_integer int_fits (by decide)
      exact ⟨min, max, name, size, int_known⟩
    char := by
      obtain ⟨min, max, name, size, rfl⟩ := exists_integer char_fits (by decide)
      exact ⟨min, max, name, size, char_known⟩
    void := by
      obtain ⟨name, size, rfl⟩ := exists_void void_fits
      exact ⟨name, size, void_known⟩
    reread := ofNodes_nodes table
    creates := fun _ => creates_perform
    updates := fun _ _ => updates_perform
    refuses := fun _ _ => refuses_perform
    keeps := extends_performAll table }

/-- A record is completed through its tag, which a typedef cannot replace. An integer cannot be
completed as a record, but the built-in one takes another typedef name. -/
example :
    (builtin.performAll [.declareRecord "node", .pointerTo ⟨3⟩,
      .complete ⟨3⟩ [⟨some "next", ⟨4⟩, 0, 32⟩] 4, .setTypedefName ⟨3⟩ "node_t",
      .complete .int [] 8, .setTypedefName .int "word"]).nodes.toList.map
        (fun node => (node.kind.category, node.name.map TypeName.text, node.size)) =
      [("integer", some "word", some 4), ("integer", some "char", some 1),
        ("void", some "void", none), ("record", some "node", some 4),
        ("pointer", none, some 4)] := by
  decide

end TypeTable

end Stabs

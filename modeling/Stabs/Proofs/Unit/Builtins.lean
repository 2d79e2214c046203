import Stabs.Proofs.Unit.Journal

/-!
# The built-in types of a unit

The typedefs of the built-in types are written before anything else and refer to nothing further.
So the built-in types take the first three numbers.
-/
namespace Stabs

open TypeDescription

variable {types : TypeTable} {c c' : Context} {tasks : List Task} {entries journal : List Entry}

theorem TypeNode.exists_of_isInteger {node : TypeNode} (h : node.isInteger = true) :
    ∃ min max, node.kind = .integer min max := by
  unfold isInteger at h
  split at h
  · next min max hk => exact ⟨min, max, hk⟩
  · cases h

theorem TypeNode.kind_of_isVoid {node : TypeNode} (h : node.isVoid = true) :
    node.kind = .void := by
  unfold isVoid at h
  split at h
  · next hk => exact hk
  · cases h

/-- A node of a built-in type: an integer or void under a typedef name. -/
structure TypeNode.Builtin (node : TypeNode) : Prop where
  kind : (∃ min max, node.kind = .integer min max) ∨ node.kind = .void
  named : node.typedefName?.isSome = true

theorem TypeTable.builtin_nodes (types : TypeTable) : ∃ int char void rest,
    types.nodes.toList = int :: char :: void :: rest ∧
      int.Builtin ∧ char.Builtin ∧ void.Builtin := by
  have three := types.builtins.three
  have int := types.builtins.fits 0 (by omega)
  have char := types.builtins.fits 1 (by omega)
  have void := types.builtins.fits 2 (by omega)
  simp only [TypeNode.fits, Bool.and_eq_true] at int char void
  refine ⟨_, _, _, types.nodes.toList.drop 3, ?_,
    ⟨.inl (TypeNode.exists_of_isInteger int.1), int.2⟩,
    ⟨.inl (TypeNode.exists_of_isInteger char.1), char.2⟩,
    ⟨.inr (TypeNode.kind_of_isVoid void.1), void.2⟩⟩
  simp only [← Array.getElem_toList]
  rw [List.getElem_cons_drop, List.getElem_cons_drop, List.getElem_cons_drop, List.drop_zero]

/-- The first typedefs are those of the built-in types. -/
theorem ofTypedefs_builtins (types : TypeTable) : ∃ rest, Task.ofTypedefs types =
    .typedef .int :: .typedef .char :: .typedef .void :: rest := by
  obtain ⟨int, char, void, rest, nodes, hi, hc, hv⟩ := types.builtin_nodes
  unfold Task.ofTypedefs TypeTable.entries
  rw [nodes]
  simp only [List.zipIdx_cons, List.map_cons, List.filter_cons, hi.named, hc.named, hv.named,
    if_true]
  exact ⟨_, rfl⟩

/-- The definition of a built-in type refers to no other. -/
theorem TypeDescription.Steps.order_of_builtin {ty : TypeId} {node : TypeNode} {ms : List Mark}
    {N M : Numbering} (h : Steps types N [.reference ty true] ms M [])
    (known : types.get? ty = some node) (builtin : node.Builtin) (tidy : N.Tidy)
    (new : N.number? ty = none) : M.order = N.order ++ [ty] := by
  have clear : crossReference? node true = none := by
    rcases builtin.kind with ⟨min, max, hk⟩ | hk <;> simp [crossReference?, aggregate?, hk]
  have single (n : TypeNumber) : ∃ token, layout ty n node = [.token token] := by
    rcases builtin.kind with ⟨min, max, hk⟩ | hk <;> exact ⟨_, by simp only [layout, hk]; rfl⟩
  cases h with
  | cons first more =>
    cases first with
    | unknown missing => simp [known] at missing
    | settled _ enough =>
      rw [Numbering.status_allocate_fst tidy, Numbering.statusOf_of_none new] at enough
      cases enough
    | crossReferenced known' _ crossed =>
      cases known.symm.trans known'
      simp [clear] at crossed
    | unnamed known' _ crossed =>
      cases known.symm.trans known'
      simp [clear] at crossed
    | defined known' =>
      cases known.symm.trans known'
      obtain ⟨token, hl⟩ := single (N.allocate ty).1
      rw [hl] at more
      cases more with
      | cons first more =>
        cases first
        cases more
        rw [Numbering.order_introduce]
        exact Numbering.order_allocate_of_none new

/-- The typedef of a built-in type adds that type alone to the numbering, if it is not out yet. -/
theorem Acts.order_of_builtin {ty : TypeId} {node : TypeNode}
    (h : Acts types c (.typedef ty) entries c') (known : types.get? ty = some node)
    (builtin : node.Builtin) (tidy : c.numbering.Tidy)
    (same : ∀ x, x ∈ c.typedefsWritten ↔ x ∈ c.numbering.order) :
    c'.numbering.order = (if ty ∈ c.numbering.order then c.numbering.order
      else c.numbering.order ++ [ty]) ∧
      ∀ x, x ∈ c'.typedefsWritten ↔ x ∈ c'.numbering.order := by
  cases h with
  | typedefOut out =>
    rw [if_pos ((same ty).1 out)]
    exact ⟨rfl, same⟩
  | @described _ symbol marks N due steps =>
    rw [Task.due] at due
    split at due
    · cases due
    · next waiting =>
      have new : ty ∉ c.numbering.order := by
        rw [← same]
        simpa using waiting
      simp only [Option.map_eq_some_iff] at due
      obtain ⟨name, -, rfl⟩ := due
      have order := steps.order_of_builtin known builtin tidy (Numbering.number?_eq_none.2 new)
      rw [if_neg new]
      refine ⟨order, fun x => ?_⟩
      simp only [order, Task.written, List.mem_insert_iff, same, List.mem_append,
        List.mem_singleton]
      exact or_comm

/-- Typedefs of built-in types that come first number these types in order. -/
theorem Performs.order_of_builtins {tys : List TypeId}
    (h : Performs types c (tys.map .typedef ++ tasks) journal c')
    (builtin : ∀ ty ∈ tys, ∃ node, types.get? ty = some node ∧ node.Builtin)
    (sound : Sound types c.numbering)
    (same : ∀ x, x ∈ c.typedefsWritten ↔ x ∈ c.numbering.order) :
    tys.foldl (fun order ty => if ty ∈ order then order else order ++ [ty]) c.numbering.order <+:
      c'.numbering.order := by
  induction tys generalizing c journal with
  | nil => exact h.grows.order
  | cons ty tys ih =>
    cases h with
    | cons first rest =>
      obtain ⟨node, known, hb⟩ := builtin ty List.mem_cons_self
      obtain ⟨order, same'⟩ := first.order_of_builtin known hb sound.tidy same
      rw [List.foldl_cons, ← order]
      exact ih rest (fun x mem => builtin x (List.mem_cons_of_mem _ mem)) (first.sound sound) same'

/-- The built-in types take the first three numbers. -/
theorem Performs.builtins {u : CompilationUnit} {target : Target} {block : UInt32}
    (h : Performs u.types (.fresh block) (Task.prelude u target ++ tasks) journal c') :
    [.int, .char, .void] <+: c'.numbering.order := by
  obtain ⟨int, char, void, rest, nodes, hi, hc, hv⟩ := u.types.builtin_nodes
  have get (ty : TypeId) : u.types.get? ty = (int :: char :: void :: rest)[ty.toNat]? := by
    rw [TypeTable.get?, ← nodes, Array.getElem?_toList]
  have builtin : ∀ ty ∈ [TypeId.int, .char, .int, .char, .void],
      ∃ node, u.types.get? ty = some node ∧ node.Builtin := by
    intro ty mem
    simp only [List.mem_cons, List.not_mem_nil, or_false] at mem
    rcases mem with rfl | rfl | rfl | rfl | rfl
    · exact ⟨int, get _, hi⟩
    · exact ⟨char, get _, hc⟩
    · exact ⟨int, get _, hi⟩
    · exact ⟨char, get _, hc⟩
    · exact ⟨void, get _, hv⟩
  obtain ⟨others, typedefs⟩ := ofTypedefs_builtins u.types
  rw [Task.prelude, typedefs] at h
  cases h with
  | cons first h =>
    cases first with
    | described due => cases due
    | sourceFile =>
      have front := @order_of_builtins _ _ _ _ _ [.int, .char, .int, .char, .void] h builtin
        (sound_empty u.types) (by simp [Context.fresh])
      simp only [Context.fresh, Numbering.order_empty] at front
      exact front

theorem Performs.number?_builtins {u : CompilationUnit} {target : Target} {block : UInt32}
    (h : Performs u.types (.fresh block) (Task.prelude u target ++ tasks) journal c') :
    c'.numbering.number? .int = some .int ∧ c'.numbering.number? .char = some .char ∧
      c'.numbering.number? .void = some ⟨3⟩ := by
  obtain ⟨rest, order⟩ := h.builtins
  refine ⟨?_, ?_, ?_⟩ <;> rw [Numbering.number?_eq_some, ← order]
  · exact ⟨List.mem_append_left _ (by decide), rfl⟩
  · exact ⟨List.mem_append_left _ (by decide), rfl⟩
  · exact ⟨List.mem_append_left _ (by decide), rfl⟩

end Stabs

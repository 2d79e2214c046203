import Stabs.Proofs.Interchange.Exact
import Stabs.Proofs.Interchange.Keys

/-!
# Units come back

Reading the JSON form of a unit gives the unit back as long as the form is not nested deeper than
the reader allows; beyond that the text is refused as malformed, wherever in the unit the depth is
exceeded. What is looked at in the order of the text opens its containers without counting them, so
the limit has to leave room for these.
-/
namespace Stabs

open Json

namespace InOrder

variable {α σ : Type} {read : InOrder α} {write : α → Json} {depth least : Nat}

/-- A value is read as `a`, and refused exactly when it is nested too deep. -/
def Reads (read : InOrder α) (depth : Nat) (v : Json) (a : α) : Prop :=
  read depth (.ofJson v) = if v.depth ≤ depth then .ok a else .error (.text .malformed)

/-- Whatever was written is read back. This holds from some depth on. -/
def ReadsBack (read : InOrder α) (write : α → Json) (least : Nat) : Prop :=
  ∀ a depth, least ≤ depth → Reads read depth (write a) a

theorem reads_content (depth : Nat) (v : Json) : Reads content depth v v := by
  rw [Reads, content, Reading.take_ofJson]
  split <;> rfl

theorem scalar_ofJson {look : Json → Option α} {v : Json} (flat : v.depth = 0) (depth : Nat) :
    scalar look depth (.ofJson v) = orShape (look v) := by
  have found : content depth (.ofJson v) = .ok v := by
    rw [reads_content depth v, if_pos (by omega)]
  cases v with
  | array vs | object ms => simp [Json.depth] at flat
  | _ =>
    simp only [Reading.ofJson] at found
    simp [scalar, whole, Reading.ofJson, found, bind, Except.bind]

theorem ReadsBack.scalar {look : Json → Option α} (h : Restores look write)
    (flat : ∀ a, (write a).depth = 0) : ReadsBack (scalar look) write 0 := by
  intro a depth _
  rw [Reads, scalar_ofJson (flat a), h a, if_pos (by rw [flat a]; exact Nat.zero_le _)]
  rfl

theorem ReadsBack.nullable (h : ReadsBack read write least) (filled : ∀ a, write a ≠ .null) :
    ReadsBack (nullable read) (Json.nullable write) least := by
  intro a depth room
  cases a with
  | none => simp [Reads, Json.nullable, Reading.ofJson, InOrder.nullable, Leaf.whole, Json.depth]
  | some a =>
    have some_ofJson {v : Json} (present : v ≠ .null) :
        InOrder.nullable read depth (.ofJson v) = (read depth (.ofJson v)).map some := by
      cases v <;> first | rfl | exact absurd rfl present
    rw [Reads, Json.nullable, some_ofJson (filled a), h a depth room]
    split <;> rfl

theorem ReadsBack.mapM (h : ReadsBack read write least) (room : least ≤ depth) (as : List α) :
    (Reading.ofJsons (as.map write)).mapM (read depth) =
      if depthAll (as.map write) ≤ depth then .ok as else .error (.text .malformed) := by
  induction as with
  | nil => simp [Reading.ofJsons, depthAll, pure, Except.pure]
  | cons a as ih =>
    simp only [List.map_cons, Reading.ofJsons, List.mapM_cons, ih, depthAll_cons_le]
    rw [h a depth room]
    by_cases head : (write a).depth ≤ depth <;>
      by_cases tail : depthAll (as.map write) ≤ depth <;>
      simp [head, tail, bind, Except.bind, pure, Except.pure]

theorem ReadsBack.list (h : ReadsBack read write least) :
    ReadsBack (list read) (fun as => .array (as.map write)) (least + 1) := by
  intro as depth room
  obtain ⟨depth, rfl⟩ : ∃ d, depth = d + 1 := ⟨depth - 1, by omega⟩
  simp only [Reads, Reading.ofJson, InOrder.list, Nat.add_sub_cancel,
    h.mapM (Nat.le_of_succ_le_succ room) as, Json.depth, Nat.add_le_add_iff_right]
  split <;> rfl

/-! ## Records -/

@[simp] theorem ok_bind (a : α) (f : α → Except UnitError σ) : (Except.ok a >>= f) = f a := rfl

@[simp] theorem ok_map (a : α) (f : α → σ) :
    Except.map f (Except.ok a : Except UnitError α) = .ok (f a) := rfl

@[simp] theorem ite_bind (p : Prop) [Decidable p] (x : Except UnitError α) (fault : UnitError)
    (f : α → Except UnitError σ) :
    (if p then x else .error fault) >>= f = if p then x >>= f else .error fault := by
  split <;> rfl

@[simp] theorem ite_map (p : Prop) [Decidable p] (a : α) (fault : UnitError) (f : α → σ) :
    Except.map f (if p then .ok a else .error fault) = if p then .ok (f a) else .error fault := by
  split <;> rfl

theorem ite_conj (p q : Prop) [Decidable p] [Decidable q] (a b : α) :
    (if p ∧ q then a else b) = if p then if q then a else b else b := by
  by_cases p <;> simp [*]

variable {fields : Fields σ α} (add : σ → String → Reading → Except UnitError σ)

theorem object_ofJson (ms : List (String × Json)) :
    object fields depth (.ofJson (.object ms)) =
      addMembers (fields.add (depth - 1)) fields.start (Reading.ofMembers ms) >>= fields.finish :=
  rfl

theorem record_ofJson (keys : List String) (ms : List (String × Json)) :
    record keys fields depth (.ofJson (.object ms)) =
      addMembers (fields.add (depth - 1)) fields.start (Reading.ofMembers ms) >>= fields.finish :=
  rfl

theorem depth_object (ms : List (String × Json)) :
    (Json.object ms).depth = depthMembers ms + 1 := by
  rw [Json.depth]

@[simp] theorem addMembers_nil (draft : σ) :
    addMembers add draft (Reading.ofMembers []) = .ok draft := rfl

@[simp] theorem addMembers_cons (draft : σ) (key : String) (v : Json) (ms : List (String × Json)) :
    addMembers add draft (Reading.ofMembers ((key, v) :: ms)) =
      add draft key (.ofJson v) >>= fun draft => addMembers add draft (Reading.ofMembers ms) := rfl

@[simp] theorem fill_none (read : InOrder α) (depth : Nat) (r : Reading) :
    fill none read depth r = (read depth r).map some := rfl

/-- Members that a draft only keeps come back behind the last of them, in reverse. -/
theorem addMembers_kept {keep : List (String × Json) → σ} {ms : List (String × Json)}
    (h : ∀ kept, ∀ m ∈ ms, add (keep kept) m.1 (.ofJson m.2) =
      (content depth (.ofJson m.2)).map fun v => keep ((m.1, v) :: kept))
    (kept others : List (String × Json)) :
    addMembers add (keep kept) (Reading.ofMembers (ms ++ others)) =
      if depthMembers ms ≤ depth then
        addMembers add (keep (ms.reverse ++ kept)) (Reading.ofMembers others)
      else .error (.text .malformed) := by
  induction ms generalizing kept with
  | nil => simp [depthMembers]
  | cons m ms ih =>
    have first := h kept m List.mem_cons_self
    have later := ih (fun kept m mem => h kept m (List.mem_cons_of_mem _ mem)) ((m.1, m.2) :: kept)
    rw [reads_content, ite_map] at first
    rw [List.cons_append, addMembers_cons, first, ite_bind, ok_bind, later]
    simp only [depthMembers_cons_le, ite_conj, List.reverse_cons, List.append_assoc,
      List.cons_append, List.nil_append]

theorem readsBack_text : ReadsBack (scalar asText?) .string 0 :=
  .scalar (fun _ => rfl) fun _ => rfl

theorem readsBack_uint64 : ReadsBack (scalar asUInt64?) (fun n => .nat n.toNat) 0 :=
  .scalar asUInt64?_toNat fun _ => rfl

theorem readsBack_typeId : ReadsBack (scalar TypeId.ofJson?) TypeId.toJson 0 :=
  .scalar restores_typeId fun _ => rfl

end InOrder

open InOrder

@[simp] theorem TypeName.toJson_ne_null (name : TypeName) : name.toJson ≠ .null := by
  cases name <;> simp [toJson]

theorem TypeName.readsBack : ReadsBack inOrder toJson 1 := by
  intro name depth room
  have flat : name.toJson.depth = 1 := by cases name <;> rfl
  rw [Reads, flat, if_pos room]
  cases name <;> rfl

namespace TypeNode

theorem Draft.add_kept {key : String} (h : key ≠ "name" ∧ key ≠ "size") (depth : Nat)
    (draft : Draft) (r : Reading) :
    draft.add depth key r =
      (InOrder.content depth r).map fun v =>
        { draft with category := (key, v) :: draft.category } := by
  simp [Draft.add, h.1, h.2]
  rfl

/-- No field of a category has a key of the node itself. -/
theorem key_category (node : TypeNode) :
    ∀ m ∈ node.kind.toMembers, m.1 ≠ "name" ∧ m.1 ≠ "size" := by
  cases node.kind <;> simp [TypeKind.toMembers]

theorem readsBack : ReadsBack inOrder toJson 2 := by
  intro node depth room
  obtain ⟨depth, rfl⟩ : ∃ d, depth = d + 1 := ⟨depth - 1, by omega⟩
  have kept := addMembers_kept (Draft.add depth)
    (fun kept m mem => Draft.add_kept (node.key_category m mem) depth { category := kept }
      (.ofJson m.2)) []
  have name := TypeName.readsBack.nullable TypeName.toJson_ne_null node.name depth (by omega)
  have size := readsBack_uint64.nullable (by simp [nat]) node.size depth (Nat.zero_le _)
  have finished : Draft.finish ⟨some node.name, some node.size, node.kind.toMembers.reverse⟩ =
      .ok node := by
    rw [Draft.finish, List.reverse_reverse, TypeKind.restores]
    rfl
  rw [Reads] at name size
  rw [Reads, inOrder, toJson, object_ofJson, Nat.add_sub_cancel, kept]
  simp [Draft.add, name, size, finished, depth_object, depthMembers_append_le,
    depthMembers_cons_le, depthMembers_nil_le, ite_conj, pure, Except.pure]

end TypeNode

theorem TypeTable.readsBack : ReadsBack inOrder toJson 3 := by
  intro types depth room
  have nodes := TypeNode.readsBack.list types.nodes.toList depth room
  rw [Reads] at nodes
  rw [Reads, inOrder, toJson, nodes, ite_bind, ok_bind, ofNodes_nodes]
  rfl

theorem Tag.readsBack : ReadsBack inOrder toJson 1 := by
  intro tag depth room
  obtain ⟨depth, rfl⟩ : ∃ d, depth = d + 1 := ⟨depth - 1, by omega⟩
  -- As variables, so that no bound of a number is compared by computation.
  have shape (name ty : Json)
      (named : Reads (InOrder.nullable (scalar asText?)) depth name tag.name)
      (typed : Reads (scalar TypeId.ofJson?) depth ty tag.ty) :
      Reads inOrder (depth + 1) (.object [("name", name), ("ty", ty)]) tag := by
    rw [Reads] at named typed
    rw [Reads, inOrder, record_ofJson, Nat.add_sub_cancel]
    simp [Draft.add, named, typed, Draft.finish, orShape, depth_object, depthMembers_cons_le,
      depthMembers_nil_le, ite_conj, pure, Except.pure]
  exact shape _ _ (readsBack_text.nullable (by simp) tag.name depth (Nat.zero_le _))
    (readsBack_typeId tag.ty depth (Nat.zero_le _))

theorem Declaration.key_ne_item (decl : Declaration) : ∀ m ∈ decl.toMembers, m.1 ≠ "item" := by
  cases h : decl.kind <;> simp [toMembers, DeclarationKind.toMembers, h]

namespace Item

theorem Draft.add_kept {key : String} (h : key ≠ "item") (depth : Nat) (draft : Draft)
    (r : Reading) :
    draft.add depth key r =
      (InOrder.content depth r).map fun v =>
        { draft with content := (key, v) :: draft.content } := by
  simp [Draft.add]
  rfl

/-- The members behind the variant are kept, and looked at when the last of them is there. -/
theorem read_members {name : String} {ms : List (String × Json)} {item : Item}
    (variant : asVariantName? (.string name) = some name) (keys : ∀ m ∈ ms, m.1 ≠ "item")
    (content : ofContent? name (.object ms) = some item) {depth : Nat} (room : 1 ≤ depth) :
    Reads inOrder depth (.object (("item", .string name) :: ms)) item := by
  obtain ⟨depth, rfl⟩ : ∃ d, depth = d + 1 := ⟨depth - 1, by omega⟩
  have kept := addMembers_kept (Draft.add depth)
    (fun kept m mem => Draft.add_kept (keys m mem) depth { variant := some name, content := kept }
      (.ofJson m.2)) [] []
  have named : scalar asVariantName? depth (.ofJson (.string name)) = .ok name := by
    rw [scalar_ofJson rfl, variant]
    rfl
  have opened : inOrder (depth + 1) (.ofJson (.object (("item", .string name) :: ms))) =
      InOrder.object ⟨{}, Draft.add, Draft.finish⟩ (depth + 1)
        (.ofJson (.object (("item", .string name) :: ms))) := rfl
  simp at kept
  rw [Reads, opened, object_ofJson, Nat.add_sub_cancel, addMembers_cons]
  simp [Draft.add, named, kept, Draft.finish, content, orShape, Json.depth, depthMembers,
    pure, Except.pure]

theorem readsBack : ReadsBack inOrder toJson 1 := by
  intro item depth room
  cases item with
  | symbol decl =>
    have content : ofContent? "symbol" (.object decl.toMembers) = some (.symbol decl) := by
      have read := Declaration.restores decl
      rw [Declaration.toJson] at read
      rw [ofContent?, read]
      rfl
    exact read_members rfl decl.key_ne_item content room
  | function definition =>
    have content : ofContent? "function" (.object definition.toMembers) =
        some (.function definition) := by
      rw [ofContent?, FunctionDefinition.restores]
      rfl
    exact read_members rfl (by simp [FunctionDefinition.toMembers]) content room

end Item

theorem CompilationUnit.readsBack : ReadsBack inOrder toJson 4 := by
  intro u depth room
  obtain ⟨depth, rfl⟩ : ∃ d, depth = d + 1 := ⟨depth - 1, by omega⟩
  have sourceFile := readsBack_text u.sourceFile depth (Nat.zero_le _)
  have types := TypeTable.readsBack u.types depth (by omega)
  have tags := Tag.readsBack.list u.tags depth (by omega)
  have items := Item.readsBack.list u.items depth (by omega)
  rw [Reads] at sourceFile types tags items
  rw [Reads, inOrder, toJson, record_ofJson, Nat.add_sub_cancel]
  simp [Draft.add, sourceFile, types, tags, items, Draft.finish, orShape, depth_object,
    depthMembers_cons_le, depthMembers_nil_le, ite_conj, pure, Except.pure]

/-- The text of a unit reads back as the unit, unless its arrays and objects are nested more than
127 deep; such a text is malformed. -/
theorem CompilationUnit.parse_render (u : CompilationUnit) :
    parse u.render = if u.toJson.depth ≤ 127 then .ok u else .error (.text .malformed) := by
  have read := readsBack u depthLimit (by decide)
  rw [Reads] at read
  simp only [parse, InOrder.parse, render, Document.ofText_pretty u.exact, read, orText]
  rw [depthLimit]
  split <;> rfl

end Stabs

import Stabs.Proofs.Unit.Tasks

/-!
# Walking a unit

Every step of a unit performs its tasks in order, so describing a unit is performing the tasks of
the unit.
-/
namespace Stabs

namespace Context

theorem forM_flatMap {α : Type} {types : TypeTable} {tasks : α → List Task}
    {step : α → Emitting Unit} (h : ∀ a, step a = performAll types (tasks a)) (l : List α) :
    forM l step = performAll types (l.flatMap tasks) := by
  induction l with
  | nil => rfl
  | cons a l ih => rw [List.forM_cons, List.flatMap_cons, performAll_append, ih, h]

/-- The type of a complete tag is defined by its description, and marking it so changes nothing. -/
theorem describe_ofTag {types : TypeTable} {name : String} {ty : TypeId} {node : TypeNode}
    (known : types.get? ty = some node) (complete : node.isComplete = true) :
    (do
      describe types (.ofTag name ty)
      modify fun c =>
        { c with numbering :=
            (c.numbering.allocate ty).2.setStatus (c.numbering.allocate ty).1 .defined }) =
      describe types (.ofTag name ty) := by
  funext c
  simp only [Bind.bind, EStateM.bind]
  cases h : describe types (.ofTag name ty) c with
  | error cause c' => rfl
  | ok _ c' =>
    obtain ⟨marks, steps, -⟩ := describe_ok h
    have clear : TypeDescription.crossReference? node true = none := by
      simp [TypeDescription.crossReference?, complete]
    have same : c'.numbering.introduce ty .defined = c'.numbering :=
      Numbering.introduce_of_defined (steps.defined_of_full known clear)
    rw [Numbering.introduce] at same
    simp only [modify_eq, same]

/-- Looking at the context alone does nothing. -/
theorem get_pure : (do let _ ← (get : Emitting Context); pure ()) = (pure () : Emitting Unit) := rfl

theorem emitTag_eq (types : TypeTable) (tag : Tag) :
    emitTag types tag = performAll types (Task.ofTag types tag) := by
  unfold emitTag Task.ofTag
  cases tag.name with
  | none => rfl
  | some name =>
    cases known : types.get? tag.ty with
    | none => exact (performAll_singleton types (.reject _)).symm
    | some node =>
      by_cases complete : node.isComplete = true
      · simp [complete, performAll_singleton, perform, describe_ofTag known complete]
      · simp only [complete, performAll, Bool.not_false, Bool.true_or, if_true, Bool.false_eq_true,
          if_false, List.forM_nil]
        exact get_pure

theorem emitTags_eq (types : TypeTable) (tags : List Tag) :
    emitTags types tags = performAll types (tags.flatMap (Task.ofTag types)) :=
  forM_flatMap (emitTag_eq types) tags

theorem flushTypedefs_eq (types : TypeTable) :
    flushTypedefs types = performAll types (Task.ofTypedefs types) := by
  unfold flushTypedefs Task.ofTypedefs
  induction types.entries with
  | nil => rfl
  | cons entry rest ih =>
    rw [List.forM_cons, ih]
    by_cases named : entry.2.typedefName?.isSome = true
    · simp [named, performAll, perform]
    · simp only [Bool.not_eq_true] at named
      simp only [named, performAll, Bool.false_and, Bool.false_eq_true, if_false, List.filter_cons,
        get_pure, pure_bind]

theorem performAll_ofChoice (types : TypeTable) (choice : Except DescribeError (Option Symbol)) :
    performAll types (Task.ofChoice choice) = orFail choice >>= describe? types := by
  match choice with
  | .error cause => exact performAll_singleton types (.reject cause)
  | .ok none => simp [Task.ofChoice, performAll, orFail, describe?]
  | .ok (some s) => simp [Task.ofChoice, performAll_singleton, perform, orFail, describe?]

theorem emitLocal_eq (u : CompilationUnit) (target : Target) (decl : Declaration) :
    emitSymbol u target decl true = performAll u.types (Task.ofLocal u target decl) := by
  rw [Task.ofLocal, performAll_ofChoice]
  simp [emitSymbol]

theorem emitSymbol_eq (u : CompilationUnit) (target : Target) (decl : Declaration) :
    emitSymbol u target decl false = performAll u.types (Task.ofSymbol u target decl) := by
  rw [Task.ofSymbol, performAll_append, performAll_append, ← emitTags_eq, ← flushTypedefs_eq,
    Task.ofLocal, performAll_ofChoice]
  simp [emitSymbol]

theorem emitParameters_eq (types : TypeTable) (target : Target) (params : List Declaration) :
    emitParameters types target params =
      performAll types (params.flatMap (Task.ofParameter target)) := by
  refine forM_flatMap (fun param => ?_) params
  rw [Task.ofParameter, performAll_ofChoice]
  cases Symbol.ofParameter target param with
  | error cause => rfl
  | ok s => rfl

theorem emitRegisterParameters_eq (types : TypeTable) (target : Target)
    (params : List Declaration) : emitRegisterParameters types target params =
      performAll types (params.flatMap (Task.ofRegisterParameter target)) :=
  forM_flatMap (fun _ => (performAll_ofChoice types _).symm) params

theorem nextBlock_acts {types : TypeTable} {task : Task} {entries : List Entry} {c c' : Context}
    (h : Acts types c task entries c') : c'.nextBlock = Task.nextBlock c.nextBlock [task] := by
  cases h with
  | @described _ symbol marks N due steps => cases task <;> first | rfl | cases due
  | _ => rfl

theorem nextBlock_perform {types : TypeTable} {task : Task} {c c' : Context}
    (h : perform types task c = .ok () c') : c'.nextBlock = Task.nextBlock c.nextBlock [task] :=
  have ⟨_, acts⟩ := perform_ok h
  nextBlock_acts acts

theorem nextBlock_performAll {types : TypeTable} {tasks : List Task} {c c' : Context}
    (h : performAll types tasks c = .ok () c') :
    c'.nextBlock = Task.nextBlock c.nextBlock tasks := by
  induction tasks generalizing c with
  | nil => cases h; rfl
  | cons task tasks ih =>
    simp only [performAll, List.forM_cons, Bind.bind, EStateM.bind] at h
    cases hp : perform types task c with
    | error cause c₁ => simp [hp] at h
    | ok _ c₁ =>
      rw [hp] at h
      rw [ih h, nextBlock_perform hp, ← Task.nextBlock_append, List.singleton_append]

/-- A step with more behind it ends well if both parts do, one after the other. -/
theorem bind_ok {α β : Type} {step : Emitting α} {after : α → Emitting β} {b : β}
    {c c' : Context} (h : (step >>= after) c = .ok b c') :
    ∃ a c₁, step c = .ok a c₁ ∧ after a c₁ = .ok b c' := by
  simp only [Bind.bind, EStateM.bind] at h
  cases run : step c with
  | ok a c₁ =>
    rw [run] at h
    exact ⟨a, c₁, rfl, h⟩
  | error cause c₁ =>
    rw [run] at h
    cases h

theorem bind_of_ok {α β : Type} {step : Emitting α} {a : α} {c c₁ : Context}
    (h : step c = .ok a c₁) (after : α → Emitting β) : (step >>= after) c = after a c₁ := by
  simp only [Bind.bind, EStateM.bind, h]

/-- Two steps that agree from one context agree when more steps follow. -/
theorem bind_eq_of_eq {first other : Emitting Unit} {next after : Emitting Unit} {c : Context}
    (same : first c = other c) (hn : ∀ c', other c = .ok () c' → next c' = after c') :
    (first >>= fun _ => next) c = (other >>= fun _ => after) c := by
  simp only [Bind.bind, EStateM.bind, same]
  cases h : other c with
  | ok _ c' => exact hn c' h
  | error cause c' => rfl

mutual

theorem walk_eq (u : CompilationUnit) (target : Target) (depth : Nat) (params : List Declaration)
    (statement : Statement) (c : Context) : walk u target depth params statement c =
      performAll u.types (Task.ofStatement u target depth params c.nextBlock statement) c := by
  cases statement with
  | compound body =>
    rw [walk, Task.ofStatement]
    exact walkAll_eq u target depth [] body c
  | loop body =>
    rw [walk, Task.ofStatement]
    exact walkAll_eq u target depth [] body c
  | branch thenPart otherwise =>
    rw [walk, Task.ofStatement, performAll_append]
    apply bind_eq_of_eq (walkAll_eq u target depth [] thenPart c)
    intro c' h
    rw [← nextBlock_performAll h]
    exact walkAll_eq u target depth [] otherwise c'
  | scope tags vars body =>
    rw [walk, Task.ofStatement, emitTags_eq, forM_flatMap (emitLocal_eq u target) vars,
      emitRegisterParameters_eq, performAll_append, performAll_append, performAll_append]
    simp only [bind_assoc]
    refine bind_eq_of_eq rfl fun c₁ h₁ => bind_eq_of_eq rfl fun c₂ h₂ =>
      bind_eq_of_eq rfl fun c₃ h₃ => ?_
    have same : c.nextBlock = c₃.nextBlock := by
      rw [nextBlock_performAll h₃, nextBlock_performAll h₂, nextBlock_performAll h₁]
      simp only [← Task.nextBlock_append]
      refine (Task.nextBlock_of_forall (fun task mem => ?_) _).symm
      simp only [List.mem_append, List.mem_flatMap] at mem
      rcases mem with (⟨tag, -, mem⟩ | ⟨decl, -, mem⟩) | ⟨param, -, mem⟩
      · exact Task.ofTag_ne_enter mem
      · exact Task.ofChoice_ne_enter mem
      · exact Task.ofChoice_ne_enter mem
    rw [same]
    by_cases inside : 0 < depth
    · simp only [if_pos inside]
      change (enterBlock >>= _) c₃ = (perform u.types .enter >>= _) c₃
      simp only [Bind.bind, EStateM.bind, enterBlock_eq, perform_enter]
      by_cases room : c₃.nextBlock.toNat + 1 < UInt32.size
      · simp only [if_pos room]
        change _ = performAll u.types (_ ++ [.leave c₃.nextBlock]) c₃.entered
        rw [performAll_append, performAll_singleton]
        exact bind_eq_of_eq (walkAll_eq u target (depth + 1) [] body c₃.entered) fun _ _ => rfl
      · simp only [if_neg room]
    · simp only [if_neg inside]
      exact walkAll_eq u target (depth + 1) [] body c₃

theorem walkAll_eq (u : CompilationUnit) (target : Target) (depth : Nat)
    (params : List Declaration) (statements : List Statement) (c : Context) :
    walkAll u target depth params statements c =
      performAll u.types (Task.ofStatements u target depth params c.nextBlock statements) c := by
  cases statements with
  | nil => rw [walkAll, Task.ofStatements]; rfl
  | cons statement rest =>
    rw [walkAll, Task.ofStatements, performAll_append]
    apply bind_eq_of_eq (walk_eq u target depth params statement c)
    intro c' h
    rw [← nextBlock_performAll h]
    exact walkAll_eq u target depth params rest c'

end

theorem emitItem_eq (u : CompilationUnit) (target : Target) (item : Item) (c : Context) :
    emitItem u target item c = performAll u.types (Task.ofItem u target c.nextBlock item) c := by
  cases item with
  | symbol decl => rw [emitItem, emitSymbol_eq]; rfl
  | function definition =>
    rw [emitItem, emitFunction, Task.ofItem, emitSymbol_eq, emitParameters_eq, performAll_append,
      performAll_append]
    simp only [bind_assoc]
    refine bind_eq_of_eq rfl fun c₁ h₁ => bind_eq_of_eq rfl fun c₂ h₂ => ?_
    have same : c.nextBlock = c₂.nextBlock := by
      rw [nextBlock_performAll h₂, nextBlock_performAll h₁]
      simp only [← Task.nextBlock_append]
      refine (Task.nextBlock_of_forall (fun task mem => ?_) _).symm
      rcases List.mem_append.1 mem with mem | mem
      · exact Task.ofSymbol_ne_enter mem
      · obtain ⟨param, -, mem⟩ := List.mem_flatMap.1 mem
        exact Task.ofChoice_ne_enter mem
    rw [same]
    exact walkAll_eq u target 0 definition.params definition.body c₂

theorem emitItems_eq (u : CompilationUnit) (target : Target) (items : List Item) (c : Context) :
    forM items (emitItem u target) c =
      performAll u.types (Task.ofItems u target c.nextBlock items) c := by
  induction items generalizing c with
  | nil => rfl
  | cons item rest ih =>
    rw [List.forM_cons, Task.ofItems, performAll_append]
    apply bind_eq_of_eq (emitItem_eq u target item c)
    intro c' h
    rw [← nextBlock_performAll h]
    exact ih c'

theorem written_acts {types : TypeTable} {task : Task} {entries : List Entry} {c c' : Context}
    (h : Acts types c task entries c') : c'.typedefsWritten = task.written c.typedefsWritten := by
  cases h with
  | typedefOut out => exact (List.insert_of_mem out).symm
  | _ => rfl

/-- What stands before the first item is written by the tasks of the prelude. -/
theorem emitPrelude_eq (u : CompilationUnit) (target : Target) :
    emitPrelude u target (fresh target.firstBlock) =
      performAll u.types (Task.prelude u target) (fresh target.firstBlock) := by
  have waiting {ty : TypeId} {c : Context} (h : ty ∉ c.typedefsWritten) :
      emitTypedef u.types ty c = perform u.types (.typedef ty) c := by
    rw [perform_typedef, if_neg (by simpa using h)]
  rw [emitPrelude, flushTypedefs_eq, Task.prelude, performAll_cons, performAll_cons,
    performAll_cons]
  apply bind_eq_of_eq rfl
  intro c₁ h₁
  cases h₁
  refine bind_eq_of_eq (waiting nofun) fun c₂ h₂ => bind_eq_of_eq (waiting ?_) fun _ _ => rfl
  obtain ⟨_, acts⟩ := perform_ok h₂
  rw [written_acts acts]
  exact (by decide : TypeId.char ∉ Task.written [] (.typedef .int))

/-- The prelude takes no numbers of blocks. -/
theorem nextBlock_prelude {u : CompilationUnit} {target : Target} {c c' : Context}
    (h : performAll u.types (Task.prelude u target) c = .ok () c') :
    c'.nextBlock = c.nextBlock := by
  rw [nextBlock_performAll h]
  refine Task.nextBlock_of_forall (fun task mem => ?_) _
  simp only [Task.prelude, Task.ofTypedefs, List.mem_cons, List.mem_map] at mem
  rcases mem with rfl | rfl | rfl | ⟨entry, -, rfl⟩ <;> simp

/-- Describing a unit from a fresh context performs the tasks of the unit. -/
theorem emitUnit_eq (u : CompilationUnit) (target : Target) :
    emitUnit u target (fresh target.firstBlock) =
      performAll u.types (Task.ofUnit u target) (fresh target.firstBlock) := by
  rw [emitUnit, Task.ofUnit, performAll_append]
  refine bind_eq_of_eq (emitPrelude_eq u target) fun c h => ?_
  have same : c.nextBlock = target.firstBlock := nextBlock_prelude h
  rw [← same]
  exact emitItems_eq u target u.items c

end Context

end Stabs

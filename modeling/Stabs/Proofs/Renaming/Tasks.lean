import Stabs.Proofs.Renaming.Description
import Stabs.Proofs.Unit.Requests

/-!
# The tasks of a renamed unit

A renamed unit has the renamed tasks. The typedefs are the only ones that are read off the table;
they come in the order of the table, which a renaming keeps.
-/
namespace Stabs

variable {ρ : TypeId → TypeId} {types others : TypeTable} {target : Target}

/-- A choice of a symbol with everything that names a type renamed. -/
def renamedChoice (ρ : TypeId → TypeId) :
    Except DescribeError (Option Symbol) → Except DescribeError (Option Symbol)
  | .error cause => .error (cause.rename ρ)
  | .ok choice => .ok (choice.map (Symbol.rename ρ))

namespace Symbol

theorem returnType_rename (h : types.Renames ρ others) (name : String) {ty : TypeId}
    (known : types.Knows ty) : returnType others name (ρ ty) =
      match returnType types name ty with
      | .ok returns => .ok (ρ returns)
      | .error cause => .error (cause.rename ρ) := by
  obtain ⟨node, known⟩ := known
  simp only [returnType, known, h.get? known, TypeNode.rename]
  cases node.kind with
  | function returns => cases returns <;> simp [TypeKind.rename, h.builtins.2.2]
  | _ => rfl

theorem ofFunction?_rename (h : types.Renames ρ others) (name : String) {ty : TypeId}
    (known : types.Knows ty) (info : FunctionInfo) :
    ofFunction? others name (ρ ty) info = renamedChoice ρ (ofFunction? types name ty info) := by
  unfold ofFunction?
  split
  · rfl
  · cases info.address with
    | none => rfl
    | some address =>
      rw [returnType_rename h name known]
      cases returnType types name ty <;> rfl

theorem ofVariable?_rename (name : String) (ty : TypeId) (info : VariableInfo) :
    ofVariable? target name (ρ ty) info =
      (ofVariable? target name ty info).map (Symbol.rename ρ) := by
  unfold ofVariable?
  split
  · rfl
  · split
    · rfl
    · split <;> rfl
    · rfl
    · rfl

theorem ofDeclaration?_rename (h : types.Renames ρ others) (target : Target) {decl : Declaration}
    (known : types.Knows decl.ty) : ofDeclaration? others target (decl.rename ρ) =
      renamedChoice ρ (ofDeclaration? types target decl) := by
  obtain ⟨name, ty, kind⟩ := decl
  cases kind with
  | enumConstant => rfl
  | function info => exact ofFunction?_rename h name known info
  | typedef => rfl
  | parameter info => rfl
  | var info => exact congrArg Except.ok (ofVariable?_rename name ty info)

/-- The type of a symbol is that of its declaration, or what a function of that type returns. -/
theorem knows_of_ofDeclaration? (closed : types.Closed) {decl : Declaration} {symbol : Symbol}
    (known : types.Knows decl.ty) (h : ofDeclaration? types target decl = .ok (some symbol)) :
    types.Knows symbol.ty := by
  obtain ⟨name, ty, kind⟩ := decl
  cases kind with
  | enumConstant => cases h
  | function info =>
    change ofFunction? types name ty info = _ at h
    unfold ofFunction? at h
    split at h
    · cases h
    · split at h
      · cases h
      · cases returned : returnType types name ty with
        | error cause => rw [returned] at h; cases h
        | ok returns =>
          rw [returned] at h
          cases h
          obtain ⟨node, result, known, kind, rfl⟩ := returnType_eq_ok.1 returned
          apply closed _ (TypeTable.mem_entries known)
          simp [TypeNode.children, kind]
  | typedef => cases h; exact known
  | parameter info => cases h
  | var info =>
    change Except.ok (ofVariable? target name ty info) = _ at h
    unfold ofVariable? at h
    split at h
    · cases h
    · split at h
      · cases h
      · split at h <;> cases h <;> exact known
      · cases h; exact known
      · cases h; exact known

theorem ty_of_ofParameter {param : Declaration} {symbol : Symbol}
    (h : (ofParameter target param).map some = .ok (some symbol)) : symbol.ty = param.ty := by
  obtain ⟨name, ty, kind⟩ := param
  cases kind <;> cases h
  rfl

theorem ty_of_ofRegisterParameter? {param : Declaration} {symbol : Symbol}
    (h : ofRegisterParameter? target param = .ok (some symbol)) : symbol.ty = param.ty := by
  obtain ⟨name, ty, kind⟩ := param
  cases kind with
  | parameter info =>
    obtain ⟨argOffset, location, passedSize, storedSize⟩ := info
    cases location <;> cases h
    rfl
  | _ => cases h

end Symbol

namespace Task

def rename (ρ : TypeId → TypeId) : Task → Task
  | sourceFile path label => sourceFile path label
  | typedef ty => typedef (ρ ty)
  | tag name ty => tag name (ρ ty)
  | symbol s => symbol (s.rename ρ)
  | reject cause => reject (cause.rename ρ)
  | enter => enter
  | leave block => leave block

/-- A task about a type of the table. -/
def Within (types : TypeTable) : Task → Prop
  | typedef ty => types.Knows ty
  | tag _ ty => types.Knows ty
  | symbol s => types.Knows s.ty
  | _ => True

theorem nextBlock_rename (next : UInt32) (tasks : List Task) :
    nextBlock next (tasks.map (rename ρ)) = nextBlock next tasks := by
  have enter (task : Task) : task.rename ρ = .enter ↔ task = .enter := by
    cases task <;> simp [rename]
  simp only [nextBlock, List.foldl_map, enter]

theorem ofChoice_rename (choice : Except DescribeError (Option Symbol)) :
    ofChoice (renamedChoice ρ choice) = (ofChoice choice).map (rename ρ) := by
  match choice with
  | .error cause => rfl
  | .ok none => rfl
  | .ok (some s) => rfl

theorem ofParameter_rename (target : Target) (param : Declaration) :
    ofParameter target (param.rename ρ) = (ofParameter target param).map (rename ρ) := by
  obtain ⟨name, ty, kind⟩ := param
  cases kind <;> rfl

theorem ofRegisterParameter_rename (target : Target) (param : Declaration) :
    ofRegisterParameter target (param.rename ρ) =
      (ofRegisterParameter target param).map (rename ρ) := by
  obtain ⟨name, ty, kind⟩ := param
  cases kind with
  | parameter info =>
    obtain ⟨argOffset, location, passedSize, storedSize⟩ := info
    cases location <;> rfl
  | _ => rfl

theorem flatMap_rename {α : Type} {f : α → α} {tasks others : α → List Task} {l : List α}
    (h : ∀ a ∈ l, others (f a) = (tasks a).map (rename ρ)) :
    (l.map f).flatMap others = (l.flatMap tasks).map (rename ρ) := by
  induction l with
  | nil => rfl
  | cons a l ih =>
    have rest := ih fun b mem => h b (List.mem_cons_of_mem _ mem)
    rw [List.map_cons, List.flatMap_cons, List.flatMap_cons, List.map_append, rest,
      h a List.mem_cons_self]

section

variable (h : types.Renames ρ others)

include h

theorem ofTag_rename {tag : Tag} (known : types.Knows tag.ty) :
    ofTag others (tag.rename ρ) = (ofTag types tag).map (rename ρ) := by
  obtain ⟨name, ty⟩ := tag
  obtain ⟨node, known⟩ := known
  cases name with
  | none => rfl
  | some name =>
    simp only [ofTag, Tag.rename, known, h.get? known, TypeNode.isComplete, TypeNode.rename]
    by_cases complete : node.size.isSome = true <;> simp [complete, rename]

/-- The typedefs of the other table stand at the renamed places. -/
theorem mem_typedefs_rename {ty : TypeId} :
    ty ∈ (others.entries.filter (·.2.typedefName?.isSome)).map (·.1) ↔
      ty ∈ (types.entries.filter (·.2.typedefName?.isSome)).map (ρ ·.1) := by
  constructor
  · intro mem
    obtain ⟨⟨_, node⟩, listed, rfl⟩ := List.mem_map.1 mem
    obtain ⟨entered, named⟩ := List.mem_filter.1 listed
    obtain ⟨⟨_, i⟩, place, e⟩ := List.mem_map.1 entered
    cases e
    have found := List.mk_mem_zipIdx_iff_getElem?.1 place
    rw [Array.getElem?_toList] at found
    obtain ⟨entry, known, rfl⟩ := h.typedefs i node found named
    cases (h.nodes entry known).symm.trans found
    exact List.mem_map.2 ⟨entry, List.mem_filter.2 ⟨known, named⟩, (TypeId.ofNat_toNat _).symm⟩
  · intro mem
    obtain ⟨entry, listed, rfl⟩ := List.mem_map.1 mem
    obtain ⟨entered, named⟩ := List.mem_filter.1 listed
    have found := TypeTable.mem_entries (h.nodes entry entered)
    exact List.mem_map.2 ⟨_, List.mem_filter.2 ⟨found, named⟩, rfl⟩

/-- No typedef of the other table lies beyond the range of an index, so their ids come in the order
of the table. -/
theorem pairwise_typedefs : ((others.entries.filter (·.2.typedefName?.isSome)).map (·.1)).Pairwise
    fun a b => a.toNat < b.toNat := by
  have places : others.nodes.toList.zipIdx.Pairwise fun a b => a.2 < b.2 := by
    rw [← List.pairwise_map, List.zipIdx_map_snd]
    exact List.pairwise_lt_range'
  rw [TypeTable.entries, List.filter_map, List.map_map, List.pairwise_map]
  refine (places.filter _).imp_of_mem fun {a b} ha hb less => ?_
  have index {place : TypeNode × Nat} (mem : place ∈ others.nodes.toList.zipIdx.filter
      ((fun entry : TypeId × TypeNode => entry.2.typedefName?.isSome) ∘ fun place =>
        (TypeId.ofNat place.2, place.1))) : (TypeId.ofNat place.2).toNat = place.2 := by
    obtain ⟨mem, named⟩ := List.mem_filter.1 mem
    have found := List.mk_mem_zipIdx_iff_getElem?.1 mem
    rw [Array.getElem?_toList] at found
    obtain ⟨entry, -, e⟩ := h.typedefs place.2 place.1 found named
    rw [← e, TypeId.ofNat_toNat]
  change (TypeId.ofNat a.2).toNat < (TypeId.ofNat b.2).toNat
  rwa [index ha, index hb]

/-- The typedefs of the other table stand at the renamed places, in the same order. -/
theorem typedefs_rename :
    (others.entries.filter (·.2.typedefName?.isSome)).map (·.1) =
      (types.entries.filter (·.2.typedefName?.isSome)).map (ρ ·.1) := by
  have left := pairwise_typedefs h
  have right : ((types.entries.filter (·.2.typedefName?.isSome)).map (ρ ·.1)).Pairwise
      fun a b => a.toNat < b.toNat := List.pairwise_map.2 h.order
  have distinct {a b : TypeId} (less : a.toNat < b.toNat) : a ≠ b := by
    rintro rfl
    exact Nat.lt_irrefl _ less
  refine List.Perm.eq_of_pairwise ?_ left right ?_
  · intro a b _ _ ab ba
    exact absurd ba (Nat.lt_asymm ab)
  · exact (List.perm_ext_iff_of_nodup (left.imp distinct) (right.imp distinct)).2 fun ty =>
      mem_typedefs_rename h

theorem ofTypedefs_rename : ofTypedefs others = (ofTypedefs types).map (rename ρ) := by
  have same := congrArg (List.map Task.typedef) (typedefs_rename h)
  rw [List.map_map, List.map_map] at same
  rw [ofTypedefs, ofTypedefs, List.map_map]
  exact same

end

variable {u v : CompilationUnit}

theorem ofLocal_rename (h : u.Renames ρ v) (target : Target) {decl : Declaration} (known : u.types.Knows decl.ty) :
    ofLocal v target (decl.rename ρ) = (ofLocal u target decl).map (rename ρ) := by
  rw [ofLocal, ofLocal, Symbol.ofDeclaration?_rename h.types target known, ofChoice_rename]

theorem ofSymbol_rename (h : u.Renames ρ v) (target : Target) (range : u.InRange)
    {decl : Declaration} (known : u.types.Knows decl.ty) :
    ofSymbol v target (decl.rename ρ) = (ofSymbol u target decl).map (rename ρ) := by
  have tags := flatMap_rename fun tag mem => ofTag_rename h.types (range.tag (.inl mem))
  rw [ofSymbol, ofSymbol, h.tags, tags, ofTypedefs_rename h.types, ofLocal_rename h target known,
    List.map_append, List.map_append]

/-- The types of the tags and variables of a scope are in the table. -/
def KnowsScope (types : TypeTable) (scope : Scope) : Prop :=
  (∀ tag ∈ scope.tags, types.Knows tag.ty) ∧ ∀ decl ∈ scope.vars, types.Knows decl.ty

mutual

theorem ofStatement_rename (h : u.Renames ρ v) (target : Target) (depth : Nat)
    (params : List Declaration) (next : UInt32) (statement : Statement)
    (known : ∀ scope ∈ statement.scopes, KnowsScope u.types scope) :
    ofStatement v target depth (params.map (Declaration.rename ρ)) next (statement.rename ρ) =
      (ofStatement u target depth params next statement).map (rename ρ) := by
  cases statement with
  | compound body =>
    rw [Statement.scopes] at known
    rw [Statement.rename, ofStatement, ofStatement]
    exact ofStatements_rename h target depth [] next body known
  | loop body =>
    rw [Statement.scopes] at known
    rw [Statement.rename, ofStatement, ofStatement]
    exact ofStatements_rename h target depth [] next body known
  | branch thenPart otherwise =>
    rw [Statement.scopes] at known
    have first (next : UInt32) := ofStatements_rename h target depth [] next thenPart
      fun scope mem => known scope (List.mem_append_left _ mem)
    have second (next : UInt32) := ofStatements_rename h target depth [] next otherwise
      fun scope mem => known scope (List.mem_append_right _ mem)
    rw [List.map_nil] at first second
    rw [Statement.rename, ofStatement, ofStatement, first, nextBlock_rename, second,
      List.map_append]
  | scope tags vars body =>
    rw [Statement.scopes] at known
    obtain ⟨knownTags, knownVars⟩ := known _ List.mem_cons_self
    have inner (next : UInt32) := ofStatements_rename h target (depth + 1) [] next body
      fun scope mem => known scope (List.mem_cons_of_mem _ mem)
    rw [List.map_nil] at inner
    have tagTasks := flatMap_rename fun tag mem => ofTag_rename h.types (knownTags tag mem)
    have varTasks := flatMap_rename fun decl mem => ofLocal_rename h target (knownVars decl mem)
    have paramTasks := @flatMap_rename ρ _ (Declaration.rename ρ) _ _ params
      fun param _ => ofRegisterParameter_rename target param
    rw [Statement.rename, ofStatement, ofStatement, tagTasks, varTasks, paramTasks, inner, inner]
    split <;> simp [rename]

theorem ofStatements_rename (h : u.Renames ρ v) (target : Target) (depth : Nat)
    (params : List Declaration) (next : UInt32) (statements : List Statement)
    (known : ∀ scope ∈ Statement.allScopes statements, KnowsScope u.types scope) :
    ofStatements v target depth (params.map (Declaration.rename ρ)) next
        (Statement.renameAll ρ statements) =
      (ofStatements u target depth params next statements).map (rename ρ) := by
  cases statements with
  | nil => rfl
  | cons statement rest =>
    rw [Statement.allScopes] at known
    have first := ofStatement_rename h target depth params next statement
      fun scope mem => known scope (List.mem_append_left _ mem)
    have second (next : UInt32) := ofStatements_rename h target depth params next rest
      fun scope mem => known scope (List.mem_append_right _ mem)
    rw [Statement.renameAll, ofStatements, ofStatements, first, nextBlock_rename, second,
      List.map_append]

end

theorem ofItem_rename (h : u.Renames ρ v) (target : Target) (range : u.InRange) (next : UInt32)
    {item : Item} (mem : item ∈ u.items) :
    ofItem v target next (item.rename ρ) = (ofItem u target next item).map (rename ρ) := by
  have symbol : ofSymbol v target (item.decl.rename ρ) =
      (ofSymbol u target item.decl).map (rename ρ) := ofSymbol_rename h target range <|
    range.declaration (.inl (List.mem_append_left _ (List.mem_map_of_mem mem)))
  cases item with
  | symbol decl => exact symbol
  | function definition =>
    have params := @flatMap_rename ρ _ (Declaration.rename ρ) _ _ definition.params
      fun param _ => ofParameter_rename target param
    have body := ofStatements_rename h target 0 definition.params next definition.body
      fun scope inner =>
        have inUnit := mem_scopes mem inner
        ⟨fun tag mem => range.tag (.inr ⟨scope, inUnit, mem⟩), fun decl mem =>
          range.declaration (.inl (List.mem_append_right _ (List.mem_flatMap.2 ⟨scope, inUnit, mem⟩)))⟩
    change ofSymbol v target (definition.decl.rename ρ) ++
      (definition.params.map (Declaration.rename ρ)).flatMap (ofParameter target) ++
        ofStatements v target 0 (definition.params.map (Declaration.rename ρ)) next
          (Statement.renameAll ρ definition.body) = _
    rw [Item.decl] at symbol
    rw [symbol, params, body, ofItem, List.map_append, List.map_append]

theorem ofItems_rename (h : u.Renames ρ v) (target : Target) (range : u.InRange) (next : UInt32)
    {items : List Item} (sub : items ⊆ u.items) :
    ofItems v target next (items.map (Item.rename ρ)) =
      (ofItems u target next items).map (rename ρ) := by
  induction items generalizing next with
  | nil => rfl
  | cons item rest ih =>
    rw [List.map_cons, ofItems, ofItems, ofItem_rename h target range next (sub List.mem_cons_self),
      nextBlock_rename, ih _ (List.subset_of_cons_subset sub), List.map_append]

/-- A renamed unit has the renamed tasks. -/
theorem ofUnit_rename (h : u.Renames ρ v) (target : Target) (range : u.InRange) :
    ofUnit v target = (ofUnit u target).map (rename ρ) := by
  obtain ⟨int, char, -⟩ := h.types.builtins
  rw [ofUnit, ofUnit, prelude, prelude, h.items, h.sourceFile,
    ofItems_rename h target range _ (List.Subset.refl _), ofTypedefs_rename h.types]
  simp only [List.map_append, List.map_cons, rename, int, char]

/-- The tasks of a unit are about types of its table. -/
theorem within_ofUnit (range : u.InRange) :
    ∀ task ∈ ofUnit u target, task.Within u.types := by
  have choice {choice : Except DescribeError (Option Symbol)} {task : Task}
      (h : ∀ s, choice = .ok (some s) → u.types.Knows s.ty) (mem : task ∈ ofChoice choice) :
      task.Within u.types := by
    obtain ⟨cause, -, rfl⟩ | ⟨s, chosen, rfl⟩ := mem_ofChoice.1 mem
    · trivial
    · exact h s chosen
  intro task mem
  cases origin_of_mem mem with
  | sourceFile => trivial
  | typedef entered => exact TypeTable.knows_of_mem_entries entered
  | tag written h =>
    obtain ⟨name, -, ⟨-, rfl⟩ | ⟨node, known, -, rfl⟩⟩ := mem_ofTag.1 h
    · trivial
    · exact ⟨node, known⟩
  | declaration declared h =>
    exact choice (fun s => Symbol.knows_of_ofDeclaration? range.closed
      (range.declaration (.inl declared))) h
  | parameter declared h =>
    refine choice (fun s chosen => ?_) h
    exact Symbol.ty_of_ofParameter chosen ▸ range.declaration (.inr declared)
  | registerParameter declared h =>
    refine choice (fun s chosen => ?_) h
    exact Symbol.ty_of_ofRegisterParameter? chosen ▸ range.declaration (.inr declared)
  | enter => trivial
  | leave block => trivial

end Task

end Stabs

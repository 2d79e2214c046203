import Stabs.Proofs.Unit.Builtins

/-!
# What a unit declares

The scopes of the function bodies with their tags and variables, the declarations outside of
parameter lists, and the parameters. Every task of a unit comes from one of these or from a typedef
of the table, and each of these has its tasks among those of the unit.
-/
namespace Stabs

/-- The tags and the variables of a scope. -/
structure Scope where
  tags : List Tag
  vars : List Declaration

namespace Statement

mutual

/-- The scopes of a statement, an outer one before those inside it. -/
def scopes : Statement → List Scope
  | compound body => allScopes body
  | loop body => allScopes body
  | branch thenPart otherwise => allScopes thenPart ++ allScopes otherwise
  | scope tags vars body => ⟨tags, vars⟩ :: allScopes body

def allScopes : List Statement → List Scope
  | [] => []
  | statement :: rest => scopes statement ++ allScopes rest

end

end Statement

namespace CompilationUnit

/-- The scopes of all function bodies. -/
def scopes (u : CompilationUnit) : List Scope :=
  u.functions.flatMap fun definition => Statement.allScopes definition.body

/-- The declarations of items and of variables in blocks. -/
def declarations (u : CompilationUnit) : List Declaration :=
  u.items.map Item.decl ++ u.scopes.flatMap Scope.vars

def parameters (u : CompilationUnit) : List Declaration :=
  u.functions.flatMap FunctionDefinition.params

/-- The tags that the unit has to write. Those of the file come up with the first item. -/
def writtenTags (u : CompilationUnit) : List Tag :=
  u.scopes.flatMap Scope.tags ++ if u.items.isEmpty then [] else u.tags

end CompilationUnit

namespace Task

variable {u : CompilationUnit} {target : Target} {task : Task}

/-- The tasks of the tags and variables of a scope. -/
def OfScope (u : CompilationUnit) (target : Target) (scope : Scope) (task : Task) : Prop :=
  (∃ tag ∈ scope.tags, task ∈ ofTag u.types tag) ∨
    ∃ decl ∈ scope.vars, task ∈ ofLocal u target decl

/-- Where the task of a statement comes from: a scope, a parameter in a register, or the brackets
of a block. -/
def OfBody (u : CompilationUnit) (target : Target) (scopes : List Scope)
    (params : List Declaration) (task : Task) : Prop :=
  (∃ scope ∈ scopes, OfScope u target scope task) ∨
    (∃ param ∈ params, task ∈ ofRegisterParameter target param) ∨
      task = .enter ∨ ∃ block, task = .leave block

theorem OfBody.mono {scopes others : List Scope} {params more : List Declaration}
    (h : OfBody u target scopes params task) (hs : scopes ⊆ others) (hp : params ⊆ more) :
    OfBody u target others more task := by
  rcases h with ⟨scope, mem, h⟩ | ⟨param, mem, h⟩ | h
  · exact .inl ⟨scope, hs mem, h⟩
  · exact .inr (.inl ⟨param, hp mem, h⟩)
  · exact .inr (.inr h)

mutual

theorem ofBody_of_mem_ofStatement {depth : Nat} {params : List Declaration} {next : UInt32}
    (statement : Statement)
    (h : task ∈ ofStatement u target depth params next statement) :
    OfBody u target statement.scopes params task := by
  cases statement with
  | compound body =>
    rw [ofStatement] at h
    rw [Statement.scopes]
    exact (ofBody_of_mem_ofStatements body h).mono (List.Subset.refl _) (List.nil_subset _)
  | loop body =>
    rw [ofStatement] at h
    rw [Statement.scopes]
    exact (ofBody_of_mem_ofStatements body h).mono (List.Subset.refl _) (List.nil_subset _)
  | branch thenPart otherwise =>
    rw [ofStatement] at h
    rw [Statement.scopes]
    rcases List.mem_append.1 h with h | h
    · exact (ofBody_of_mem_ofStatements thenPart h).mono (List.subset_append_left _ _)
        (List.nil_subset _)
    · exact (ofBody_of_mem_ofStatements otherwise h).mono (List.subset_append_right _ _)
        (List.nil_subset _)
  | scope tags vars body =>
    rw [ofStatement] at h
    rw [Statement.scopes]
    simp only [List.mem_append, List.mem_flatMap] at h
    rcases h with ((h | h) | h) | h
    · exact .inl ⟨_, List.mem_cons_self, .inl h⟩
    · exact .inl ⟨_, List.mem_cons_self, .inr h⟩
    · exact .inr (.inl h)
    · split at h
      · simp only [List.mem_cons, List.mem_append, List.not_mem_nil, or_false] at h
        rcases h with h | h | h
        · exact .inr (.inr (.inl h))
        · exact (ofBody_of_mem_ofStatements body h).mono (List.subset_cons_self _ _)
            (List.nil_subset _)
        · exact .inr (.inr (.inr ⟨_, h⟩))
      · exact (ofBody_of_mem_ofStatements body h).mono (List.subset_cons_self _ _)
          (List.nil_subset _)

theorem ofBody_of_mem_ofStatements {depth : Nat} {params : List Declaration} {next : UInt32}
    (statements : List Statement)
    (h : task ∈ ofStatements u target depth params next statements) :
    OfBody u target (Statement.allScopes statements) params task := by
  cases statements with
  | nil => cases h
  | cons statement rest =>
    rw [ofStatements] at h
    rw [Statement.allScopes]
    rcases List.mem_append.1 h with h | h
    · exact (ofBody_of_mem_ofStatement statement h).mono (List.subset_append_left _ _)
        (List.Subset.refl _)
    · exact (ofBody_of_mem_ofStatements rest h).mono (List.subset_append_right _ _)
        (List.Subset.refl _)

end

mutual

theorem mem_ofStatement {depth : Nat} {params : List Declaration} {next : UInt32}
    (statement : Statement) {scope : Scope} (mem : scope ∈ statement.scopes)
    (h : OfScope u target scope task) :
    task ∈ ofStatement u target depth params next statement := by
  cases statement with
  | compound body =>
    rw [Statement.scopes] at mem
    rw [ofStatement]
    exact mem_ofStatements body mem h
  | loop body =>
    rw [Statement.scopes] at mem
    rw [ofStatement]
    exact mem_ofStatements body mem h
  | branch thenPart otherwise =>
    rw [Statement.scopes] at mem
    rw [ofStatement]
    rcases List.mem_append.1 mem with mem | mem
    · exact List.mem_append_left _ (mem_ofStatements thenPart mem h)
    · exact List.mem_append_right _ (mem_ofStatements otherwise mem h)
  | scope tags vars body =>
    rw [Statement.scopes] at mem
    rw [ofStatement]
    simp only [List.mem_append, List.mem_flatMap]
    rcases List.mem_cons.1 mem with rfl | mem
    · exact .inl (.inl h)
    · right
      split
      · exact List.mem_cons_of_mem _ (List.mem_append_left _ (mem_ofStatements body mem h))
      · exact mem_ofStatements body mem h

theorem mem_ofStatements {depth : Nat} {params : List Declaration} {next : UInt32}
    (statements : List Statement) {scope : Scope}
    (mem : scope ∈ Statement.allScopes statements) (h : OfScope u target scope task) :
    task ∈ ofStatements u target depth params next statements := by
  cases statements with
  | nil => cases mem
  | cons statement rest =>
    rw [Statement.allScopes] at mem
    rw [ofStatements]
    rcases List.mem_append.1 mem with mem | mem
    · exact List.mem_append_left _ (mem_ofStatement statement mem h)
    · exact List.mem_append_right _ (mem_ofStatements rest mem h)

end

/-- What a task of a unit is there for. -/
inductive Origin (u : CompilationUnit) (target : Target) : Task → Prop
  | sourceFile : Origin u target (.sourceFile u.sourceFile target.textLabel)
  | typedef {entry : TypeId × TypeNode} (mem : entry ∈ u.types.entries)
      (named : entry.2.typedefName?.isSome = true) : Origin u target (.typedef entry.1)
  | tag {tag : Tag} {task : Task} (mem : tag ∈ u.writtenTags) (h : task ∈ ofTag u.types tag) :
      Origin u target task
  | declaration {decl : Declaration} {task : Task} (mem : decl ∈ u.declarations)
      (h : task ∈ ofLocal u target decl) : Origin u target task
  | parameter {param : Declaration} {task : Task} (mem : param ∈ u.parameters)
      (h : task ∈ ofParameter target param) : Origin u target task
  | registerParameter {param : Declaration} {task : Task} (mem : param ∈ u.parameters)
      (h : task ∈ ofRegisterParameter target param) : Origin u target task
  | enter : Origin u target .enter
  | leave (block : UInt32) : Origin u target (.leave block)

theorem mem_scopes {definition : FunctionDefinition} {scope : Scope}
    (item : .function definition ∈ u.items)
    (mem : scope ∈ Statement.allScopes definition.body) : scope ∈ u.scopes :=
  List.mem_flatMap.2 ⟨definition, List.mem_filterMap.2 ⟨_, item, rfl⟩, mem⟩

theorem mem_parameters {definition : FunctionDefinition} {param : Declaration}
    (item : .function definition ∈ u.items) (mem : param ∈ definition.params) :
    param ∈ u.parameters :=
  List.mem_flatMap.2 ⟨definition, List.mem_filterMap.2 ⟨_, item, rfl⟩, mem⟩

theorem origin_of_typedefs (h : task ∈ ofTypedefs u.types) : Origin u target task := by
  simp only [ofTypedefs, List.mem_map, List.mem_filter] at h
  obtain ⟨entry, ⟨mem, named⟩, rfl⟩ := h
  exact .typedef mem named

theorem origin_of_symbol {item : Item} (mem : item ∈ u.items)
    (h : task ∈ ofSymbol u target item.decl) : Origin u target task := by
  simp only [ofSymbol, List.mem_append, List.mem_flatMap] at h
  rcases h with (⟨tag, written, h⟩ | h) | h
  · refine .tag (List.mem_append_right _ ?_) h
    rw [if_neg (by simpa using List.ne_nil_of_mem mem)]
    exact written
  · exact origin_of_typedefs h
  · exact .declaration (List.mem_append_left _ (List.mem_map_of_mem mem)) h

theorem origin_of_body {definition : FunctionDefinition} (item : .function definition ∈ u.items)
    (h : OfBody u target (Statement.allScopes definition.body) definition.params task) :
    Origin u target task := by
  rcases h with ⟨scope, mem, ⟨tag, written, h⟩ | ⟨decl, declared, h⟩⟩ | ⟨param, mem, h⟩ |
    rfl | ⟨block, rfl⟩
  · refine .tag (List.mem_append_left _ ?_) h
    exact List.mem_flatMap.2 ⟨scope, mem_scopes item mem, written⟩
  · refine .declaration (List.mem_append_right _ ?_) h
    exact List.mem_flatMap.2 ⟨scope, mem_scopes item mem, declared⟩
  · exact .registerParameter (mem_parameters item mem) h
  · exact .enter
  · exact .leave block

theorem origin_of_item {next : UInt32} {item : Item} (mem : item ∈ u.items)
    (h : task ∈ ofItem u target next item) : Origin u target task := by
  cases item with
  | symbol decl => exact origin_of_symbol mem h
  | function definition =>
    simp only [ofItem, List.mem_append, List.mem_flatMap] at h
    rcases h with (h | ⟨param, declared, h⟩) | h
    · exact origin_of_symbol mem h
    · exact .parameter (mem_parameters mem declared) h
    · exact origin_of_body mem (ofBody_of_mem_ofStatements _ h)

theorem origin_of_items {next : UInt32} {items : List Item} (sub : items ⊆ u.items)
    (h : task ∈ ofItems u target next items) : Origin u target task := by
  induction items generalizing next with
  | nil => cases h
  | cons item rest ih =>
    rcases List.mem_append.1 h with h | h
    · exact origin_of_item (sub List.mem_cons_self) h
    · exact ih (List.subset_of_cons_subset sub) h

theorem mem_ofItems {items : List Item} {item : Item} (mem : item ∈ items) (next : UInt32) :
    ∃ next', ∀ task ∈ ofItem u target next' item, task ∈ ofItems u target next items := by
  induction items generalizing next with
  | nil => cases mem
  | cons first rest ih =>
    rcases List.mem_cons.1 mem with rfl | mem
    · exact ⟨next, fun task h => List.mem_append_left _ h⟩
    · obtain ⟨next', h⟩ := ih mem (nextBlock next (ofItem u target next first))
      exact ⟨next', fun task ht => List.mem_append_right _ (h task ht)⟩

theorem mem_ofUnit_of_item {item : Item} (mem : item ∈ u.items)
    (h : ∀ next, task ∈ ofItem u target next item) : task ∈ ofUnit u target := by
  obtain ⟨next, sub⟩ := @mem_ofItems u target u.items item mem target.firstBlock
  exact List.mem_append_right _ (sub task (h next))

theorem mem_ofUnit_of_symbol {item : Item} (mem : item ∈ u.items)
    (h : task ∈ ofSymbol u target item.decl) : task ∈ ofUnit u target := by
  apply mem_ofUnit_of_item mem
  intro next
  cases item with
  | symbol decl => exact h
  | function definition => exact List.mem_append_left _ (List.mem_append_left _ h)

theorem exists_item_of_scope {scope : Scope} (mem : scope ∈ u.scopes) :
    ∃ definition, .function definition ∈ u.items ∧
      scope ∈ Statement.allScopes definition.body := by
  obtain ⟨definition, item, mem⟩ := List.mem_flatMap.1 mem
  obtain ⟨item', mem', e⟩ := List.mem_filterMap.1 item
  cases item' with
  | symbol decl => cases e
  | function definition' =>
    cases e
    exact ⟨definition, mem', mem⟩

theorem mem_ofUnit_of_scope {scope : Scope} (mem : scope ∈ u.scopes)
    (h : OfScope u target scope task) : task ∈ ofUnit u target := by
  obtain ⟨definition, item, mem⟩ := exists_item_of_scope mem
  exact mem_ofUnit_of_item item fun next =>
    List.mem_append_right _ (mem_ofStatements definition.body mem h)

/-- The tasks of a tag are among those of the unit. -/
theorem mem_ofUnit_of_tag {tag : Tag} (mem : tag ∈ u.writtenTags)
    (h : task ∈ ofTag u.types tag) : task ∈ ofUnit u target := by
  rcases List.mem_append.1 mem with mem | mem
  · obtain ⟨scope, inUnit, mem⟩ := List.mem_flatMap.1 mem
    exact mem_ofUnit_of_scope inUnit (.inl ⟨tag, mem, h⟩)
  · split at mem
    · cases mem
    · next some =>
      obtain ⟨item, rest, items⟩ := List.exists_cons_of_ne_nil (by simpa using some)
      apply mem_ofUnit_of_symbol (items ▸ List.mem_cons_self)
      exact List.mem_append_left _ (List.mem_append_left _ (List.mem_flatMap.2 ⟨tag, mem, h⟩))

theorem mem_ofUnit_of_declaration {decl : Declaration} (mem : decl ∈ u.declarations)
    (h : task ∈ ofLocal u target decl) : task ∈ ofUnit u target := by
  rcases List.mem_append.1 mem with mem | mem
  · obtain ⟨item, inUnit, rfl⟩ := List.mem_map.1 mem
    exact mem_ofUnit_of_symbol inUnit (List.mem_append_right _ h)
  · obtain ⟨scope, inUnit, mem⟩ := List.mem_flatMap.1 mem
    exact mem_ofUnit_of_scope inUnit (.inr ⟨decl, mem, h⟩)

theorem mem_ofUnit_of_parameter {param : Declaration} (mem : param ∈ u.parameters)
    (h : task ∈ ofParameter target param) : task ∈ ofUnit u target := by
  obtain ⟨definition, item, mem⟩ := List.mem_flatMap.1 mem
  obtain ⟨item', mem', e⟩ := List.mem_filterMap.1 item
  cases item' with
  | symbol decl => cases e
  | function definition' =>
    cases e
    apply mem_ofUnit_of_item mem'
    intro next
    exact List.mem_append_left _ (List.mem_append_right _ (List.mem_flatMap.2 ⟨param, mem, h⟩))

theorem mem_ofUnit_of_typedef {entry : TypeId × TypeNode} (mem : entry ∈ u.types.entries)
    (named : entry.2.typedefName?.isSome = true) : .typedef entry.1 ∈ ofUnit u target := by
  have typedef : .typedef entry.1 ∈ ofTypedefs u.types :=
    List.mem_map.2 ⟨entry, List.mem_filter.2 ⟨mem, named⟩, rfl⟩
  simp only [ofUnit, prelude, List.mem_append, List.mem_cons]
  exact .inl (.inr (.inr (.inr typedef)))

/-- Every task of a unit has an origin in the unit. -/
theorem origin_of_mem (h : task ∈ ofUnit u target) : Origin u target task := by
  obtain ⟨rest, typedefs⟩ := ofTypedefs_builtins u.types
  have int : .typedef .int ∈ ofTypedefs u.types := typedefs ▸ List.mem_cons_self
  have char : .typedef .char ∈ ofTypedefs u.types :=
    typedefs ▸ List.mem_cons_of_mem _ List.mem_cons_self
  rcases List.mem_append.1 h with h | h
  · rw [prelude, List.mem_cons, List.mem_cons, List.mem_cons] at h
    rcases h with rfl | rfl | rfl | h
    · exact .sourceFile
    · exact origin_of_typedefs int
    · exact origin_of_typedefs char
    · exact origin_of_typedefs h
  · exact origin_of_items (List.Subset.refl _) h

end Task

end Stabs

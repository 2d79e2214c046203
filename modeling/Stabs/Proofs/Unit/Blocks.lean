import Stabs.Proofs.Unit.Scopes

/-!
# The blocks of a unit

A scope inside another one is a block and takes a number when it is entered. A unit enters each of
its blocks once, so the numbers that it takes are counted before anything is written.
-/
namespace Stabs

namespace Statement

mutual

/-- The number of scopes inside other scopes. Each of them is a block with a number of its own. -/
def blocks : Statement → Nat
  | compound body => allBlocks body
  | loop body => allBlocks body
  | branch thenPart otherwise => allBlocks thenPart + allBlocks otherwise
  | scope _ _ body => (allScopes body).length

def allBlocks : List Statement → Nat
  | [] => 0
  | statement :: rest => blocks statement + allBlocks rest

end

theorem allBlocks_append (a b : List Statement) :
    allBlocks (a ++ b) = allBlocks a + allBlocks b := by
  induction a with
  | nil => rw [List.nil_append, allBlocks, Nat.zero_add]
  | cons statement rest ih => rw [List.cons_append, allBlocks, allBlocks, ih, Nat.add_assoc]

end Statement

def Item.body : Item → List Statement
  | symbol _ => []
  | function definition => definition.body

/-- The number of blocks in all function bodies. -/
def CompilationUnit.blocks (u : CompilationUnit) : Nat :=
  Statement.allBlocks (u.items.flatMap Item.body)

variable {u : CompilationUnit} {target : Target} {types : TypeTable} {c c' : Context}
  {task : Task} {tasks : List Task} {entries journal : List Entry}

namespace Task

theorem count_enter_ofTags (tags : List Tag) :
    (tags.flatMap (ofTag types)).count .enter = 0 := by
  apply List.count_eq_zero.2
  intro mem
  obtain ⟨tag, -, mem⟩ := List.mem_flatMap.1 mem
  exact ofTag_ne_enter mem rfl

theorem count_enter_ofChoices {choice : Declaration → Except DescribeError (Option Symbol)}
    (decls : List Declaration) :
    (decls.flatMap fun decl => ofChoice (choice decl)).count .enter = 0 := by
  apply List.count_eq_zero.2
  intro mem
  obtain ⟨decl, -, mem⟩ := List.mem_flatMap.1 mem
  exact ofChoice_ne_enter mem rfl

theorem count_enter_ofSymbol (decl : Declaration) :
    (ofSymbol u target decl).count .enter = 0 :=
  List.count_eq_zero.2 fun mem => ofSymbol_ne_enter mem rfl

mutual

/-- Every scope is a block inside of a scope; outside only those within another one are. -/
theorem count_enter_ofStatement (depth : Nat) (params : List Declaration) (next : UInt32)
    (statement : Statement) :
    (ofStatement u target depth params next statement).count .enter =
      if 0 < depth then statement.scopes.length else statement.blocks := by
  cases statement with
  | compound body =>
    rw [ofStatement, Statement.scopes, Statement.blocks]
    exact count_enter_ofStatements depth [] next body
  | loop body =>
    rw [ofStatement, Statement.scopes, Statement.blocks]
    exact count_enter_ofStatements depth [] next body
  | branch thenPart otherwise =>
    rw [ofStatement, Statement.scopes, Statement.blocks, List.count_append, List.length_append,
      count_enter_ofStatements, count_enter_ofStatements]
    split <;> rfl
  | scope tags vars body =>
    have inner (next : UInt32) :
        (ofStatements u target (depth + 1) [] next body).count .enter =
          (Statement.allScopes body).length := by
      rw [count_enter_ofStatements, if_pos depth.succ_pos]
    rw [ofStatement, Statement.scopes, Statement.blocks, List.count_append, List.count_append,
      List.count_append, count_enter_ofTags]
    unfold ofLocal ofRegisterParameter
    rw [count_enter_ofChoices, count_enter_ofChoices]
    split
    · simp [inner]
    · simp [inner]

theorem count_enter_ofStatements (depth : Nat) (params : List Declaration) (next : UInt32)
    (statements : List Statement) :
    (ofStatements u target depth params next statements).count .enter =
      if 0 < depth then (Statement.allScopes statements).length
      else Statement.allBlocks statements := by
  cases statements with
  | nil => simp [ofStatements, Statement.allScopes, Statement.allBlocks]
  | cons statement rest =>
    rw [ofStatements, Statement.allScopes, Statement.allBlocks, List.count_append,
      List.length_append, count_enter_ofStatement, count_enter_ofStatements]
    split <;> rfl

end

theorem count_enter_ofItem (next : UInt32) (item : Item) :
    (ofItem u target next item).count .enter = Statement.allBlocks item.body := by
  cases item with
  | symbol decl => exact count_enter_ofSymbol decl
  | function definition =>
    rw [ofItem, List.count_append, List.count_append, count_enter_ofSymbol,
      count_enter_ofStatements]
    unfold ofParameter
    rw [count_enter_ofChoices]
    simp [Item.body]

theorem count_enter_ofItems (next : UInt32) (items : List Item) :
    (ofItems u target next items).count .enter =
      Statement.allBlocks (items.flatMap Item.body) := by
  induction items generalizing next with
  | nil => simp [ofItems, Statement.allBlocks]
  | cons item rest ih =>
    rw [ofItems, List.count_append, count_enter_ofItem, ih, List.flatMap_cons,
      Statement.allBlocks_append]

/-- A unit enters each of its blocks once. -/
theorem count_enter_ofUnit : (ofUnit u target).count .enter = u.blocks := by
  have typedefs : (ofTypedefs u.types).count .enter = 0 := by
    apply List.count_eq_zero.2
    intro mem
    obtain ⟨entry, -, e⟩ := List.mem_map.1 mem
    cases e
  rw [ofUnit, List.count_append, count_enter_ofItems, prelude]
  simp [typedefs, CompilationUnit.blocks]

end Task

theorem Acts.nextBlock (h : Acts types c task entries c') :
    c'.nextBlock.toNat = c.nextBlock.toNat + [task].count .enter := by
  cases h with
  | @described task symbol marks N due steps =>
    cases task with
    | enter => cases due
    | _ => rfl
  | enter room =>
    have one : (1 : UInt32).toNat = 1 := rfl
    simp only [Context.entered, UInt32.toNat_add, one]
    rw [Nat.mod_eq_of_lt room]
    rfl
  | _ => rfl

/-- A run takes one number for each block that it enters. -/
theorem Performs.nextBlock (h : Performs types c tasks journal c') :
    c'.nextBlock.toNat = c.nextBlock.toNat + tasks.count .enter := by
  induction h with
  | nil => rfl
  | @cons c c₁ c₂ task tasks entries journal first _ ih =>
    have count : (task :: tasks).count .enter = [task].count .enter + tasks.count .enter := by
      rw [← List.count_append]
      rfl
    rw [ih, first.nextBlock, count, Nat.add_assoc]

end Stabs

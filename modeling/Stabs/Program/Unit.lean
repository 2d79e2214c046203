import Stabs.Program.Declaration
import Stabs.Types.Table

/-!
# Compilation units

A unit is its type table, its file-scope tags and its items in source order. Of a function body
only the statements that matter for scoping are kept: plain nesting, loops, conditionals, and
scopes that declare tags and variables of their own.
-/
namespace Stabs

/-- The tag of a record, union or enumeration declared in some scope. -/
structure Tag where
  name : Option String
  ty : TypeId
deriving DecidableEq, Repr

inductive Statement where
  | compound (body : List Statement)
  | loop (body : List Statement)
  | branch (thenPart otherwise : List Statement)
  | scope (tags : List Tag) (vars : List Declaration) (body : List Statement)
deriving Repr

namespace Statement

mutual

def decEq : (a b : Statement) → Decidable (a = b)
  | compound a, compound b =>
    match decEqList a b with
    | isTrue h => isTrue (h ▸ rfl)
    | isFalse h => isFalse fun e => h (compound.inj e)
  | loop a, loop b =>
    match decEqList a b with
    | isTrue h => isTrue (h ▸ rfl)
    | isFalse h => isFalse fun e => h (loop.inj e)
  | branch a c, branch b d =>
    match decEqList a b, decEqList c d with
    | isTrue h, isTrue k => isTrue (h ▸ k ▸ rfl)
    | isFalse h, _ => isFalse fun e => h (branch.inj e).1
    | _, isFalse k => isFalse fun e => k (branch.inj e).2
  | scope t v a, scope u w b =>
    match decEqList a b with
    | isTrue h =>
      if k : t = u ∧ v = w then isTrue (h ▸ k.1 ▸ k.2 ▸ rfl)
      else isFalse fun e => k ⟨(scope.inj e).1, (scope.inj e).2.1⟩
    | isFalse h => isFalse fun e => h (scope.inj e).2.2
  | compound _, loop _ | compound _, branch _ _ | compound _, scope _ _ _
  | loop _, compound _ | loop _, branch _ _ | loop _, scope _ _ _
  | branch _ _, compound _ | branch _ _, loop _ | branch _ _, scope _ _ _
  | scope _ _ _, compound _ | scope _ _ _, loop _ | scope _ _ _, branch _ _ =>
    isFalse nofun

def decEqList : (a b : List Statement) → Decidable (a = b)
  | [], [] => isTrue rfl
  | [], _ :: _ | _ :: _, [] => isFalse nofun
  | a :: as, b :: bs =>
    match decEq a b, decEqList as bs with
    | isTrue h, isTrue k => isTrue (h ▸ k ▸ rfl)
    | isFalse h, _ => isFalse fun e => h (List.cons.inj e).1
    | _, isFalse k => isFalse fun e => k (List.cons.inj e).2

end

instance : DecidableEq Statement := decEq

end Statement

/-- A function with its parameters and its body. -/
structure FunctionDefinition where
  decl : Declaration
  params : List Declaration := []
  body : List Statement := []
deriving DecidableEq

inductive Item where
  | symbol (decl : Declaration)
  | function (definition : FunctionDefinition)
deriving DecidableEq

/-- The declaration that an item makes at file scope. -/
def Item.decl : Item → Declaration
  | symbol decl => decl
  | function definition => definition.decl

structure CompilationUnit where
  sourceFile : String
  types : TypeTable
  tags : List Tag := []
  items : List Item := []
deriving DecidableEq

namespace CompilationUnit

/-- The function items of a unit, in source order. -/
def functions (u : CompilationUnit) : List FunctionDefinition :=
  u.items.filterMap fun
    | .function definition => some definition
    | .symbol _ => none

end CompilationUnit

end Stabs

import Stabs.Describe.Declaration

/-!
# Function bodies and units

The symbols of a scope stand before its left bracket. The outermost scopes of a function have no
brackets, since the record of the function delimits them; every scope inside another one gets a
pair of markers, numbered in the order in which the scopes are entered.

A unit starts with its source file, the typedefs of `int` and `char` under the numbers one and two,
and all other typedefs; its items follow in source order.
-/
namespace Stabs

namespace Context

def enterBlock : Emitting UInt32 := do
  let number ← allocateBlock
  onOutput (·.marker .leftBracket ("LBB" ++ number.toNat.repr))
  return number

def leaveBlock (number : UInt32) : Emitting Unit :=
  onOutput (·.marker .rightBracket ("LBE" ++ number.toNat.repr))

mutual

/-- Walks a statement that stands inside `depth` scopes. The parameters are those of the function
for its top-level statements, and none elsewhere; a scope among the former describes the
parameters that live in registers. -/
def walk (u : CompilationUnit) (target : Target) (depth : Nat) (params : List Declaration) :
    Statement → Emitting Unit
  | .compound body => walkAll u target depth [] body
  | .loop body => walkAll u target depth [] body
  | .branch thenPart otherwise => do
    walkAll u target depth [] thenPart
    walkAll u target depth [] otherwise
  | .scope tags vars body => do
    emitTags u.types tags
    forM vars fun decl => emitSymbol u target decl true
    emitRegisterParameters u.types target params
    if 0 < depth then do
      let number ← enterBlock
      walkAll u target (depth + 1) [] body
      leaveBlock number
    else walkAll u target (depth + 1) [] body

def walkAll (u : CompilationUnit) (target : Target) (depth : Nat) (params : List Declaration) :
    List Statement → Emitting Unit
  | [] => pure ()
  | statement :: rest => do
    walk u target depth params statement
    walkAll u target depth params rest

end

/-- The symbol of the function, its parameters, then its body. -/
def emitFunction (u : CompilationUnit) (target : Target) (definition : FunctionDefinition) :
    Emitting Unit := do
  emitSymbol u target definition.decl false
  emitParameters u.types target definition.params
  walkAll u target 0 definition.params definition.body

def emitItem (u : CompilationUnit) (target : Target) : Item → Emitting Unit
  | .symbol decl => emitSymbol u target decl false
  | .function definition => emitFunction u target definition

/-- What stands before the first item. -/
def emitPrelude (u : CompilationUnit) (target : Target) : Emitting Unit := do
  onOutput (·.sourceFile u.sourceFile target.textLabel)
  emitTypedef u.types .int
  emitTypedef u.types .char
  flushTypedefs u.types

def emitUnit (u : CompilationUnit) (target : Target) : Emitting Unit := do
  emitPrelude u target
  forM u.items (emitItem u target)

end Context

/-- Writes units for one target, one at a time. What is left after a unit can be looked at until
the next one starts. -/
structure Writer where
  target : Target
  context : Context

namespace Writer

def ofTarget (target : Target) : Writer := ⟨target, .fresh target.firstBlock⟩

/-- The records of a unit in output order, or why there are none. -/
def describe (writer : Writer) (u : CompilationUnit) :
    Except DescribeError (List Record) × Writer :=
  match Context.emitUnit u writer.target (writer.context.reset writer.target.firstBlock) with
  | .ok _ c =>
    (.ok c.out.records.toList, { writer with context := { c with out := c.out.takeRecords.2 } })
  | .error cause c => (.error cause, { writer with context := c })

/-- The assembler text of a unit. -/
def generate (writer : Writer) (u : CompilationUnit) : Except DescribeError String × Writer :=
  match writer.describe u with
  | (records, after) => (records.map Record.renderAll, after)

end Writer

end Stabs

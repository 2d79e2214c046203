import Stabs.Describe.Symbol

/-!
# The state of a unit in progress

Numbering and output, the number of the next nested block, and the types whose typedef has been
written. One description is started, filled with its type and finished; if its type cannot be
written the description stays unfinished.
-/
namespace Stabs

structure Context extends Sheet where
  nextBlock : UInt32
  typedefsWritten : List TypeId := []

abbrev Emitting := Describing Context

namespace Context

/-- The state before anything is written. -/
def fresh (firstBlock : UInt32) : Context := { nextBlock := firstBlock }

/-- Drops everything that was written or numbered. -/
def reset (c : Context) (firstBlock : UInt32) : Context :=
  { c with
    numbering := c.numbering.reset
    out := c.out.reset
    nextBlock := firstBlock
    typedefsWritten := [] }

/-- Nothing of what was written or numbered is left. -/
theorem reset_eq (c : Context) (firstBlock : UInt32) : c.reset firstBlock = fresh firstBlock := rfl

def onOutput (edit : Emitter → Emitter) : Emitting Unit :=
  modify fun c => { c with out := edit c.out }

/-- Runs a step on numbering and output alone. -/
def onSheet {α : Type} (step : Describing Sheet α) : Emitting α := fun c =>
  match step c.toSheet with
  | .ok a sheet => .ok a { c with toSheet := sheet }
  | .error cause sheet => .error cause { c with toSheet := sheet }

/-- The number of the next nested block, in the order in which blocks are entered. The last number
is never given out. -/
def allocateBlock : Emitting UInt32 := fun c =>
  if c.nextBlock.toNat + 1 < UInt32.size then
    .ok c.nextBlock { c with nextBlock := c.nextBlock + 1 }
  else .error (.blockNumbersExhausted c.nextBlock) c

def markTypedefWritten (ty : TypeId) : Emitting Unit :=
  modify fun c => { c with typedefsWritten := c.typedefsWritten.insert ty }

/-- One complete description. -/
def describe (types : TypeTable) (symbol : Symbol) : Emitting Unit := do
  onOutput (·.start symbol.name symbol.letter symbol.code symbol.value)
  onSheet (TypeDescription.encode types symbol.ty symbol.full)
  onOutput Emitter.finish

/-- Describes a symbol if there is one. -/
def describe? (types : TypeTable) : Option Symbol → Emitting Unit
  | some symbol => describe types symbol
  | none => pure ()

/-- A failure to choose a symbol stops the step. -/
def orFail {α : Type} : Except DescribeError α → Emitting α
  | .ok a => pure a
  | .error cause => throw cause

end Context

end Stabs

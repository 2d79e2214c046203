/-!
# Target descriptions

What the writer has to know about the target: byte order, the number of the first nested block,
the label of the text section and how the debugger numbers the hard registers.
-/
namespace Stabs

structure RegisterMapping where
  hard : UInt32
  debugger : UInt32
deriving DecidableEq, Repr

structure Target where
  bigEndian : Bool := false
  firstBlock : UInt32 := 2
  textLabel : String := "Ltext"
  registers : List RegisterMapping := []
deriving DecidableEq, Repr

namespace Target

def withBigEndian (target : Target) (bigEndian : Bool) : Target := { target with bigEndian }

/-- Renumbers one hard register; all earlier entries for it are dropped. -/
def withRegister (target : Target) (hard debugger : UInt32) : Target :=
  { target with registers := target.registers.filter (·.hard ≠ hard) ++ [⟨hard, debugger⟩] }

/-- The debugger's number of a hard register: that of the first entry for it, or its own. -/
def debuggerRegister (target : Target) (regno : UInt32) : UInt32 :=
  match target.registers.find? (·.hard == regno) with
  | some mapping => mapping.debugger
  | none => regno

end Target

end Stabs

import Stabs.Command.Run

/-!
# The program

Reads the files that a command line names, runs the command on them, and writes what comes out.
-/
namespace Stabs.Command

/-- Reads the file under a path. -/
def readFile (path : String) : IO (Except FileError String) := do
  try return .ok (← IO.FS.readFile path) catch e => return .error (.other e.toString)

/-- Reads the files under some paths; others count as absent. -/
def readFiles (paths : List String) : IO Files := do
  let texts ← paths.mapM fun path => do return (path, ← readFile path)
  return fun path => (texts.lookup path).getD (.error .absent)

def report (cause : CommandError) : IO UInt32 := do
  IO.eprintln ("Error: " ++ cause.message)
  return 1

/-- Writes a text to a file, or to the standard output if there is none. -/
def emitTo (text : String) : Option String → IO UInt32
  | none => do
    IO.print text
    return 0
  | some path => do
    try
      IO.FS.writeFile path text
      return 0
    catch e => report (.unwritable path (.other e.toString))

def usage : String :=
  "usage: emit --input FILE [--output FILE] [--config FILE] | config [--config FILE]"

end Stabs.Command

open Stabs

def main (args : List String) : IO UInt32 := do
  match Command.parse? args (← IO.getEnv "STABSGEN_CONFIG") with
  | none => do
    IO.eprintln Command.usage
    return 2
  | some (.emit input output target) => do
    match Command.assemble (← Command.readFiles (input :: target.toList)) input target with
    | .ok text => Command.emitTo text output
    | .error cause => Command.report cause
  | some (.config target) => do
    match Command.showTarget (← Command.readFiles target.toList) target with
    | .ok text => Command.emitTo text none
    | .error cause => Command.report cause

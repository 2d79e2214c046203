import Stabs.Command.Arguments
import Stabs.Command.Directory
import Stabs.Describe.Unit
import Stabs.Interchange.Target
import Stabs.Interchange.Unit
import Stabs.Hidden

/-!
# Running commands

`emit` writes the assembler text of a unit, `config` shows the target description in effect. The
target is read before the unit, so its faults come first.
-/
namespace Stabs

/-- Why a command failed. -/
inductive CommandError where
  | unreadableTarget (path : String) (cause : FileError)
  | badTarget (path : String) (cause : TargetError)
  | unreadableUnit (path : String) (cause : FileError)
  | badUnit (cause : UnitError)
  | undescribed (sourceFile : String) (cause : DescribeError)
  | unwritable (path : String) (cause : FileError)
deriving DecidableEq, Repr

namespace CommandError

/-- Hexadecimal digits without leading zeros. -/
def hex (n : Nat) : String := .ofList (Nat.toDigits 16 n)

/-- A path in quotes. Quotes, backslashes and characters that do not show are escaped. -/
def quotePath (path : String) : String :=
  "\"" ++ String.join (path.toList.map fun c =>
    match c with
    | '"' => "\\\""
    | '\\' => "\\\\"
    | '\n' => "\\n"
    | '\r' => "\\r"
    | '\t' => "\\t"
    | '\x00' => "\\0"
    | c =>
      if isHidden c then "\\u\x7b" ++ hex c.toNat ++ "\x7d" else c.toString) ++ "\""

def message : CommandError → String
  | unreadableTarget path _ => "Failed to load configuration: " ++ quotePath path
  | badTarget path _ => "Failed to load configuration: " ++ quotePath path
  | unreadableUnit path _ => "Failed to read unit file: " ++ quotePath path
  | badUnit _ => "Failed to parse unit JSON"
  | undescribed sourceFile _ => "Failed to describe " ++ sourceFile
  | unwritable path _ => "Failed to write output: " ++ quotePath path

end CommandError

namespace Command

/-- How the text of a file is had from its path. -/
abbrev Files := String → Except FileError String

def loadTarget (files : Files) : Option String → Except CommandError Target
  | none => .ok {}
  | some path => do
    let text ← (files path).mapError (.unreadableTarget path)
    (Target.parse text).mapError (.badTarget path)

/-- The assembler text of the unit in a file. -/
def assemble (files : Files) (input : String) (target : Option String) :
    Except CommandError String := do
  let target ← loadTarget files target
  let text ← (files input).mapError (.unreadableUnit input)
  let u ← (CompilationUnit.parse text).mapError .badUnit
  ((Writer.ofTarget target).generate u).1.mapError (.undescribed u.sourceFile)

/-- The assembler text of the unit in a file, also written to the output if there is one. -/
def assembleTo (directory : Directory) (input : String) (output target : Option String) :
    Except CommandError (String × Directory) := do
  let text ← assemble directory.read input target
  match output with
  | none => return (text, directory)
  | some path => return (text, ← (directory.write path text).mapError (.unwritable path))

def showTarget (files : Files) (target : Option String) : Except CommandError String := do
  return (← loadTarget files target).render

/-- What a run of the program leaves behind. -/
structure Outcome where
  exit : UInt32
  stdout : String := ""
  directory : Directory

/-- Runs a command. A failure leaves the files as they are. -/
def run (directory : Directory) : Command → Outcome
  | .emit input output target =>
    match assembleTo directory input output target with
    | .ok (text, after) =>
      { exit := 0, stdout := if output.isSome then "" else text, directory := after }
    | .error _ => { exit := 1, directory }
  | .config target =>
    match showTarget directory.read target with
    | .ok text => { exit := 0, stdout := text, directory }
    | .error _ => { exit := 1, directory }

/-- Runs a command line; one that is not well-formed ends with the exit code two. -/
def runArguments (directory : Directory) (args : List String) (environment : Option String) :
    Outcome :=
  match parse? args environment with
  | none => { exit := 2, directory }
  | some command => run directory command

end Command

end Stabs

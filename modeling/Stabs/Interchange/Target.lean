import Stabs.Program.Target
import Stabs.Toml.Reader

/-!
# The TOML form of targets

Every key may be left out, and keys that a target does not know are passed over. A register
mapping is a table, or an array that starts with the two numbers.
-/
namespace Stabs

/-- Why a text describes no target: it is no TOML, or it has the wrong shape. -/
inductive TargetError where
  | notToml
  | shape
deriving DecidableEq, Repr

namespace Toml

def asBool? : Toml → Option Bool
  | .boolean b => some b
  | _ => none

def asUInt32? : Toml → Option UInt32
  | .integer n => if 0 ≤ n ∧ n < UInt32.size then some (.ofNat n.toNat) else none
  | _ => none

def asText? : Toml → Option String
  | .string s => some s
  | _ => none

/-- An array, or the tables under a header in double brackets. -/
def asList? : Toml → Option (List Toml)
  | .array vs => some vs
  | .tables items => some (items.map (.table .header))
  | _ => none

end Toml

def RegisterMapping.ofToml? : Toml → Option RegisterMapping
  | .table _ entries => do
    let hard ← (← entries.lookup "hard").asUInt32?
    let debugger ← (← entries.lookup "debugger").asUInt32?
    return { hard, debugger }
  | .array (hard :: debugger :: _) => do
    let hard ← hard.asUInt32?
    let debugger ← debugger.asUInt32?
    return { hard, debugger }
  | _ => none

namespace Target

/-- The value of a key, or the given one if the key is left out. -/
def keyOr {α : Type} (entries : Toml.Entries) (key : String) (absent : α)
    (read : Toml → Option α) : Option α :=
  match entries.lookup key with
  | some v => read v
  | none => some absent

def ofToml? (entries : Toml.Entries) : Option Target := do
  let bigEndian ← keyOr entries "big_endian" false Toml.asBool?
  let firstBlock ← keyOr entries "first_block_number" 2 Toml.asUInt32?
  let textLabel ← keyOr entries "text_label" "Ltext" Toml.asText?
  let registers ← keyOr entries "register_numbers" [] fun v => do
    (← v.asList?).mapM RegisterMapping.ofToml?
  return { bigEndian, firstBlock, textLabel, registers }

def parse (text : String) : Except TargetError Target :=
  match Toml.parse? text with
  | none => .error .notToml
  | some entries =>
    match ofToml? entries with
    | some target => .ok target
    | none => .error .shape

/-- The lines of one register mapping, behind an empty one. -/
def renderMapping (mapping : RegisterMapping) : String :=
  "\n[[register_numbers]]\nhard = " ++ mapping.hard.toNat.repr ++ "\ndebugger = " ++
    mapping.debugger.toNat.repr ++ "\n"

/-- The text of a target, every key written. -/
def render (target : Target) : String :=
  "big_endian = " ++ (if target.bigEndian then "true" else "false") ++
    "\nfirst_block_number = " ++ target.firstBlock.toNat.repr ++
    "\ntext_label = " ++ String.ofList (Toml.Text.write target.textLabel.toList) ++ "\n" ++
    match target.registers with
    | [] => "register_numbers = []\n"
    | registers => String.join (registers.map renderMapping)

end Target

end Stabs

/-!
# Command lines

Two commands, `emit` and `config`, with options that take a path. A path stands behind its option
as the next argument, behind an equals sign, or right behind a short option. No option repeats and
no path is empty. Flags for the amount of logging may stand before the command. The target
description that no option names is taken from the environment.
-/
namespace Stabs

/-- A well-formed command line. -/
inductive Command where
  | emit (input : String) (output target : Option String)
  | config (target : Option String)
deriving DecidableEq, Repr

namespace Command

/-- An option with a path. -/
inductive PathOption where
  | input
  | output
  | target
deriving DecidableEq, Repr

namespace PathOption

def short : PathOption → Char
  | input => 'i'
  | output => 'o'
  | target => 'c'

def long : PathOption → List Char
  | input => "input".toList
  | output => "output".toList
  | target => "config".toList

end PathOption

/-- The options that have been given, with their paths. -/
abbrev Given := List (PathOption × String)

def Given.path? (given : Given) (option : PathOption) : Option String := given.lookup option

/-- Adds an option that is not there yet. -/
def Given.add? (given : Given) (option : PathOption) (path : List Char) : Option Given :=
  if (given.path? option).isSome || path.isEmpty then none
  else some ((option, .ofList path) :: given)

/-- An option as an argument spells it, with the path if the argument holds it. -/
def option? (known : List PathOption) : List Char → Option (PathOption × Option (List Char))
  | '-' :: '-' :: rest =>
    let name := rest.takeWhile (· ≠ '=')
    (known.find? (·.long = name)).map fun option =>
      (option, if name.length < rest.length then some (rest.drop (name.length + 1)) else none)
  | '-' :: c :: rest =>
    (known.find? (·.short = c)).map fun option =>
      (option, match rest with
        | [] => none
        | '=' :: path => some path
        | path => some path)
  | _ => none

/-- An argument that is taken for an option wherever it stands. -/
def looksLikeOption : List Char → Bool
  | '-' :: _ :: _ => true
  | _ => false

/-- Reads the options behind a command; two dashes may end them. -/
def options (known : List PathOption) (given : Given) : List (List Char) → Option Given
  | [] => some given
  | [['-', '-']] => some given
  | arg :: rest =>
    match option? known arg with
    | none => none
    | some (option, some path) =>
      match given.add? option path with
      | some given => options known given rest
      | none => none
    | some (option, none) =>
      match rest with
      | [] => none
      | path :: rest =>
        if looksLikeOption path then none
        else match given.add? option path with
          | some given => options known given rest
          | none => none

/-- A path from an option or else from the environment, where it must not be empty. -/
def orEnvironment (path environment : Option String) : Option (Option String) :=
  match path with
  | some path => some (some path)
  | none =>
    match environment with
    | some path => if path.isEmpty then none else some (some path)
    | none => some none

def ofEmit? (args : List (List Char)) (environment : Option String) : Option Command := do
  let given ← options [.input, .output, .target] [] args
  let input ← given.path? .input
  return .emit input (given.path? .output) (← orEnvironment (given.path? .target) environment)

def ofConfig? (args : List (List Char)) (environment : Option String) : Option Command := do
  let given ← options [.target] [] args
  return .config (← orEnvironment (given.path? .target) environment)

/-- The flags that an argument sets. -/
def flags? : List Char → Option (List Char)
  | '-' :: '-' :: rest =>
    if rest = "verbose".toList then some ['v']
    else if rest = "debug".toList then some ['d']
    else none
  | '-' :: c :: rest =>
    if (c :: rest).all (fun c => c = 'v' || c = 'd') then some (c :: rest) else none
  | _ => none

/-- Reads a command line; `seen` holds the flags so far. -/
def ofArguments? (seen : List Char) (environment : Option String) :
    List (List Char) → Option Command
  | [] => none
  | arg :: rest =>
    if arg = "emit".toList then ofEmit? rest environment
    else if arg = "config".toList then ofConfig? rest environment
    else match flags? arg with
      | none => none
      | some flags =>
        if (seen ++ flags).Nodup then ofArguments? (seen ++ flags) environment rest else none

/-- The command that the arguments give, unless they are no proper command line. -/
def parse? (args : List String) (environment : Option String) : Option Command :=
  ofArguments? [] environment (args.map String.toList)

end Command

end Stabs

import Stabs.Toml.Scalar
import Stabs.Toml.Text

/-!
# Reading TOML

A document is a list of lines: headers, keys with their values, comments and blanks. Arrays may
run over several lines, inline tables may not. Values are nested, and keys are dotted, at most 79
deep.
-/
namespace Stabs.Toml.Reader

open Text

def depthLimit : Nat := 79

def skipBlanks (cs : List Char) : List Char := cs.dropWhile isBlank

def isBareKeyChar (c : Char) : Bool := c.isAlphanum || c = '_' || c = '-'

/-- One part of a key: bare, or a string on one line. -/
def keyPart : List Char → Option (String × List Char)
  | '"' :: rest => basic [] rest
  | '\'' :: rest => literal [] rest
  | cs =>
    if (cs.takeWhile isBareKeyChar).isEmpty then none
    else some (.ofList (cs.takeWhile isBareKeyChar), cs.dropWhile isBareKeyChar)

/-- The parts of a key, with the blanks around them. -/
def keyParts : Nat → List Char → Option (List String × List Char)
  | 0, _ => none
  | limit + 1, cs => do
    let (part, rest) ← keyPart (skipBlanks cs)
    match skipBlanks rest with
    | '.' :: rest => do
      let (parts, rest) ← keyParts limit rest
      return (part :: parts, rest)
    | rest => return ([part], rest)

def key (cs : List Char) : Option (KeyPath × List Char) := do
  let (parts, rest) ← keyParts depthLimit cs
  return (← KeyPath.ofParts? parts, rest)

/-- White space, line breaks and comments between the elements of an array; `inComment` is set
behind a number sign. -/
def skipTrivia (inComment : Bool) : List Char → List Char
  | [] => []
  | '\n' :: rest => skipTrivia false rest
  | '\r' :: '\n' :: rest => skipTrivia false rest
  | c :: rest =>
    if inComment then if isForbidden c then c :: rest else skipTrivia true rest
    else if isBlank c then skipTrivia false rest
    else if c = '#' then skipTrivia true rest
    else c :: rest

mutual

/-- Reads a value. Each bracket uses up two of the steps and one level of the depth. -/
def value : Nat → Nat → List Char → Option (Toml × List Char)
  | 0, _, _ => none
  | steps + 1, depth, cs =>
    match cs with
    | '"' :: rest => (readRest '"' rest).map fun (s, rest) => (.string s, rest)
    | '\'' :: rest => (readRest '\'' rest).map fun (s, rest) => (.string s, rest)
    | 't' :: 'r' :: 'u' :: 'e' :: rest => some (.boolean true, rest)
    | 'f' :: 'a' :: 'l' :: 's' :: 'e' :: rest => some (.boolean false, rest)
    | '[' :: rest =>
      match depth with
      | 0 => none
      | depth + 1 => do
        let (vs, rest) ← elements steps depth rest
        return (.array vs, rest)
    | '{' :: rest =>
      match depth with
      | 0 => none
      | depth + 1 =>
        match skipBlanks rest with
        | '}' :: rest => some (.table .inline [], rest)
        | rest => do
          let (entries, rest) ← members steps depth [] rest
          return (.table .inline entries, rest)
    | _ => (Scalar.time cs).or (Scalar.number cs)

/-- Reads the elements of an array up to its closing bracket; a comma may stand behind the last
one. -/
def elements : Nat → Nat → List Char → Option (List Toml × List Char)
  | 0, _, _ => none
  | steps + 1, depth, cs =>
    match skipTrivia false cs with
    | ']' :: rest => some ([], rest)
    | cs => do
      let (v, rest) ← value steps depth cs
      match skipTrivia false rest with
      | ',' :: rest => do
        let (vs, rest) ← elements steps depth rest
        return (v :: vs, rest)
      | ']' :: rest => return ([v], rest)
      | _ => none

/-- Reads the members of an inline table up to its closing brace. -/
def members : Nat → Nat → Entries → List Char → Option (Entries × List Char)
  | 0, _, _, _ => none
  | steps + 1, depth, entries, cs => do
    let (path, rest) ← key cs
    match rest with
    | '=' :: rest => do
      let (v, rest) ← value steps depth (skipBlanks rest)
      let entries ← entries.assign .inline path v
      match skipBlanks rest with
      | ',' :: rest => members steps depth entries rest
      | '}' :: rest => return (entries, rest)
      | _ => none
    | _ => none

end

/-- Reads to the end of a line that says no more; a comment may stand there. -/
def lineEnd (cs : List Char) : Option (List Char) :=
  let rest := match skipBlanks cs with
    | '#' :: rest => rest.dropWhile fun c => !isForbidden c
    | rest => rest
  match rest with
  | [] => some []
  | '\n' :: rest => some rest
  | '\r' :: '\n' :: rest => some rest
  | _ => none

/-- Reads a header or a key with its value. -/
def line : List Char → Option (Line × List Char)
  | '[' :: '[' :: rest => do
    let (path, rest) ← key rest
    match rest with
    | ']' :: ']' :: rest => return (.itemHeader path, rest)
    | _ => none
  | '[' :: rest => do
    let (path, rest) ← key rest
    match rest with
    | ']' :: rest => return (.header path, rest)
    | _ => none
  | cs => do
    let (path, rest) ← key cs
    match rest with
    | '=' :: rest => do
      let rest := skipBlanks rest
      let (v, rest) ← value (2 * rest.length + 2) depthLimit rest
      return (.assignment path v, rest)
    | _ => none

/-- Reads the lines of a document, each within one step. -/
def lines : Nat → List Char → Option (List Line)
  | 0, _ => none
  | steps + 1, cs =>
    if (skipBlanks cs).isEmpty then some []
    else match lineEnd cs with
      | some rest => lines steps rest
      | none => do
        let (first, rest) ← line (skipBlanks cs)
        let rest ← lineEnd rest
        return first :: (← lines steps rest)

/-- A byte order mark may stand in front of the document. -/
def skipMark : List Char → List Char
  | '\uFEFF' :: rest => rest
  | cs => cs

end Stabs.Toml.Reader

namespace Stabs.Toml

/-- Reads the tables of a document. -/
def parse? (text : String) : Option Entries := do
  let cs := Reader.skipMark text.toList
  ofLines? (← Reader.lines (cs.length + 1) cs)

end Stabs.Toml

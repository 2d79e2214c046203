import Stabs.Json.Value

/-!
# Writing JSON

Text is written either without any white space, or with one member or element a line, indented
by two spaces a level. Quotes, backslashes and control characters are escaped, all else is
written as it is. For a number that is no integer one such number stands.
-/
namespace Stabs.Json

namespace Writer

def hexChar (n : Nat) : Char := Nat.digitChar n

/-- The form of one character inside a string. -/
def escapeChar (c : Char) : List Char :=
  match c with
  | '"' => ['\\', '"']
  | '\\' => ['\\', '\\']
  | '\x08' => ['\\', 'b']
  | '\x0c' => ['\\', 'f']
  | '\n' => ['\\', 'n']
  | '\r' => ['\\', 'r']
  | '\t' => ['\\', 't']
  | c =>
    if c.toNat < 32 then ['\\', 'u', '0', '0', hexChar (c.toNat / 16), hexChar (c.toNat % 16)]
    else [c]

def quote (s : String) : List Char := '"' :: s.toList.flatMap escapeChar ++ ['"']

/-- The break before a line at some level, if lines are broken at all. -/
def lineBreak (indented : Bool) (level : Nat) : List Char :=
  if indented then '\n' :: List.replicate (2 * level) ' ' else []

def colon (indented : Bool) : List Char := if indented then [':', ' '] else [':']

mutual

def write (indented : Bool) (level : Nat) : Json → List Char
  | .null => "null".toList
  | .bool true => "true".toList
  | .bool false => "false".toList
  | .int n => n.repr.toList
  | .fraction => "0.5".toList
  | .string s => quote s
  | .array [] => ['[', ']']
  | .array (v :: rest) =>
    '[' :: lineBreak indented (level + 1) ++ write indented (level + 1) v ++
      writeElements indented (level + 1) rest ++ lineBreak indented level ++ [']']
  | .object [] => ['{', '}']
  | .object ((key, v) :: rest) =>
    '{' :: lineBreak indented (level + 1) ++ quote key ++ colon indented ++
      write indented (level + 1) v ++ writeMembers indented (level + 1) rest ++
      lineBreak indented level ++ ['}']

/-- The elements after the first, each behind its comma. -/
def writeElements (indented : Bool) (level : Nat) : List Json → List Char
  | [] => []
  | v :: rest =>
    ',' :: lineBreak indented level ++ write indented level v ++ writeElements indented level rest

/-- The members after the first, each behind its comma. -/
def writeMembers (indented : Bool) (level : Nat) : List (String × Json) → List Char
  | [] => []
  | (key, v) :: rest =>
    ',' :: lineBreak indented level ++ quote key ++ colon indented ++ write indented level v ++
      writeMembers indented level rest

end

end Writer

/-- The text without white space. -/
def compact (v : Json) : String := String.ofList (Writer.write false 0 v)

/-- The text with one element or member a line. -/
def pretty (v : Json) : String := String.ofList (Writer.write true 0 v)

end Stabs.Json

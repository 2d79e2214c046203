import Stabs.Hexadecimal

/-!
# TOML strings

A string is basic, with escapes, or literal, without; and either stands on one line or, between
triple quotes, on several. Of several quotes at the end of a multi-line string at most two belong
to it. A line break is always a line feed in the value.

Writing chooses the plainest form that can hold the text: a basic string if nothing has to be
escaped but tabs, then a literal one, then the multi-line forms, and escapes only where none of
these will do.
-/
namespace Stabs.Toml.Text

def isBlank (c : Char) : Bool := c = ' ' || c = '\t'

/-- Control characters, the tab apart, stand nowhere in a document. -/
def isForbidden (c : Char) : Bool := (c.toNat < 32 && c ≠ '\t') || c.toNat = 127

/-! ## Reading -/

/-- The character with a number in hexadecimal digits. -/
def hexChar? (ds : List Char) : Option Char := do
  let n ← hexNumber? ds
  if n.isValidChar then some (.ofNat n) else none

def escaped? : Char → Option Char
  | 'b' => some '\x08'
  | 't' => some '\t'
  | 'n' => some '\n'
  | 'f' => some '\x0c'
  | 'r' => some '\r'
  | '"' => some '"'
  | '\\' => some '\\'
  | _ => none

/-- The character of an escape behind its backslash. -/
def escape? : List Char → Option (Char × List Char)
  | 'u' :: a :: b :: c :: d :: rest => (hexChar? [a, b, c, d]).map (·, rest)
  | 'U' :: a :: b :: c :: d :: e :: f :: g :: h :: rest =>
    (hexChar? [a, b, c, d, e, f, g, h]).map (·, rest)
  | c :: rest => (escaped? c).map (·, rest)
  | [] => none

theorem escape?_shorter {cs rest : List Char} {c : Char} (h : escape? cs = some (c, rest)) :
    rest.length < cs.length := by
  unfold escape? at h
  split at h
  all_goals first
    | obtain ⟨_, _, h⟩ := Option.map_eq_some_iff.1 h
      cases h
      simp only [List.length_cons]
      omega
    | cases h

/-- A basic string behind its opening quote. -/
def basic (done : List Char) : List Char → Option (String × List Char)
  | [] => none
  | '"' :: rest => some (.ofList done.reverse, rest)
  | '\\' :: rest =>
    match h : escape? rest with
    | some (c, left) =>
      have := escape?_shorter h
      basic (c :: done) left
    | none => none
  | c :: rest => if isForbidden c then none else basic (c :: done) rest
termination_by cs => cs.length

/-- A literal string behind its opening quote. -/
def literal (done : List Char) : List Char → Option (String × List Char)
  | [] => none
  | '\'' :: rest => some (.ofList done.reverse, rest)
  | c :: rest => if isForbidden c then none else literal (c :: done) rest

/-- Whether a line break comes next. -/
def startsLine : List Char → Bool
  | '\n' :: _ => true
  | '\r' :: '\n' :: _ => true
  | _ => false

/-- A line break right behind the opening quotes is not part of the string. -/
def skipFirstBreak : List Char → List Char
  | '\n' :: rest => rest
  | '\r' :: '\n' :: rest => rest
  | cs => cs

/-- The end of a multi-line string behind three closing quotes: up to two more quotes belong to
the string. -/
def closeMultiline (quote : Char) (done rest : List Char) : Option (String × List Char) :=
  let extra := rest.takeWhile (· = quote)
  if extra.length ≤ 2 then some (.ofList (done.reverse ++ extra), rest.drop extra.length) else none

/-- A multi-line basic string behind its opening quotes. A backslash at the end of a line skips
all white space that follows; `skipping` is set meanwhile. -/
def multilineBasic (skipping : Bool) (done : List Char) : List Char → Option (String × List Char)
  | [] => none
  | '"' :: '"' :: '"' :: rest => closeMultiline '"' done rest
  | '\n' :: rest => multilineBasic skipping (if skipping then done else '\n' :: done) rest
  | '\r' :: '\n' :: rest => multilineBasic skipping (if skipping then done else '\n' :: done) rest
  | '\\' :: rest =>
    if startsLine (rest.dropWhile isBlank) then multilineBasic true done rest
    else match h : escape? rest with
      | some (c, left) =>
        have := escape?_shorter h
        multilineBasic false (c :: done) left
      | none => none
  | c :: rest =>
    if skipping && isBlank c then multilineBasic true done rest
    else if isForbidden c then none
    else multilineBasic false (c :: done) rest
termination_by cs => cs.length

/-- A multi-line literal string behind its opening quotes. -/
def multilineLiteral (done : List Char) : List Char → Option (String × List Char)
  | [] => none
  | '\'' :: '\'' :: '\'' :: rest => closeMultiline '\'' done rest
  | '\n' :: rest => multilineLiteral ('\n' :: done) rest
  | '\r' :: '\n' :: rest => multilineLiteral ('\n' :: done) rest
  | c :: rest => if isForbidden c then none else multilineLiteral (c :: done) rest

/-- A string of any form behind its first quote. -/
def readRest (quote : Char) (rest : List Char) : Option (String × List Char) :=
  match quote, rest with
  | '"', '"' :: '"' :: rest => multilineBasic false [] (skipFirstBreak rest)
  | '"', _ => basic [] rest
  | _, '\'' :: '\'' :: rest => multilineLiteral [] (skipFirstBreak rest)
  | _, _ => literal [] rest

/-! ## Writing -/

/-- A character that only an escape can write: line feeds have forms of their own. -/
def needsEscape (c : Char) : Bool := isForbidden c && c ≠ '\n'

/-- Whether three of a character stand together somewhere. -/
def hasTriple (q : Char) : List Char → Bool
  | a :: b :: c :: rest => (a = q && b = q && c = q) || hasTriple q (b :: c :: rest)
  | _ => false

def upperHex (n : Nat) : Char := (Nat.digitChar n).toUpper

/-- The form of a character in a basic string, quotes and line feeds apart. -/
def escapeChar (c : Char) : List Char :=
  match c with
  | '\x08' => ['\\', 'b']
  | '\t' => ['\\', 't']
  | '\x0c' => ['\\', 'f']
  | '\r' => ['\\', 'r']
  | '\\' => ['\\', '\\']
  | c =>
    if isForbidden c then ['\\', 'u', '0', '0', upperHex (c.toNat / 16), upperHex (c.toNat % 16)]
    else [c]

/-- The body of a basic string on one line. -/
def basicBody (cs : List Char) : List Char :=
  cs.flatMap fun c =>
    match c with
    | '"' => ['\\', '"']
    | '\n' => ['\\', 'n']
    | c => escapeChar c

/-- The body of a multi-line basic string: of quotes that stand together every third is
escaped. -/
def multilineBody (quotes : Nat) : List Char → List Char
  | [] => []
  | '"' :: rest =>
    if quotes = 2 then '\\' :: '"' :: multilineBody 0 rest
    else '"' :: multilineBody (quotes + 1) rest
  | '\n' :: rest => '\n' :: multilineBody 0 rest
  | c :: rest => escapeChar c ++ multilineBody 0 rest

/-- A multi-line form starts on a line of its own if the text has a line break. -/
def firstBreak (cs : List Char) : List Char := if cs.contains '\n' then ['\n'] else []

def writeBasic (cs : List Char) : List Char := '"' :: basicBody cs ++ ['"']

def writeLiteral (cs : List Char) : List Char := '\'' :: cs ++ ['\'']

def writeMultilineBasic (cs : List Char) : List Char :=
  ['"', '"', '"'] ++ firstBreak cs ++ multilineBody 0 cs ++ ['"', '"', '"']

def writeMultilineLiteral (cs : List Char) : List Char :=
  ['\'', '\'', '\''] ++ firstBreak cs ++ cs ++ ['\'', '\'', '\'']

/-- The plainest form that holds the text. -/
def write (cs : List Char) : List Char :=
  let plain := !cs.any needsEscape
  if plain && !cs.any (fun c => c = '\\' || c = '"' || c = '\n') then writeBasic cs
  else if plain && !cs.any (fun c => c = '\'' || c = '\n') then writeLiteral cs
  else if plain && !cs.contains '\\' && !hasTriple '"' cs then writeMultilineBasic cs
  else if plain && !hasTriple '\'' cs then writeMultilineLiteral cs
  else if cs.contains '\n' then writeMultilineBasic cs
  else writeBasic cs

end Stabs.Toml.Text

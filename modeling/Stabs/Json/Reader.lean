import Stabs.Hexadecimal
import Stabs.Json.Number
import Stabs.Json.Reading

/-!
# Reading JSON

A text is read strictly: no trailing commas, no comments, no leading zeros, no raw control
characters in strings, and nothing but white space after the value. Each function comes back with
what it has read and with the rest of the text, or without a rest where the text broke off.
-/
namespace Stabs.Json

namespace Reader

/-- What was expected does not stand here: the text is at its end, or goes on differently. -/
def unexpected (rest : List Char) : ReadFault :=
  if rest.isEmpty then .unfinished else .malformed

def isBlank (c : Char) : Bool := c = ' ' || c = '\t' || c = '\n' || c = '\r'

def skipBlanks (cs : List Char) : List Char := cs.dropWhile isBlank

/-- Reads a fixed word. -/
def word (value : Json) : List Char → List Char → Reading × Option (List Char)
  | [], rest => (.plain (.whole value), some rest)
  | _ :: _, [] => (.plain (.broken .unfinished), none)
  | w :: ws, c :: cs => if w = c then word value ws cs else (.plain (.broken .malformed), none)

/-- Reads digits, at least one. -/
def digits (cs : List Char) : Except ReadFault (List Char × List Char) :=
  if (cs.takeWhile Char.isDigit).isEmpty then .error (unexpected cs)
  else .ok (cs.takeWhile Char.isDigit, cs.dropWhile Char.isDigit)

/-- Reads the integer part of a number; only the number zero starts with a zero. -/
def integerPart (cs : List Char) : Except ReadFault (List Char × List Char) := do
  let (ds, rest) ← digits cs
  if ds.head? = some '0' ∧ ds ≠ ['0'] then .error .malformed else .ok (ds, rest)

def fractionPart : List Char → Except ReadFault (List Char × List Char)
  | '.' :: cs => digits cs
  | cs => .ok ([], cs)

/-- Reads an exponent: its sign, set for a minus, and its digits. -/
def exponentPart : List Char → Except ReadFault (Option (Bool × List Char) × List Char)
  | 'e' :: cs | 'E' :: cs => do
    let (isNegative, cs) := match cs with
      | '+' :: cs => (false, cs)
      | '-' :: cs => (true, cs)
      | cs => (false, cs)
    let (ds, rest) ← digits cs
    .ok (some (isNegative, ds), rest)
  | cs => .ok (none, cs)

def unsignedNumber (isNegative : Bool) (cs : List Char) :
    Except ReadFault (NumberLiteral × List Char) := do
  let (integer, cs) ← integerPart cs
  let (places, cs) ← fractionPart cs
  let (exponent, cs) ← exponentPart cs
  .ok ({ isNegative, integer, fraction := places, exponent }, cs)

/-- A number that ends too early is only unfinished if somebody asks for its value. -/
def numberLeaf : Except ReadFault (NumberLiteral × List Char) → Leaf Json × Option (List Char)
  | .error fault => (⟨.error fault, .error .malformed⟩, none)
  | .ok (literal, rest) =>
    match literal.value? with
    | some v => (.whole v, some rest)
    | none => (.untakable, some rest)

def number : List Char → Leaf Json × Option (List Char)
  | '-' :: cs => numberLeaf (unsignedNumber true cs)
  | cs => numberLeaf (unsignedNumber false cs)

/-- A part of a string: a character, or a 16-bit unit that an escape spells. -/
inductive StringPiece where
  | char (c : Char)
  | unit (n : Nat)
deriving DecidableEq, Repr

def hexUnit? (a b c d : Char) : Option Nat := hexNumber? [a, b, c, d]

/-- The character that a one-letter escape stands for. -/
def escaped? : Char → Option Char
  | '"' => some '"'
  | '\\' => some '\\'
  | '/' => some '/'
  | 'b' => some '\x08'
  | 'f' => some '\x0c'
  | 'n' => some '\n'
  | 'r' => some '\r'
  | 't' => some '\t'
  | _ => none

/-- Four hexadecimal digits are missing: the text is at its end when fewer than four bytes are
left. -/
def missingUnit (rest : List Char) : ReadFault :=
  if (String.ofList rest).utf8ByteSize < 4 then .unfinished else .malformed

/-- Reads the pieces of a string up to its closing quote, with those read so far in reverse. -/
def stringPieces (done : List StringPiece) :
    List Char → List StringPiece × Except ReadFault (List Char)
  | [] => (done, .error .unfinished)
  | '"' :: rest => (done, .ok rest)
  | '\\' :: 'u' :: a :: b :: c :: d :: rest =>
    match hexUnit? a b c d with
    | some n => stringPieces (.unit n :: done) rest
    | none => (done, .error .malformed)
  | '\\' :: 'u' :: rest => (done, .error (missingUnit rest))
  | '\\' :: e :: rest =>
    match escaped? e with
    | some c => stringPieces (.char c :: done) rest
    | none => (done, .error .malformed)
  | ['\\'] => (done, .error .unfinished)
  | c :: rest =>
    if c.toNat < 32 then (done, .error .malformed) else stringPieces (.char c :: done) rest

def isHighSurrogate (n : Nat) : Bool := 0xD800 ≤ n && n ≤ 0xDBFF

def isLowSurrogate (n : Nat) : Bool := 0xDC00 ≤ n && n ≤ 0xDFFF

/-- The text of a string, if every surrogate is one of a pair. -/
def joinPieces : List StringPiece → Option (List Char)
  | [] => some []
  | .char c :: rest => (joinPieces rest).map (c :: ·)
  | .unit n :: .unit m :: rest =>
    if isHighSurrogate n then
      if isLowSurrogate m then
        (joinPieces rest).map (Char.ofNat (0x10000 + (n - 0xD800) * 0x400 + (m - 0xDC00)) :: ·)
      else none
    else if isLowSurrogate n then none
    else (joinPieces (.unit m :: rest)).map (Char.ofNat n :: ·)
  | .unit n :: rest =>
    if isHighSurrogate n || isLowSurrogate n then none
    else (joinPieces rest).map (Char.ofNat n :: ·)

/-- The pieces of a string that breaks off, without a high surrogate at the end: what would have
followed it is not known. -/
def settled : List StringPiece → List StringPiece
  | .unit n :: done => if isHighSurrogate n then done else .unit n :: done
  | done => done

/-- Reads a string after its opening quote. One that spells no text can only be passed over. -/
def stringLeaf (cs : List Char) : Leaf String × Option (List Char) :=
  match stringPieces [] cs with
  | (done, .ok rest) =>
    match joinPieces done.reverse with
    | some text => (.whole (.ofList text), some rest)
    | none => (.untakable, some rest)
  | (done, .error fault) =>
    match joinPieces (settled done).reverse with
    | some _ => (.broken fault, none)
    | none => (⟨.error .malformed, .error fault⟩, none)

mutual

/-- Reads a value. Each bracket uses up two steps of the allowance. -/
def value : Nat → List Char → Reading × Option (List Char)
  | 0, _ => (.missing .malformed, none)
  | steps + 1, cs =>
    match skipBlanks cs with
    | [] => (.missing .unfinished, none)
    | '"' :: rest =>
      let (leaf, rest) := stringLeaf rest
      (.text leaf, rest)
    | '[' :: rest =>
      match skipBlanks rest with
      | ']' :: rest => (.array [] (.ok ()), some rest)
      | _ =>
        let (rs, rest) := elements steps rest
        (.array rs (rest.map fun _ => ()), rest.toOption)
    | '{' :: rest =>
      match skipBlanks rest with
      | '}' :: rest => (.object [] (.ok ()), some rest)
      | _ =>
        let (ms, rest) := members steps rest
        (.object ms (rest.map fun _ => ()), rest.toOption)
    | 'n' :: rest => word .null ['u', 'l', 'l'] rest
    | 't' :: rest => word (.bool true) ['r', 'u', 'e'] rest
    | 'f' :: rest => word (.bool false) ['a', 'l', 's', 'e'] rest
    | c :: rest =>
      if c = '-' ∨ c.isDigit then
        let (leaf, rest) := number (c :: rest)
        (.plain leaf, rest)
      else (.missing .malformed, none)

/-- Reads the elements of an array that is not empty, and its closing bracket. -/
def elements : Nat → List Char → List Reading × Except ReadFault (List Char)
  | 0, _ => ([], .error .malformed)
  | steps + 1, cs =>
    match value steps cs with
    | (r, none) => ([r], .error .unfinished)
    | (r, some rest) =>
      match skipBlanks rest with
      | ',' :: rest =>
        let (rs, rest) := elements steps rest
        (r :: rs, rest)
      | ']' :: rest => ([r], .ok rest)
      | rest => ([r], .error (unexpected rest))

/-- Reads the members of an object that is not empty, and its closing brace. What stands in the
place of a key is read like any other value, but nothing is read behind a key that is no text. -/
def members : Nat → List Char → List (Reading × Reading) × Except ReadFault (List Char)
  | 0, _ => ([], .error .malformed)
  | steps + 1, cs =>
    match value steps cs with
    | (.text leaf, some rest) =>
      match skipBlanks rest with
      | ':' :: rest =>
        match value steps rest with
        | (r, none) => ([(.text leaf, r)], .error .unfinished)
        | (r, some rest) =>
          match skipBlanks rest with
          | ',' :: rest =>
            let (ms, rest) := members steps rest
            ((.text leaf, r) :: ms, rest)
          | '}' :: rest => ([(.text leaf, r)], .ok rest)
          | rest => ([(.text leaf, r)], .error (unexpected rest))
      | rest => ([(.text leaf, .missing (unexpected rest))], .error .unfinished)
    | (key, _) => ([(key, .missing .malformed)], .error .malformed)

end

/-- What may follow the value of a text. -/
def ending : Option (List Char) → Except ReadFault Unit
  | none => .error .unfinished
  | some rest => if (skipBlanks rest).isEmpty then .ok () else .error .malformed

end Reader

/-- A text as it was read: its value, and whether anything goes wrong behind it. -/
structure Document where
  value : Reading
  ending : Except ReadFault Unit
deriving Repr

def Document.ofText (text : String) : Document :=
  let cs := text.toList
  let (value, rest) := Reader.value (2 * cs.length + 2) cs
  ⟨value, Reader.ending rest⟩

end Stabs.Json

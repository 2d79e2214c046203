import Stabs.Output.Record
import Stabs.Types.Table

/-!
# Reading descriptions back

A debugger sees the text of the records alone. It joins the segments of a description and reads a
name, an optional letter and one type reference; a number that is followed by an equals sign brings
the content of its type. Contents come in a table, outer before inner, and a later content of a
number takes the place of an earlier one.
-/
namespace Stabs

/-- A member of a record or union whose type is told by a `ρ`. -/
structure Member (ρ : Type) where
  name : String
  ty : ρ
  bitOffset : Nat
  bitSize : Nat
deriving DecidableEq, Repr

/-- What a description tells of a type. Integers and reals are ranges alike. -/
inductive Content (ρ : Type) where
  | itself (ty : ρ)
  | range (base : ρ) (low high : Int)
  | array (upper : Int) (element : ρ)
  | aggregate (category : Aggregate) (size : Nat) (members : List (Member ρ))
  | enumeration (values : List (String × Int))
  | pointer (target : ρ)
  | function (returns : ρ)
  | crossReference (category : Aggregate) (name : String)
deriving DecidableEq, Repr

/-- The contents that descriptions bring, in the order of their numbers in the text. -/
abbrev Contents := List (TypeNumber × Content TypeNumber)

/-- The last content of a number. -/
def Contents.content? (contents : Contents) (n : TypeNumber) : Option (Content TypeNumber) :=
  contents.reverse.lookup n

namespace Readback

/-- Reads the front of a text and leaves the rest. -/
abbrev Reader := StateT (List Char) Option

variable {α : Type}

def peek : Reader (Option Char) := fun cs => some (cs.head?, cs)

def expect (c : Char) : Reader Unit
  | d :: rest => if d = c then some ((), rest) else none
  | [] => none

def expectAll (cs : List Char) : Reader Unit := forM cs expect

/-- A decimal number, as long as its digits go on. -/
def natural : Reader Nat := fun cs =>
  match cs.takeWhile Char.isDigit with
  | [] => none
  | digits => some (Nat.ofDigitChars 10 digits 0, cs.dropWhile Char.isDigit)

def integer : Reader Int := do
  if (← peek) = some '-' then do
    expect '-'
    let n ← natural
    return -n
  else do
    let n ← natural
    return n

/-- The text up to a colon, and the colon. -/
def name : Reader String := fun cs =>
  match cs.dropWhile (· ≠ ':') with
  | [] => none
  | _ :: rest => some (.ofList (cs.takeWhile (· ≠ ':')), rest)

/-- Items one after the other up to a semicolon, at most `limit` of them. -/
def items (item : Reader α) : Nat → Reader (List α)
  | 0 => failure
  | limit + 1 => do
    if (← peek) = some ';' then do
      expect ';'
      return []
    else do
      let a ← item
      return a :: (← items item limit)

/-- As many items as the text may hold. -/
def allItems (item : Reader α) : Reader (List α) := fun cs => items item cs.length cs

def member (reference : Reader (TypeNumber × Contents)) :
    Reader (Member TypeNumber × Contents) := do
  let name ← name
  let (ty, contents) ← reference
  expect ','
  let bitOffset ← natural
  expect ','
  let bitSize ← natural
  expect ';'
  return ({ name, ty, bitOffset, bitSize }, contents)

def enumerator : Reader (String × Int) := do
  let name ← name
  let value ← integer
  expect ','
  return (name, value)

def aggregate (category : Aggregate) (reference : Reader (TypeNumber × Contents)) :
    Reader (Content TypeNumber × Contents) := do
  let size ← natural
  let members ← allItems (member reference)
  return (.aggregate category size (members.map Prod.fst), members.flatMap Prod.snd)

def category : Reader Aggregate := do
  match ← peek with
  | some 's' => do
    expect 's'
    return .record
  | some 'u' => do
    expect 'u'
    return .union
  | _ => do
    expect 'e'
    return .enumeration

def crossReference : Reader (Content TypeNumber × Contents) := do
  let category ← category
  let name ← name
  return (.crossReference category name, [])

/-- The body behind an equals sign. -/
def body (reference : Reader (TypeNumber × Contents)) :
    Reader (Content TypeNumber × Contents) := do
  match ← peek with
  | some 'x' => do
    expect 'x'
    crossReference
  | some 'r' => do
    expect 'r'
    let base ← natural
    expect ';'
    let low ← integer
    expect ';'
    let high ← integer
    expect ';'
    return (.range ⟨base⟩ low high, [])
  | some 'a' => do
    expectAll ['a', 'r', '1', ';', '0', ';']
    let upper ← integer
    expect ';'
    let (element, contents) ← reference
    return (.array upper element, contents)
  | some 's' => do
    expect 's'
    aggregate .record reference
  | some 'u' => do
    expect 'u'
    aggregate .union reference
  | some 'e' => do
    expect 'e'
    let values ← allItems enumerator
    return (.enumeration values, [])
  | some '*' => do
    expect '*'
    let (target, contents) ← reference
    return (.pointer target, contents)
  | some 'f' => do
    expect 'f'
    let (returns, contents) ← reference
    return (.function returns, contents)
  | _ => do
    let n ← natural
    return (.itself ⟨n⟩, [])

/-- A type reference whose bodies nest at most `depth` deep: its number and the contents in it. -/
def reference : Nat → Reader (TypeNumber × Contents)
  | 0 => failure
  | depth + 1 => do
    let n ← natural
    if (← peek) = some '=' then do
      expect '='
      let (content, contents) ← body (reference depth)
      return (⟨n⟩, (⟨n⟩, content) :: contents)
    else return (⟨n⟩, [])

/-- The letter of a symbol, which a symbol on the stack does not have. -/
def letter : Reader (Option Char) := do
  match ← peek with
  | some c =>
    if c.isDigit then return none
    else do
      expect c
      return some c
  | none => return none

/-- What a description says of its symbol. -/
structure Headline where
  name : String
  letter : Option Char
  number : TypeNumber
deriving DecidableEq, Repr

def description : Reader (Headline × Contents) := fun cs =>
  (do
    let name ← name
    let letter ← letter
    let (number, contents) ← reference cs.length
    return ({ name, letter, number }, contents) : Reader (Headline × Contents)) cs

/-- Reads the whole text of a description. -/
def readDescription (text : List Char) : Option (Headline × Contents) :=
  match description text with
  | some (result, []) => some result
  | _ => none

/-- The texts of the descriptions in a list of records; `text` is that of the segments so far. -/
def texts (text : List Char) : List Record → List (List Char)
  | [] => []
  | .symbol segment _ _ continued :: rest =>
    if continued then texts (text ++ (Segment.text segment).toList) rest
    else (text ++ (Segment.text segment).toList) :: texts [] rest
  | _ :: rest => texts text rest

/-- Reads the descriptions of all records. -/
def readRecords (records : List Record) : Option (List Headline × Contents) := do
  let all ← (texts [] records).mapM readDescription
  return (all.map Prod.fst, all.flatMap Prod.snd)

end Readback

end Stabs

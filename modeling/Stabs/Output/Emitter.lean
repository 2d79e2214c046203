import Stabs.Output.Record

/-!
# The emitter

Finished records and the symbol whose description is being written. A description may be cut at
a safe point once its segment has grown past eighty bytes; the part before the cut becomes a
record at once.
-/
namespace Stabs

/-- A segment that is longer than this many bytes is cut at the next safe point. -/
def Segment.limit : Nat := 80

structure PendingSymbol where
  code : Code
  value : Placement
  segment : Segment
deriving DecidableEq, Repr

def PendingSymbol.record (symbol : PendingSymbol) (continued : Bool) : Record :=
  .symbol symbol.segment symbol.code symbol.value continued

structure Emitter where
  records : Array Record := #[]
  pending : Option PendingSymbol := none
deriving DecidableEq

namespace Emitter

def empty : Emitter := {}

def push (out : Emitter) (record : Record) : Emitter :=
  { out with records := out.records.push record }

def sourceFile (out : Emitter) (path label : String) : Emitter :=
  out.push (.sourceFile path label)

def marker (out : Emitter) (code : Code) (label : String) : Emitter :=
  out.push (.marker code label)

/-- Starts the description of a symbol. The segment of a symbol still in progress is dropped. -/
def start (out : Emitter) (name : String) (letter : Option Char) (code : Code)
    (value : Placement) : Emitter :=
  { out with pending := some ⟨code, value, [.heading name letter]⟩ }

def inSymbol (out : Emitter) : Bool := out.pending.isSome

/-- The bytes written to the segment in progress. -/
def chars (out : Emitter) : Nat :=
  match out.pending with
  | some symbol => symbol.segment.size
  | none => 0

/-- Adds a token to the symbol in progress; without one there is nowhere to write. -/
def write? (out : Emitter) (token : Token) : Option Emitter :=
  match out.pending with
  | some symbol =>
    some { out with pending := some { symbol with segment := symbol.segment ++ [token] } }
  | none => none

/-- A safe point of the description: it is cut here if the segment has grown too long. -/
def safePoint (out : Emitter) : Emitter :=
  match out.pending with
  | some symbol =>
    if Segment.limit < symbol.segment.size then
      { records := out.records.push (symbol.record true)
        pending := some { symbol with segment := [] } }
    else out
  | none => out

/-- Ends the description in progress with its last segment. -/
def finish (out : Emitter) : Emitter :=
  match out.pending with
  | some symbol => { records := out.records.push (symbol.record false), pending := none }
  | none => out

/-- Drops the records and the symbol in progress. -/
def reset (out : Emitter) : Emitter := { out with records := #[], pending := none }

/-- Hands over the finished records. A symbol in progress stays. -/
def takeRecords (out : Emitter) : Array Record × Emitter :=
  (out.records, { out with records := #[] })

end Emitter

end Stabs

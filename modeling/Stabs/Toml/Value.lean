/-!
# TOML tables

The values of a TOML document and the rules by which its lines build up tables. A table remembers
how it came about: by a header of its own, as a step on the way to a header, through dotted keys,
or written inline. Headers may open a table once; dotted keys may only go through tables that they
or the way to a header have made.
-/
namespace Stabs

/-- How a table came about. -/
inductive TableOrigin where
  | header
  | implied
  | dotted
  | inline
deriving DecidableEq, Repr

/-- A value. Of floats and times only the fact matters; `tables` are those that a header in double
brackets opens. -/
inductive Toml where
  | boolean (b : Bool)
  | integer (n : Int)
  | float
  | time
  | string (s : String)
  | array (elements : List Toml)
  | table (origin : TableOrigin) (entries : List (String × Toml))
  | tables (items : List (List (String × Toml)))
deriving Repr, Inhabited

namespace Toml

abbrev Entries := List (String × Toml)

/-- A dotted key: the steps to the table and the last part. -/
structure KeyPath where
  steps : List String
  last : String
deriving DecidableEq, Repr

namespace KeyPath

def ofParts? (parts : List String) : Option KeyPath :=
  match parts.reverse with
  | [] => none
  | last :: steps => some ⟨steps.reverse, last⟩

def parts (path : KeyPath) : List String := path.steps ++ [path.last]

end KeyPath

namespace Entries

/-- Puts a value in the place of the one under a key. -/
def replace (entries : Entries) (key : String) (v : Toml) : Entries :=
  entries.map fun (k, old) => if k = key then (k, v) else (k, old)

/-- Changes the table at the end of some steps, making the tables on the way that are missing. In
a list of tables the way goes through the last one. Dotted keys do not enter a table with a header
of its own. -/
def enter (dotted : Bool) (origin : TableOrigin) (entries : Entries) :
    List String → (TableOrigin → Entries → Option Entries) → Option Entries
  | [], change => change origin entries
  | key :: steps, change =>
    match entries.lookup key with
    | none => do
      let made := if dotted then .dotted else .implied
      let inner ← enter dotted made [] steps change
      return entries ++ [(key, .table made inner)]
    | some (.table .inline _) => none
    | some (.table inside inner) =>
      if dotted && inside = .header then none
      else do
        let inner ← enter dotted inside inner steps change
        return entries.replace key (.table inside inner)
    | some (.tables items) =>
      match items.getLast? with
      | none => none
      | some inner => do
        let inner ← enter dotted .header inner steps change
        return entries.replace key (.tables (items.dropLast ++ [inner]))
    | some _ => none

/-- Gives a new key its value. A dotted key ends in a table made by dotted keys, a plain one in
the table itself. -/
def assign (origin : TableOrigin) (entries : Entries) (path : KeyPath) (v : Toml) :
    Option Entries :=
  enter true origin entries path.steps fun inside inner =>
    if decide (inside = .dotted) = path.steps.isEmpty then none
    else if (inner.lookup path.last).isSome then none
    else some (inner ++ [(path.last, v)])

/-- Opens the table of a header. One that was only implied so far keeps its entries. -/
def openTable (entries : Entries) (path : KeyPath) : Option Entries :=
  enter false .header entries path.steps fun _ inner =>
    match inner.lookup path.last with
    | none => some (inner ++ [(path.last, .table .header [])])
    | some (.table .implied found) => some (inner.replace path.last (.table .header found))
    | some _ => none

/-- Opens one more table of a list of tables. -/
def openItem (entries : Entries) (path : KeyPath) : Option Entries :=
  enter false .header entries path.steps fun _ inner =>
    match inner.lookup path.last with
    | none => some (inner ++ [(path.last, .tables [[]])])
    | some (.tables items) => some (inner.replace path.last (.tables (items ++ [[]])))
    | some _ => none

end Entries

/-- A line that says something: a header, a header in double brackets, or a key with its value. -/
inductive Line where
  | header (path : KeyPath)
  | itemHeader (path : KeyPath)
  | assignment (path : KeyPath) (v : Toml)
deriving Repr

/-- The root of a document and the way to the table that its last header opened. -/
structure Draft where
  root : Entries := []
  current : List String := []

def Draft.add (draft : Draft) : Line → Option Draft
  | .header path => do return ⟨← draft.root.openTable path, path.parts⟩
  | .itemHeader path => do return ⟨← draft.root.openItem path, path.parts⟩
  | .assignment path v => do
    let root ← Entries.enter false .header draft.root draft.current fun origin inner =>
      inner.assign origin path v
    return { draft with root }

/-- The document that the lines make, unless one of them contradicts those before it. -/
def ofLines? (lines : List Line) : Option Entries := do
  let draft ← lines.foldlM Draft.add {}
  return draft.root

end Toml

end Stabs

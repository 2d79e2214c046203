import Stabs.Double
import Stabs.Hexadecimal
import Stabs.Toml.Value

/-!
# TOML numbers and times

Each scanner takes what it stands for off the front of a text and leaves the rest; whether the
rest may follow is for the caller. Digits may be grouped by single underscores.
-/
namespace Stabs.Toml.Scalar

/-- Digits with single underscores between them; the underscores are left out. -/
def digitRun (isDigit : Char → Bool) : List Char → List Char × List Char
  | [] => ([], [])
  | c :: rest =>
    if isDigit c then
      let (ds, left) := digitRun isDigit rest
      (c :: ds, left)
    else if c = '_' then
      match rest with
      | d :: _ => if isDigit d then digitRun isDigit rest else ([], c :: rest)
      | [] => ([], c :: rest)
    else ([], c :: rest)

/-- Digits that start with a digit. -/
def digits? (isDigit : Char → Bool) : List Char → Option (List Char × List Char)
  | c :: rest => if isDigit c then some (digitRun isDigit (c :: rest)) else none
  | [] => none

def digitValue (c : Char) : Nat :=
  if c ≤ '9' then c.toNat - '0'.toNat
  else if c ≤ 'Z' then c.toNat - 'A'.toNat + 10
  else c.toNat - 'a'.toNat + 10

def valueOf (base : Nat) (ds : List Char) : Nat :=
  ds.foldl (fun n d => n * base + digitValue d) 0

def isHexDigit (c : Char) : Bool := (hexDigit? c).isSome

def isOctalDigit (c : Char) : Bool := '0' ≤ c && c ≤ '7'

def isBinaryDigit (c : Char) : Bool := c = '0' || c = '1'

/-- An integer of 64 bits. -/
def integer? (n : Int) : Option Toml :=
  if Int64.minValue.toInt ≤ n ∧ n ≤ Int64.maxValue.toInt then some (.integer n) else none

/-- An integer after the mark of its base. -/
def based (base : Nat) (isDigit : Char → Bool) (cs : List Char) : Option (Toml × List Char) := do
  let (ds, rest) ← digits? isDigit cs
  let v ← integer? (valueOf base ds)
  return (v, rest)

/-- An exponent: its sign, set for a minus, and its digits. -/
def exponent? : List Char → Option ((Bool × List Char) × List Char)
  | 'e' :: cs | 'E' :: cs => do
    let (isNegative, cs) := match cs with
      | '+' :: cs => (false, cs)
      | '-' :: cs => (true, cs)
      | cs => (false, cs)
    let (ds, rest) ← digits? Char.isDigit cs
    return ((isNegative, ds), rest)
  | _ => none

/-- Whether digits times a power of ten round to no double. The number of digits and the power
settle all but a few magnitudes. -/
def exceedsDouble (ds : List Char) (power : Int) : Bool :=
  let n := valueOf 10 ds
  let magnitude : Int := (ds.dropWhile (· = '0')).length + power
  n ≠ 0 && 300 < magnitude &&
    (310 < magnitude ||
      (if 0 ≤ power then Double.limit ≤ n * Nat.pow 10 power.toNat
        else Double.limit * Nat.pow 10 (-power).toNat ≤ n))

/-- A float; one above the range of doubles is refused, one below is not. -/
def float? (isNegative : Bool) (whole places : List Char) (exponent : Bool × List Char) :
    Option Toml :=
  let power : Int := if exponent.1 then -(valueOf 10 exponent.2) else valueOf 10 exponent.2
  if !isNegative && exceedsDouble (whole ++ places) (power - places.length) then none
  else some .float

/-- A decimal number behind its sign. -/
def decimal (isNegative : Bool) (cs : List Char) : Option (Toml × List Char) := do
  let (whole, rest) ← digits? Char.isDigit cs
  if whole.head? = some '0' ∧ whole ≠ ['0'] then none
  else match rest with
    | '.' :: rest => do
      let (places, rest) ← digits? Char.isDigit rest
      match exponent? rest with
      | some (exponent, rest) => return (← float? isNegative whole places exponent, rest)
      | none => return (← float? isNegative whole places (false, []), rest)
    | 'e' :: _ | 'E' :: _ => do
      let (exponent, rest) ← exponent? rest
      return (← float? isNegative whole [] exponent, rest)
    | _ => do
      let n : Int := valueOf 10 whole
      return (← integer? (if isNegative then -n else n), rest)

/-- A number behind its sign; infinity and the undefined number are floats, too. -/
def signed (isNegative : Bool) : List Char → Option (Toml × List Char)
  | 'i' :: 'n' :: 'f' :: rest => some (.float, rest)
  | 'n' :: 'a' :: 'n' :: rest => some (.float, rest)
  | cs => decimal isNegative cs

/-- A number. Only decimal numbers have a sign. -/
def number : List Char → Option (Toml × List Char)
  | '0' :: 'x' :: rest => based 16 isHexDigit rest
  | '0' :: 'o' :: rest => based 8 isOctalDigit rest
  | '0' :: 'b' :: rest => based 2 isBinaryDigit rest
  | '+' :: rest => signed false rest
  | '-' :: rest => signed true rest
  | cs => signed false cs

/-- Two digits with a value between bounds. -/
def twoDigits (low high : Nat) : List Char → Option (Nat × List Char)
  | a :: b :: rest =>
    let n := valueOf 10 [a, b]
    if a.isDigit && b.isDigit && low ≤ n && n ≤ high then some (n, rest) else none
  | _ => none

def daysIn (year month : Nat) : Nat :=
  if month = 2 then
    if year % 4 = 0 ∧ (year % 100 ≠ 0 ∨ year % 400 = 0) then 29 else 28
  else if month = 4 ∨ month = 6 ∨ month = 9 ∨ month = 11 then 30
  else 31

/-- A date of the calendar. -/
def date : List Char → Option (List Char)
  | a :: b :: c :: d :: '-' :: rest => do
    if !(a.isDigit && b.isDigit && c.isDigit && d.isDigit) then none
    else do
      let (month, rest) ← twoDigits 1 12 rest
      match rest with
      | '-' :: rest => do
        let (_, rest) ← twoDigits 1 (daysIn (valueOf 10 [a, b, c, d]) month) rest
        return rest
      | _ => none
  | _ => none

/-- A time of the day, up to a leap second, with any fraction. -/
def timeOfDay (cs : List Char) : Option (List Char) := do
  let (_, rest) ← twoDigits 0 23 cs
  match rest with
  | ':' :: rest => do
    let (_, rest) ← twoDigits 0 59 rest
    match rest with
    | ':' :: rest => do
      let (_, rest) ← twoDigits 0 60 rest
      match rest with
      | '.' :: d :: more =>
        if d.isDigit then return more.dropWhile Char.isDigit else return rest
      | _ => return rest
    | _ => none
  | _ => none

/-- The offset of a time, if there is one. -/
def skipOffset (cs : List Char) : List Char :=
  let offset? (rest : List Char) : Option (List Char) := do
    let (_, rest) ← twoDigits 0 23 rest
    match rest with
    | ':' :: rest => do
      let (_, rest) ← twoDigits 0 59 rest
      return rest
    | _ => none
  match cs with
  | 'Z' :: rest | 'z' :: rest => rest
  | '+' :: rest | '-' :: rest => (offset? rest).getD cs
  | _ => cs

/-- A date, a date with a time, or a time. -/
def time (cs : List Char) : Option (Toml × List Char) :=
  match date cs with
  | some rest =>
    match rest with
    | 'T' :: clock | 't' :: clock | ' ' :: clock =>
      match timeOfDay clock with
      | some rest => some (.time, skipOffset rest)
      | none => some (.time, rest)
    | _ => some (.time, rest)
  | none => (timeOfDay cs).map fun rest => (.time, rest)

end Stabs.Toml.Scalar

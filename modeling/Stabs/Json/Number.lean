import Stabs.Double
import Stabs.Json.Value

/-!
# JSON numbers

A number literal is an integer, with its exact value, when it has neither a fraction nor an
exponent and is not a negative zero. Any other literal matters only for whether it stays inside
the range of doubles. That is decided on a significand of at most 64 bits: further integer digits
only raise the exponent, and further digits of the fraction are dropped.
-/
namespace Stabs.Json

/-- A number as it is spelled. The fraction holds the digits after the point. -/
structure NumberLiteral where
  isNegative : Bool
  integer : List Char
  fraction : List Char
  exponent : Option (Bool × List Char)
deriving Repr

/-- Takes digits into a 64-bit number as long as they fit; the rest is left over. -/
def takeDigits (n : Nat) : List Char → Nat × List Char
  | [] => (n, [])
  | d :: rest =>
    let extended := 10 * n + (d.toNat - '0'.toNat)
    if extended < UInt64.size then takeDigits extended rest else (n, d :: rest)

/-- Whether a significand of at most 64 bits times a power of ten rounds to no double. -/
def exceedsDouble (significand : Nat) (exponent : Int) : Bool :=
  significand ≠ 0 && 288 < exponent &&
    (308 < exponent ||
      Double.limit ≤ Double.round significand * Double.round (Nat.pow 10 exponent.toNat))

namespace NumberLiteral

/-- The power of ten that is spelled out after the `e`. -/
def power (literal : NumberLiteral) : Int :=
  match literal.exponent with
  | none => 0
  | some (false, digits) => Nat.ofDigitChars 10 digits 0
  | some (true, digits) => -(Nat.ofDigitChars 10 digits 0)

def isHuge (literal : NumberLiteral) : Bool :=
  let (whole, dropped) := takeDigits 0 literal.integer
  let (significand, left) := takeDigits whole literal.fraction
  exceedsDouble significand
    (dropped.length - (literal.fraction.length - left.length) + literal.power)

/-- The value of a literal, unless it lies outside of the range of doubles. -/
def value? (literal : NumberLiteral) : Option Json :=
  if literal.isHuge then none
  else if literal.fraction.isEmpty && literal.exponent.isNone then
    let n := Nat.ofDigitChars 10 literal.integer 0
    if literal.isNegative then
      if n = 0 then some .fraction else some (.int (-n))
    else some (.int n)
  else some .fraction

end NumberLiteral

end Stabs.Json

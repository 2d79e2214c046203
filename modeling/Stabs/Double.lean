/-!
# Doubles

What the readers have to know about numbers in double precision: how natural numbers round, and
which of them are too large.
-/
namespace Stabs.Double

/-- The least natural number that rounds to no double: half a step above the largest one. -/
def limit : Nat := Nat.pow 2 1024 - Nat.pow 2 970

/-- The nearest number of 53 significant bits, a tie going to the even one. -/
def round (n : Nat) : Nat :=
  let unit := Nat.pow 2 (n.log2 - 52)
  let quotient := n / unit
  let twice := 2 * (n % unit)
  if twice < unit ∨ (twice = unit ∧ quotient % 2 = 0) then quotient * unit
  else (quotient + 1) * unit

end Stabs.Double

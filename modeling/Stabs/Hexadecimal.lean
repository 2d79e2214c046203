/-!
# Hexadecimal digits

Escapes spell a character by its number in hexadecimal digits, small letters and capitals alike.
-/
namespace Stabs

def hexDigit? (c : Char) : Option Nat :=
  if '0' ≤ c ∧ c ≤ '9' then some (c.toNat - '0'.toNat)
  else if 'a' ≤ c ∧ c ≤ 'f' then some (c.toNat - 'a'.toNat + 10)
  else if 'A' ≤ c ∧ c ≤ 'F' then some (c.toNat - 'A'.toNat + 10)
  else none

/-- The number that is spelled by digits, the highest one first. -/
def hexNumber? (ds : List Char) : Option Nat :=
  (ds.mapM hexDigit?).map (·.foldl (fun n d => n * 16 + d) 0)

end Stabs

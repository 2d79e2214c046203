import Stabs.Types.Node

/-!
# Errors of a description

Why a unit cannot be described. All but a write outside of a symbol are faults of the unit.
-/
namespace Stabs

inductive DescribeError where
  | unnamedType (ty : TypeId) (category : String)
  | missingTypedefName (ty : TypeId)
  | parameterOutsideList (name : String)
  | notAParameter (name kind : String)
  | notAFunctionType (name : String) (ty : TypeId)
  | unsizedReal (ty : TypeId)
  | arrayTooLong (ty : TypeId) (length : UInt64)
  | blockNumbersExhausted (last : UInt32)
  | unknownType (ty : TypeId)
  | noSymbol
deriving DecidableEq, Repr

namespace DescribeError

def message : DescribeError → String
  | unnamedType ty category =>
    "Invalid IR: " ++ category ++ " type " ++ ty.label ++ " must be named to be cross-referenced"
  | missingTypedefName ty => "Invalid IR: type " ++ ty.label ++ " has no typedef name"
  | parameterOutsideList name => "Invalid IR: parameter '" ++ name ++
      "' must be emitted through its function's parameter list"
  | notAParameter name kind => "Invalid IR: '" ++ name ++ "' in a parameter list is a " ++ kind ++
      ", not a parameter"
  | notAFunctionType name ty =>
    "Invalid IR: function '" ++ name ++ "' has non-function type " ++ ty.label
  | unsizedReal ty => "Invalid IR: real type " ++ ty.label ++ " has no size"
  | arrayTooLong ty length => "Invalid IR: array type " ++ ty.label ++ " has " ++
      length.toNat.repr ++ " elements, more than a stabs range can hold"
  | blockNumbersExhausted last => "Block numbers exhausted after block " ++ last.toNat.repr
  | unknownType ty => "Invalid IR: unknown type " ++ ty.label
  | noSymbol => "Format error: an error occurred when formatting an argument"

/-- The unit has a shape that cannot be described. -/
def isInvariantViolation : DescribeError → Bool
  | noSymbol => false
  | _ => true

end DescribeError

/-- Steps that may fail and keep what was written before the failure. -/
abbrev Describing (σ : Type) := EStateM DescribeError σ

end Stabs

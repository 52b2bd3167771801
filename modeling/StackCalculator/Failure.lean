/-! How a computation on numbers can end without one. A step that may leave the
range of the format is `checked`; a step that relies on a bound established
elsewhere is `assumed`, and its failure would be a fault of the library. -/
namespace StackCalculator

inductive Failure where
  /-- The result does not fit the format, or is not defined. -/
  | outOfRange
  /-- A step failed that was relied on. -/
  | internal
  deriving DecidableEq, Repr

def checked (result : Option α) : Except Failure α := result.elim (.error .outOfRange) .ok

def assumed (result : Option α) : Except Failure α := result.elim (.error .internal) .ok

end StackCalculator

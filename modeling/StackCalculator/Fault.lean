import StackCalculator.Failure

/-! What can go wrong in a program, and the texts for it. -/
namespace StackCalculator

inductive Fault where
  | stackUnderflow
  | stackOverflow
  /-- The argument is counted from the top of the stack, which is one. -/
  | typeMismatch (argument : Nat)
  | divisionByZero
  | domainError
  | rangeCheck
  | unknownOperator (name : String)
  | malformedNumber (text : String)
  /-- The position is counted from the bottom of the stack, which is zero. -/
  | nonNumericOutput (position : Nat)
  /-- A fault of the library and not of the program. -/
  | internal
  deriving DecidableEq, Repr

def Fault.message : Fault → String
  | .stackUnderflow => "stack underflow"
  | .stackOverflow => "stack overflow"
  | .typeMismatch argument => "type mismatch on argument " ++ toString argument
  | .divisionByZero => "division by zero"
  | .domainError => "domain error"
  | .rangeCheck => "range check error"
  | .unknownOperator name => "unknown operator `" ++ name ++ "`"
  | .malformedNumber text => "malformed number `" ++ text ++ "`"
  | .nonNumericOutput position => "non-numeric value at stack position " ++ toString position
  | .internal => "internal fault"

/-- The fault of a computation that left its range is `outside`. -/
def Failure.toFault (outside : Fault) : Failure → Fault
  | .outOfRange => outside
  | .internal => .internal

/-- A computation as a step of a program. -/
def faulting (outside : Fault) (result : Except Failure α) : Except Fault α :=
  result.mapError (Failure.toFault outside)

end StackCalculator

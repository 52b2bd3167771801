import StackCalculator.Angle.Circular
import StackCalculator.Angle.Direction
import StackCalculator.Decimal.Logarithm
import StackCalculator.Decimal.Precision
import StackCalculator.Fault
import StackCalculator.Operator.Basic
import StackCalculator.Value

/-! Operators from numbers to a number. Division, roots, powers, logarithms and the
functions of angles round to `precision` digits; the others are exact or fail. -/
namespace StackCalculator
open Decimal

def inRange (result : Option α) : Except Fault α := result.elim (.error .rangeCheck) .ok

/-- The square root; a zero with a minus sign is out of range. -/
def squareRoot (a : Decimal) : Except Fault Decimal :=
  if a.isNegative then .error .domainError else faulting .rangeCheck a.sqrt

/-- A logarithm, of a number above zero. -/
def logarithm (f? : Decimal → Option Decimal) (a : Decimal) : Except Fault Decimal :=
  if a.negative || a.isZero then .error .domainError else inRange (f? a)

def UnaryArithmetic.eval (precision : Nat) (op : UnaryArithmetic) (a : Decimal) :
    Except Fault Decimal :=
  match op with
  | .abs => .ok a.abs
  | .neg => .ok a.neg
  | .ceiling => .ok a.ceil
  | .floor => .ok a.floor
  | .round => .ok a.round
  | .truncate | .cvi => .ok a.trunc
  | .cvr => .ok a
  | .sqrt => (squareRoot a).map (roundTo precision)
  | .sin => (faulting .rangeCheck (Angle.sin a)).map (roundTo precision)
  | .cos => (faulting .rangeCheck (Angle.cos a)).map (roundTo precision)
  | .ln => (logarithm ln? a).map (roundTo precision)
  | .log => (logarithm log10? a).map (roundTo precision)

def quotient (a b : Decimal) : Except Fault Decimal :=
  if b.isZero then .error .divisionByZero else inRange (a.div? b)

/-- The quotient truncated toward zero: the remainder is taken off first, so that the
division is exact. -/
def integerQuotient (a b : Decimal) : Except Fault Decimal :=
  if b.isZero then .error .divisionByZero
  else do
    let rest ← inRange (a.rem? b)
    let multiple ← inRange (a.sub? rest)
    let q ← inRange (multiple.div? b)
    return q.trunc

/-- The remainder of the whole parts. -/
def modulus (a b : Decimal) : Except Fault Decimal :=
  if b.trunc.isZero then .error .divisionByZero else inRange (a.trunc.rem? b.trunc)

/-- A power. Zero has no negative powers, and a negative base only integer ones. The
powers of zero are not rounded. -/
def power (precision : Nat) (base exponent : Decimal) : Except Fault Decimal :=
  if base.isZero then
    if exponent.isNegative then .error .domainError
    else .ok (if exponent.isZero then one else zero)
  else if exponent.isIntegral then do
    let e ← (Value.number exponent).toInt 1
    let result ← inRange (base.powInt? e)
    return result.roundTo precision
  else if base.negative then .error .domainError
  else do
    let result ← inRange (base.powDecimal? exponent)
    return result.roundTo precision

def BinaryArithmetic.eval (precision : Nat) (op : BinaryArithmetic) (a b : Decimal) :
    Except Fault Decimal :=
  match op with
  | .add => inRange (a.add? b)
  | .sub => inRange (a.sub? b)
  | .mul => inRange (a.mul? b)
  | .div => (quotient a b).map (roundTo precision)
  | .idiv => integerQuotient a b
  | .mod => modulus a b
  | .exp => power precision a b
  | .atan => (faulting .domainError (Angle.direction a b)).map (roundTo precision)

end StackCalculator

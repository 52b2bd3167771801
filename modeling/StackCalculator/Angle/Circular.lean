import StackCalculator.Angle.Reduction
import StackCalculator.Decimal.Trigonometry

/-! Sine and cosine of an angle in degrees, exact at multiples of a right angle. -/
namespace StackCalculator.Angle
open Decimal (zero one)

def minusOne : Decimal := one.neg

/-- A function of radians at an angle of one turn given in degrees. -/
def inRadians (f? : Decimal → Option Decimal) (degrees : Decimal) : Except Failure Decimal := do
  let centered ← recenter degrees
  let radians ← toRadians centered
  checked (f? radians)

def sin (degrees : Decimal) : Except Failure Decimal := do
  let angle ← reduce degrees
  if angle.isZero || angle.same halfTurn then return zero
  else if angle.same rightAngle then return one
  else if angle.same threeQuarterTurn then return minusOne
  else inRadians Decimal.sin? angle

def cos (degrees : Decimal) : Except Failure Decimal := do
  let angle ← reduce degrees
  if angle.isZero then return one
  else if angle.same halfTurn then return minusOne
  else if angle.same rightAngle || angle.same threeQuarterTurn then return zero
  else inRadians Decimal.cos? angle

end StackCalculator.Angle

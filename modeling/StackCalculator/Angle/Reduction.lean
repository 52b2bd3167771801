import StackCalculator.Decimal.Constants
import StackCalculator.Decimal.Order
import StackCalculator.Decimal.Product
import StackCalculator.Decimal.Quotient
import StackCalculator.Decimal.Remainder
import StackCalculator.Decimal.Sum
import StackCalculator.Failure

/-! Angles in degrees: reduction to one turn and conversion from and to radians. -/
namespace StackCalculator.Angle

def fullTurn : Decimal := .ofNat 360
def threeQuarterTurn : Decimal := .ofNat 270
def halfTurn : Decimal := .ofNat 180
def rightAngle : Decimal := .ofNat 90

/-- The angle from zero up to a full turn that differs by full turns. -/
def reduce (degrees : Decimal) : Except Failure Decimal := do
  let rest ← checked (degrees.rem? fullTurn)
  if rest.isNegative then assumed (rest.add? fullTurn) else return rest

/-- Angles of one turn beyond a half turn as negative ones: those just below a full
turn become small. -/
def recenter (degrees : Decimal) : Except Failure Decimal :=
  if halfTurn.lt degrees then assumed (degrees.sub? fullTurn) else .ok degrees

def toRadians (degrees : Decimal) : Except Failure Decimal := do
  let product ← checked (degrees.mul? .pi)
  checked (product.div? halfTurn)

def toDegrees (radians : Decimal) : Except Failure Decimal := do
  let product ← checked (radians.mul? halfTurn)
  checked (product.div? .pi)

end StackCalculator.Angle

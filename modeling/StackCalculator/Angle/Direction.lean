import StackCalculator.Angle.Reduction
import StackCalculator.Decimal.SquareRoot

/-! The direction of a vector in degrees. The arc tangent of a ratio up to one is
halved three times by `z / (1 + √(1 + z²))`, summed as a series at the eighth of the
angle, and multiplied back; the quadrant comes from the signs. -/
namespace StackCalculator.Angle
open Decimal (one two)

/-- The tangent of half the angle whose tangent is `z`. -/
def halfTangent (z : Decimal) : Except Failure Decimal := do
  let square ← checked (z.mul? z)
  let sum ← checked (one.add? square)
  let root ← sum.sqrt
  let divisor ← assumed (one.add? root)
  checked (z.div? divisor)

/-- `count` halvings of the angle with tangent `z`, and `factor` doubled as often. -/
def halveAngle : Nat → Decimal → Decimal → Except Failure (Decimal × Decimal)
  | 0, z, factor => .ok (z, factor)
  | count + 1, z, factor => do
    let half ← halfTangent z
    let doubled ← assumed (factor.mul? two)
    halveAngle count half doubled

/-- Adds at most `count` terms of the arc tangent series to `sum`, up to the first
that is zero; `power` and `n` belong to the term before. -/
def arctanSeries (square : Decimal) : Nat → Decimal → Decimal → Decimal →
    Except Failure Decimal
  | 0, _, _, sum => .ok sum
  | count + 1, power, n, sum => do
    let product ← checked (power.mul? square)
    let power := product.neg
    let n ← assumed (n.add? two)
    let term ← checked (power.div? n)
    if term.isZero then return sum
    let sum ← checked (sum.add? term)
    arctanSeries square count power n sum

def halvings : Nat := 3

/-- More terms than the series needs at an eighth of the angle. -/
def seriesTerms : Nat := 64

/-- The angle in radians with a tangent from zero to one. -/
def arctanUnit (z : Decimal) : Except Failure Decimal := do
  let (z, factor) ← halveAngle halvings z one
  let square ← checked (z.mul? z)
  let sum ← arctanSeries square seriesTerms z one z
  checked (sum.mul? factor)

/-- The angle in radians of the point with coordinates `x` and `y`, both positive. -/
def arctanQuotient (y x : Decimal) : Except Failure Decimal :=
  if y.same x then .ok .quarterPi
  else if y.lt x then do
    let ratio ← checked (y.div? x)
    arctanUnit ratio
  else do
    let ratio ← checked (x.div? y)
    let angle ← arctanUnit ratio
    assumed (Decimal.halfPi.sub? angle)

/-- The direction of the vector `(x, y)` from zero up to a full turn. The zero vector
has none. -/
def direction (y x : Decimal) : Except Failure Decimal :=
  match y.isZero, x.isZero with
  | true, true => .error .outOfRange
  | false, true => .ok (if y.negative then threeQuarterTurn else rightAngle)
  | true, false => .ok (if x.negative then halfTurn else .zero)
  | false, false => do
    let radians ← arctanQuotient y.abs x.abs
    let degrees ← toDegrees radians
    match y.negative, x.negative with
    | false, false => return degrees
    | false, true => assumed (halfTurn.sub? degrees)
    | true, true => assumed (halfTurn.add? degrees)
    | true, false => assumed (fullTurn.sub? degrees)

end StackCalculator.Angle

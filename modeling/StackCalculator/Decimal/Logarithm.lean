import StackCalculator.Decimal.Exponential
import StackCalculator.Decimal.Sum

/-! Logarithms of positive numbers. Powers of ten and of `e` are taken out until the
number is between `1 / e` and `1`; the rest goes through the series of the inverse
hyperbolic tangent of `(x - 1) / (x + 1)`. -/
namespace StackCalculator.Decimal

/-- A number and the exponent that was taken out of it. -/
abbrev Reduced := Decimal × Int

/-- Multiplies by `factor`, taking `change` out each time, while `more` holds and at
most `count` times. -/
def scaleWhile? (more : Decimal → Bool) (step? : Decimal → Option Decimal) (change : Int) :
    Nat → Reduced → Option Reduced
  | 0, state => some state
  | count + 1, (x, k) =>
    if more x then do
      let next ← step? x
      scaleWhile? more step? change count (next, k + change)
    else some (x, k)

/-- Powers of ten out of `v`, so that one digit stands before the point. -/
def takeTens? (v : Decimal) : Option Reduced := do
  let raised ← scaleWhile? (·.lt one) (·.mul? ten) (-1) v.scale (v, 0)
  scaleWhile? (ten.le ·) (·.div? ten) 1 (digitCount v.coefficient) raised

/-- A number below ten has at most three powers of `e` to give. -/
def eulerSteps : Nat := 3

/-- Powers of `e` out of `x`, first down below one and then back above `1 / e`. -/
def takeEs? (x : Decimal) : Option Reduced := do
  let lowered ← scaleWhile? (one.le ·) (·.mul? eInverse) 1 eulerSteps (x, 0)
  scaleWhile? (·.le eInverse) (·.mul? e) (-1) eulerSteps lowered

/-- Adds at most `count` terms `z ^ (2n + 1) / (2n + 1)` from index `n` on to `sum`,
up to the first negligible one; `power` is the last power of `z`. -/
def artanhSeries? (square : Wide) : Nat → Nat → Wide → Wide → Option Wide
  | 0, _, _, sum => some sum
  | count + 1, n, power, sum => do
    let power ← power.mul? square
    let term := power.divNat (2 * n + 1)
    let sum ← sum.add? term
    if term.isNegligible then some sum else artanhSeries? square count (n + 1) power sum

def artanhTerms : Nat := 99

/-- `ln x` from `below = x - 1` and `above = x + 1`. -/
def lnFromRatio? (below above : Wide) : Option Decimal := do
  let numerator ← below.toDecimal?
  let denominator ← above.toDecimal?
  let ratio ← numerator.div? denominator
  let z := Wide.ofDecimal ratio
  let square ← z.mul? z
  let sum ← artanhSeries? square artanhTerms 1 z z
  let twice ← Wide.two.mul? sum
  twice.toDecimal?

/-- The natural logarithm of a positive number. -/
def ln? (v : Decimal) : Option Decimal := do
  if v.same one then return zero
  let (x, tens) ← takeTens? v
  let tensPart ← (ofInt tens).mul? ln10
  if x.same one then return tensPart.normalize
  let (x, es) ← takeEs? x
  let below ← (Wide.ofDecimal x).add? Wide.one.neg
  if below.isZero then return ofInt es
  let above ← (Wide.ofDecimal x).add? .one
  let rest ← lnFromRatio? below above
  let sum ← tensPart.add? (ofInt es)
  let sum ← sum.add? rest
  return sum.normalize

/-- The exponent of ten if the coefficient is a power of ten. -/
def tenExponent? : Nat → Option Nat
  | 0 => none
  | 1 => some 0
  | n + 2 => if (n + 2) % 10 = 0 then (tenExponent? ((n + 2) / 10)).map (· + 1) else none
termination_by n => n
decreasing_by omega

/-- The logarithm to base ten of a positive number, exact at powers of ten. -/
def log10? (v : Decimal) : Option Decimal :=
  if v.same one then some zero
  else match tenExponent? v.coefficient with
    | some k => some (ofInt (k - v.scale))
    | none => v.ln?.bind ln10Inverse.mul?

/-- A positive number to a power that is not an integer. -/
def powDecimal? (b exponent : Decimal) : Option Decimal :=
  if b.same one then some one
  else do
    let logarithm ← b.ln?
    let product ← logarithm.mul? exponent.normalize
    product.exp?

end StackCalculator.Decimal

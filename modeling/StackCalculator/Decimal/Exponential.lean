import StackCalculator.Decimal.Constants
import StackCalculator.Decimal.Integral
import StackCalculator.Decimal.Power

/-! The exponential function. The fraction of the exponent goes through the Taylor
series, its whole part is a power of `e`; both stay wide until they are multiplied. -/
namespace StackCalculator.Decimal

/-- Adds at most `count` terms `x ^ i / i!` from index `i` on to `sum`, up to the
first negligible one; `term` is the one before. -/
def expSeries? (x : Wide) : Nat → Nat → Wide → Wide → Option Wide
  | 0, _, _, sum => some sum
  | count + 1, i, term, sum => do
    let next ← x.mul? (term.divNat i)
    let sum ← sum.add? next
    if next.isNegligible then some sum else expSeries? x count (i + 1) next sum

/-- The terms from the second power to the ninety-ninth. -/
def expTerms : Nat := 98

def expFraction? (x : Decimal) : Option Wide :=
  if x.isZero then some .one
  else do
    let x := Wide.ofDecimal x
    let sum ← Wide.one.add? x
    expSeries? x expTerms 2 x sum

/-- Exponents whose whole part is not below this bound are out of range. -/
def exponentBound : Nat := Nat.pow 2 64

def expNonneg? (v : Decimal) : Option Decimal := do
  let fraction ← expFraction? v.fraction
  if v.whole = 0 then fraction.toDecimal?
  else if exponentBound ≤ v.whole then none
  else
    let power ← squarePower Wide.mul? .one (.ofDecimal e) v.whole
    let product ← power.mul? fraction
    product.toDecimal?.map normalize

/-- A negative power of `e` is the inverse of the positive one. -/
def exp? (v : Decimal) : Option Decimal :=
  if v.isZero then some one
  else if v.negative then (expNonneg? v.abs).bind one.div?
  else expNonneg? v

end StackCalculator.Decimal

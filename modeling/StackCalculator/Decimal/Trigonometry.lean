import StackCalculator.Decimal.Constants
import StackCalculator.Decimal.Order
import StackCalculator.Decimal.Remainder
import StackCalculator.Decimal.Sum
import StackCalculator.Wide.Arithmetic

/-! Sine and cosine of an angle in radians. The angle is folded from a turn to a
half turn to an eighth of a turn, where the Taylor series is summed; each fold has
its own function, named for the range that it takes. -/
namespace StackCalculator.Decimal

/-- Adds at most `count` terms of alternating sign to `sum`, up to the first
negligible one. The next term is `term` times `square` over the two integers that
follow `degree`. -/
def alternatingSeries? (square : Wide) : Nat → Nat → Wide → Wide → Option Wide
  | 0, _, _, sum => some sum
  | count + 1, degree, term, sum => do
    let product ← term.mul? square
    let next := (product.divNat ((degree + 1) * (degree + 2))).neg
    let sum ← sum.add? next
    if next.isNegligible then some sum
    else alternatingSeries? square count (degree + 2) next sum

def alternatingTerms : Nat := 50

/-- Sine of an angle up to a quarter of pi. -/
def sinEighth? (v : Decimal) : Option Decimal :=
  if v.isZero then some zero
  else do
    let x := Wide.ofDecimal v
    let square ← x.mul? x
    let sum ← alternatingSeries? square alternatingTerms 1 x x
    sum.toDecimal?.map normalize

/-- Cosine of an angle up to a quarter of pi. -/
def cosEighth? (v : Decimal) : Option Decimal :=
  if v.isZero then some one
  else do
    let x := Wide.ofDecimal v
    let square ← x.mul? x
    let sum ← alternatingSeries? square alternatingTerms 0 .one .one
    sum.toDecimal?.map normalize

/-- Sine of an angle up to half of pi. -/
def sinQuarter? (v : Decimal) : Option Decimal :=
  if quarterPi.lt v then (halfPi.sub? v).bind cosEighth? else sinEighth? v

/-- Cosine of an angle up to half of pi. -/
def cosQuarter? (v : Decimal) : Option Decimal :=
  if quarterPi.lt v then (halfPi.sub? v).bind sinEighth? else cosEighth? v

/-- Sine of an angle below pi: cosine of its distance from half of pi. -/
def sinHalf? (v : Decimal) : Option Decimal :=
  if quarterPi.lt v then (halfPi.sub? v).bind fun u => cosQuarter? u.abs else sinEighth? v

/-- Cosine of an angle below pi, negative beyond half of pi. -/
def cosHalf? (v : Decimal) : Option Decimal :=
  if quarterPi.lt v then
    (halfPi.sub? v).bind fun u =>
      if u.isNegative then (sinQuarter? u.abs).map neg else sinEighth? u
  else cosEighth? v

/-- A function of angles below pi continued to those below twice pi, where it
changes its sign. -/
def continueTurn? (half? : Decimal → Option Decimal) (v : Decimal) : Option Decimal :=
  if pi.le v then ((v.sub? pi).bind half?).map neg else half? v

/-- A function of angles below twice pi continued to all angles from zero on. -/
def continuePeriod? (turn? : Decimal → Option Decimal) (v : Decimal) : Option Decimal :=
  if twoPi.le v then (v.rem? twoPi).bind turn? else turn? v

def sin? (v : Decimal) : Option Decimal :=
  if v.isZero then some zero
  else if v.negative then (continuePeriod? (continueTurn? sinHalf?) v.abs).map neg
  else continuePeriod? (continueTurn? sinHalf?) v

def cos? (v : Decimal) : Option Decimal :=
  continuePeriod? (continueTurn? cosHalf?) v.abs

end StackCalculator.Decimal

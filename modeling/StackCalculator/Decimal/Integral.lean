import StackCalculator.Decimal.Rounding

/-! Integers near a decimal. The sign is kept even where the result is zero, so
that `-0.5` truncates to `-0`; only `round` clears it, and only if the number was
not zero before. -/
namespace StackCalculator.Decimal

def isIntegral (d : Decimal) : Bool := d.coefficient % pow10 d.scale == 0

/-- The digits before the point. -/
def whole (d : Decimal) : Nat := d.coefficient / pow10 d.scale

/-- The digits after the point as a number of their own. -/
def fraction (d : Decimal) : Decimal :=
  ofParts d.negative (d.coefficient % pow10 d.scale) d.scale

/-- Digits after the point dropped. -/
def trunc (d : Decimal) : Decimal := ⟨d.negative, d.whole, 0⟩

def floor (d : Decimal) : Decimal :=
  if d.negative && !d.isIntegral then ⟨true, d.whole + 1, 0⟩ else d.trunc

def ceil (d : Decimal) : Decimal :=
  if !d.negative && !d.isIntegral then ⟨false, d.whole + 1, 0⟩ else d.trunc

/-- The nearest integer, halfway the one farther from zero. -/
def round (d : Decimal) : Decimal :=
  if d.scale = 0 ∨ d.isZero then ⟨d.negative, d.coefficient, 0⟩
  else ofParts d.negative (halfUp d.coefficient (pow10 d.scale)) 0

/-- The integer that remains when the digits after the point are dropped. -/
def toInt (d : Decimal) : Int := if d.negative then -(d.whole : Int) else d.whole

end StackCalculator.Decimal

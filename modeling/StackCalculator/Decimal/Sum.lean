import StackCalculator.Decimal.Rounding

/-! Addition and subtraction. The exact sum at the larger scale is fitted to the
format, so it fails only when digits before the point do not fit. Adding a zero
keeps the encoding of the other number. -/
namespace StackCalculator.Decimal

def add? (a b : Decimal) : Option Decimal :=
  if a.isZero then some b
  else if b.isZero then some a
  else
    let scale := max a.scale b.scale
    let sum := a.signed * pow10 (scale - a.scale) + b.signed * pow10 (scale - b.scale)
    (fit? sum.natAbs scale).map fun (n, s) => ofParts (decide (sum < 0)) n s

/-- A zero is subtracted as it stands: its sign can come back as that of the result. -/
def sub? (a b : Decimal) : Option Decimal := a.add? (if b.isZero then b else b.neg)

end StackCalculator.Decimal

import StackCalculator.Decimal.Rounding

/-! Multiplication. Two factors of one machine word take a shorter way, on which a
product too small for the format is plain zero; on the general way a product that
rounds to zero keeps its digits after the point and its sign. -/
namespace StackCalculator.Decimal

/-- Places after the point from which a product of two words is below half a unit
of the last place. -/
def vanishingScale : Nat := 47

def mul? (a b : Decimal) : Option Decimal :=
  if a.isZero || b.isZero then some zero
  else
    let negative := a.negative != b.negative
    let product := a.coefficient * b.coefficient
    let scale := a.scale + b.scale
    if a.coefficient < wordCapacity ∧ b.coefficient < wordCapacity then
      if vanishingScale < scale then some zero
      else if maxScale < scale then
        some (ofParts negative (halfEven product (pow10 (scale - maxScale))) maxScale)
      else some (ofParts negative product scale)
    else (fit? product scale).map fun (n, s) => ⟨negative, n, s⟩

end StackCalculator.Decimal

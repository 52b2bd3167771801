import StackCalculator.Decimal.Rounding

/-! Rounding to a number of significant digits, half to even. Digits are dropped
and never added: the scale shrinks by as many places as digits go, and where all
of them stood before the point zeros take their place. -/
namespace StackCalculator.Decimal

/-- The most significant digits that can be asked for. -/
def maxPrecision : Nat := 28

/-- Rounded to `precision` significant digits, between one and `maxPrecision`. A
number whose rounding would not fit the format stays as it is. -/
def roundTo (precision : Nat) (d : Decimal) : Decimal :=
  let drop := digitCount d.coefficient - max 1 (min precision maxPrecision)
  if drop = 0 then d
  else
    let rounded := halfEven d.coefficient (pow10 drop)
    if drop ≤ d.scale then ⟨d.negative, rounded, d.scale - drop⟩
    else
      let padded := rounded * pow10 (drop - d.scale)
      if padded < capacity then ⟨d.negative, padded, 0⟩ else d

end StackCalculator.Decimal

import StackCalculator.Decimal.Basic

/-! Comparison by number, at a common scale. Encodings do not matter: `1` and
`1.00` are the same number, and so are the two zeros. -/
namespace StackCalculator.Decimal

def same (a b : Decimal) : Bool := a.signed * pow10 b.scale == b.signed * pow10 a.scale

def lt (a b : Decimal) : Bool := decide (a.signed * pow10 b.scale < b.signed * pow10 a.scale)

def le (a b : Decimal) : Bool := decide (a.signed * pow10 b.scale ≤ b.signed * pow10 a.scale)

end StackCalculator.Decimal

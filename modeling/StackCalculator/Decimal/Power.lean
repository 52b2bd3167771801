import StackCalculator.Decimal.Order
import StackCalculator.Decimal.Product
import StackCalculator.Decimal.Quotient
import StackCalculator.Wide.Arithmetic

/-! Integer powers by repeated squaring. Exponents below 1024 multiply decimals,
larger ones wide numbers. A negative power is the inverse of the positive one. -/
namespace StackCalculator

/-- `product` times the power `e` of `square`, for positive `e`; nothing is squared
that is not multiplied in later. -/
def squarePower (mul? : α → α → Option α) (product square : α) (e : Nat) : Option α := do
  let product ← if e % 2 = 1 then mul? product square else some product
  if _ : e / 2 = 0 then return product
  else
    let next ← mul? square square
    squarePower mul? product next (e / 2)
termination_by e

namespace Decimal

/-- Exponents from here on are computed in wide numbers. -/
def wideExponent : Nat := 1024

def powNat? (b : Decimal) (e : Nat) : Option Decimal :=
  if e = 0 then some one
  else if b.isZero then some zero
  else if b.same one then some one
  else if e = 1 then some b
  else if e = 2 then b.mul? b
  else if e < wideExponent then (squarePower mul? one b e).map normalize
  else
    ((squarePower Wide.mul? .one (.ofDecimal b) e).bind Wide.toDecimal?).map normalize

def powInt? (b : Decimal) (e : Int) : Option Decimal :=
  if e < 0 then (b.powNat? e.natAbs).bind one.div? else b.powNat? e.natAbs

end Decimal
end StackCalculator

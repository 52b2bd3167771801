import StackCalculator.Decimal.Basic

/-! The remainder of a division that is truncated toward zero, with the sign of the
dividend; a dividend smaller than the divisor keeps its encoding. The remainder is
exact if the dividend at the common scale is still a coefficient, or if the divisor
takes no more than two machine words. Otherwise it comes from long division by words,
which estimates each digit from the leading word of the divisor and keeps the estimate
in one word: an estimate of one bit more loses that bit, and what is left then is not
the remainder. -/
namespace StackCalculator.Decimal

/-- One step of long division by a divisor of three words with its highest bit set:
what is left of `window`, which is what was left before and the next word. Too large
a digit is made up for by adding the divisor back, twice at most. -/
def reduceDigit (divisor window : Nat) : Nat :=
  let leading := divisor / twoWordCapacity
  let digit := window / twoWordCapacity / leading % wordCapacity
  let rest := window / twoWordCapacity % leading * twoWordCapacity + window % twoWordCapacity
  let product := digit * (divisor % twoWordCapacity)
  if product ≤ rest then rest - product
  else if product ≤ rest + divisor then rest + divisor - product
  else rest + 2 * divisor - product

/-- What is left of `n` when its words are taken from the highest on. -/
def reduceWords (divisor n : Nat) : Nat :=
  if n = 0 then 0
  else
    reduceDigit divisor
      (reduceWords divisor (n / wordCapacity) * wordCapacity + n % wordCapacity)
termination_by n
decreasing_by exact Nat.div_lt_self (Nat.pos_of_ne_zero ‹_›) (by decide)

/-- Long division by three words, both numbers moved up until the highest bit of the
divisor is set. -/
def longRemainder (dividend divisor : Nat) : Nat :=
  let shift := 95 - divisor.log2
  reduceWords (divisor <<< shift) (dividend <<< shift) >>> shift

/-- The remainder of numbers at one scale. -/
def remainderOf (dividend divisor : Nat) : Nat :=
  if dividend < capacity ∨ divisor < twoWordCapacity then dividend % divisor
  else longRemainder dividend divisor

def rem? (a b : Decimal) : Option Decimal :=
  if b.isZero then none
  else if a.isZero then some zero
  else
    let scale := max a.scale b.scale
    let dividend := a.coefficient * pow10 (scale - a.scale)
    let divisor := b.coefficient * pow10 (scale - b.scale)
    if dividend = divisor then some zero
    else if dividend < divisor then some a
    else some (ofParts a.negative (remainderOf dividend divisor) scale)

end StackCalculator.Decimal

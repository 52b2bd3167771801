import StackCalculator.Decimal.Order
import StackCalculator.Decimal.Quotient
import StackCalculator.Decimal.Sum
import StackCalculator.Failure

/-! Square roots by averaging: an estimate is replaced by the mean of itself and
its quotient until it no longer changes. The number of replacements is bounded;
an estimate that has not settled by then is an internal failure. -/
namespace StackCalculator.Decimal

/-- The mean of `r` and `a / r`. -/
def improveRoot? (a r : Decimal) : Option Decimal := do
  let quotient ← a.div? r
  let sum ← r.add? quotient
  sum.div? two

/-- Improves the estimate `r` at most `count` times; the result is the first
estimate that equals the one before it. -/
def settleRoot? (a : Decimal) : Nat → Decimal → Option Decimal
  | 0, _ => none
  | count + 1, r => do
    let next ← improveRoot? a r
    if next.same r then some next else settleRoot? a count next

def rootSteps : Nat := 999

/-- Half of the number, or the number itself if the half rounds to zero. -/
def rootEstimate? (a : Decimal) : Option Decimal := do
  let half ← a.div? two
  return if half.isZero then a else half

/-- A minus sign is out of range, also that of a zero. -/
def sqrt (a : Decimal) : Except Failure Decimal :=
  if a.negative then .error .outOfRange
  else if a.isZero then .ok zero
  else assumed ((rootEstimate? a).bind (settleRoot? a rootSteps))

end StackCalculator.Decimal

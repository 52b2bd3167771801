import StackCalculator.Decimal.Basic

/-! Decimals from digits. Digits after the point are taken while the format holds
them; the first that it cannot hold rounds the rest off, half up, and the digits
after that one are not looked at. -/
namespace StackCalculator.Decimal

/-- Continues the coefficient `n` with digits before the point. -/
def readWhole? (n : Nat) : List Nat → Option Nat
  | [] => some n
  | d :: rest => if n * 10 + d < capacity then readWhole? (n * 10 + d) rest else none

/-- Continues the coefficient `n` at scale `s` with digits after the point. A carry
out of the coefficient gives up a digit, and fails if there is none. -/
def readFraction? (n s : Nat) : List Nat → Option (Nat × Nat)
  | [] => some (n, s)
  | d :: rest =>
    if s < maxScale ∧ n * 10 + d < capacity then readFraction? (n * 10 + d) (s + 1) rest
    else if d < 5 then some (n, s)
    else if n + 1 < capacity then some (n + 1, s)
    else if s = 0 then none
    else some ((n + 5) / 10, s - 1)

/-- A number that is zero comes out without its sign. -/
def ofDigits? (negative : Bool) (whole fraction : List Nat) : Option Decimal := do
  let n ← readWhole? 0 whole
  let (n, s) ← readFraction? n 0 fraction
  return ofParts negative n s

end StackCalculator.Decimal

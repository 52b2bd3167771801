import StackCalculator.Decimal.Rounding
import StackCalculator.Wide.Rescale

/-! Sums, products and small quotients of wide numbers. A product keeps the sign of
its factors even where it is rounded to zero. -/
namespace StackCalculator.Wide
open Decimal (pow10 pow10_pos halfEven)

/-- Digits beyond the last place rounded off, half to even, up to nine at a time. -/
def roundPlaces (n s : Nat) : Nat × Nat :=
  if _ : wideFormat.maxScale < s then
    let group := min 9 (s - wideFormat.maxScale)
    roundPlaces (halfEven n (pow10 group)) (s - group)
  else (n, s)
termination_by s
decreasing_by
  have : wideFormat.maxScale = 57 := rfl
  omega

def mul? (a b : Wide) : Option Wide :=
  if a.isZero || b.isZero then some zero
  else
    let negative := a.negative != b.negative
    let product := a.coefficient * b.coefficient
    let scale := a.scale + b.scale
    if product < wideFormat.capacity then
      let (n, s) := roundPlaces product scale
      some ⟨negative, n, s⟩
    else (shorten? wideFormat product scale).map fun (n, s) => ⟨negative, n, s⟩

/-- The sum of two coefficients of one sign, short of its last digit if it is too
long. -/
def carry? (n s : Nat) : Option (Nat × Nat) :=
  if n < wideFormat.capacity then some (n, s)
  else if s = 0 then none
  else some (Decimal.halfUp n 10, s - 1)

/-- Fails where a number cannot be brought to the scale of the other. Numbers that
cancel leave a zero with the sign of the first. -/
def add? (a b : Wide) : Option Wide :=
  if a.isZero then some b
  else if b.isZero then some a
  else
    let scale := max a.scale b.scale
    let m := a.coefficient * pow10 (scale - a.scale)
    let n := b.coefficient * pow10 (scale - b.scale)
    if wideFormat.capacity ≤ m ∨ wideFormat.capacity ≤ n then none
    else if a.negative = b.negative then
      (carry? (m + n) scale).map fun (sum, s) => ⟨a.negative, sum, s⟩
    else if m < n then some ⟨b.negative, n - m, scale⟩
    else some ⟨a.negative, m - n, scale⟩

/-- Digits that can be appended to the coefficient `n`, with 77/256 for the digits
in one bit and at most nine. -/
def freeDigits (n : Nat) : Nat := min 9 ((wideFormat.bits - bitLength n) * 77 / 256)
where
  bitLength (n : Nat) : Nat := if n = 0 then 0 else n.log2 + 1

/-- Continues the quotient `n` with remainder `r` while places are left, and rounds
by the last remainder. -/
def longDivision (d n r s : Nat) : Nat × Nat :=
  let step := freeDigits n
  if _ : 0 < r ∧ 0 < step ∧ s + step ≤ wideFormat.maxScale then
    longDivision d (n * pow10 step + r * pow10 step / d) (r * pow10 step % d) (s + step)
  else if 0 < r ∧ (d / 2 < r ∨ r = d / 2 ∧ n % 2 = 1) then (n + 1, s)
  else (n, s)
termination_by wideFormat.maxScale - s

def divNat (w : Wide) (d : Nat) : Wide :=
  if w.isZero ∨ d = 1 then w
  else
    let (n, s) := longDivision d (w.coefficient / d) (w.coefficient % d) w.scale
    ⟨w.negative, n, s⟩

end StackCalculator.Wide

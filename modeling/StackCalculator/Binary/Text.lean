import StackCalculator.Binary.Single

/-! The text of a pattern that has no decimal: one that is not finite, or an integer
that is too large. Such an integer is written with the fewest significant digits
that read back as the same pattern, zeros filling the places after them. -/
namespace StackCalculator.Single
open Decimal (pow10 digitCount)

/-- Whether `n` is nearer to `m * 2 ^ q` than to the patterns next to it, or halfway
and `m` even. Below a power of two patterns lie twice as close. -/
def readsBack (m q n : Nat) : Bool :=
  let below := if m = hiddenBit then 1 else 2
  let low := (4 * m - below) <<< q
  let high := (4 * m + 2) <<< q
  if m % 2 = 0 then low ≤ 4 * n ∧ 4 * n ≤ high else low < 4 * n ∧ 4 * n < high

/-- The nearest number that ends in the most zeros, at most `zeros`, and reads back
as `m * 2 ^ q`; halfway, the larger one. -/
def shortest (m q : Nat) : Nat → Nat
  | 0 => m <<< q
  | zeros + 1 =>
    let unit := pow10 (zeros + 1)
    let down := (m <<< q) / unit * unit
    let up := down + unit
    match readsBack m q down, readsBack m q up with
    | true, true => if 2 * (m <<< q) < down + up then down else up
    | true, false => down
    | false, true => up
    | false, false => shortest m q zeros

def rejectedText (f : Single) : String :=
  if f.exponentField = 255 ∧ f.fractionField ≠ 0 then "NaN"
  else
    let sign := if f.negative then "-" else ""
    if !f.isFinite then sign ++ "inf"
    else
      let m := f.significand
      let q := f.biasedExponent - unitExponent
      sign ++ toString (shortest m q (digitCount (m <<< q)))

end StackCalculator.Single

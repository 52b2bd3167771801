import StackCalculator.Wide.Basic

/-! Shortening a number to a format. The digits that have to go are estimated from
the excess bits and dropped up to nine at a time. Only the last group that is
dropped decides the rounding: one unit in it rounds an odd coefficient up, and more
than one unit rounds any coefficient up. -/
namespace StackCalculator.Wide
open Decimal (pow10 pow10_pos)

/-- An estimate of the digits that `n` has to lose, with 77/256 for the digits in
one bit. -/
def excess (f : Format) (n s : Nat) : Nat :=
  max (if n < f.capacity then 0 else (n.log2 + 1 - f.bits) * 77 / 256 + 1) (s - f.maxScale)

/-- The coefficient `n` rounded by the group of digits `dropped` last. A carry out
of the format drops one digit more. -/
def roundDropped (f : Format) (n dropped s : Nat) : Option (Nat × Nat) :=
  if 1 < dropped ∨ dropped = 1 ∧ n % 2 = 1 then
    if n + 1 < f.capacity then some (n + 1, s)
    else if s = 0 then none
    else some ((n + 1) / 10, s - 1)
  else some (n, s)

/-- Drops `count` digits of `n`, and then single ones until the format holds it. -/
def dropDigits (f : Format) (n s count : Nat) : Option (Nat × Nat) :=
  if _ : 0 < count ∧ count ≤ s then
    let group := min count 9
    let kept := n / pow10 group
    if group < count then dropDigits f kept (s - group) (count - group)
    else if kept < f.capacity then roundDropped f kept (n % pow10 group) (s - group)
    else dropDigits f kept (s - group) 1
  else none
termination_by s
decreasing_by all_goals omega

def shorten? (f : Format) (n s : Nat) : Option (Nat × Nat) :=
  let count := excess f n s
  if count = 0 then some (n, s) else dropDigits f n s count

/-- The decimal that a wide number is rounded to. -/
def toDecimal? (w : Wide) : Option Decimal :=
  (shorten? decimalFormat w.coefficient w.scale).map fun (n, s) => .ofParts w.negative n s

end StackCalculator.Wide

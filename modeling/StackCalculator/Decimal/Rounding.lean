import StackCalculator.Decimal.Basic

/-! Rounding of coefficients. All of it works on magnitudes: the rules are
symmetric, so a sign is put back by the caller. `fit?` brings an exact result of
any size into the format by dropping as few digits as possible. -/
namespace StackCalculator.Decimal

/-- The integer nearest to `num / den`; halfway, the even one. -/
def halfEven (num den : Nat) : Nat :=
  if den < 2 * (num % den) ∨ 2 * (num % den) = den ∧ num / den % 2 = 1 then num / den + 1
  else num / den

/-- The integer nearest to `num / den`; halfway, the larger one. -/
def halfUp (num den : Nat) : Nat :=
  if den ≤ 2 * (num % den) then num / den + 1 else num / den

/-- The number of decimal digits, none for zero. -/
def digitCount (n : Nat) : Nat := if n = 0 then 0 else digitCount (n / 10) + 1

/-- How many trailing digits `n` has to lose to be below `capacity`. -/
def excessDigits (n : Nat) : Nat := if n < capacity then 0 else excessDigits (n / 10) + 1
termination_by n
decreasing_by
  have : 0 < capacity := by decide
  omega

/-- The coefficient and scale nearest to `n / 10 ^ s` that fit the format, with
the fewest digits dropped; `none` if digits before the point would have to go. A
carry out of the coefficient drops one digit more. -/
def fit? (n s : Nat) : Option (Nat × Nat) :=
  let drop := (s - maxScale) + excessDigits (n / pow10 (s - maxScale))
  if s < drop then none
  else
    let rounded := halfEven n (pow10 drop)
    if rounded < capacity then some (rounded, s - drop)
    else if s - drop = 0 then none
    else some (halfEven rounded 10, s - drop - 1)

/-- Trailing zeros after the point removed. -/
def stripZeros : Nat → Nat → Nat × Nat
  | n, 0 => (n, 0)
  | n, s + 1 => if n % 10 = 0 then stripZeros (n / 10) s else (n, s + 1)

/-- The shortest encoding of the same number; every zero becomes plain zero. -/
def normalize (d : Decimal) : Decimal :=
  if d.isZero then zero
  else
    let (n, s) := stripZeros d.coefficient d.scale
    ⟨d.negative, n, s⟩

end StackCalculator.Decimal

import StackCalculator.Decimal.Rounding

/-! Division. Long division continues the integer quotient by up to nine digits at
a time until the remainder is gone or no place is left, and rounds half to even
once. Division by zero and quotients too large for the format are rejected by
`div?`. -/
namespace StackCalculator.Decimal

/-- The most digits, at most `limit`, that can be appended to `q`. -/
def room (q : Nat) : Nat → Nat
  | 0 => 0
  | limit + 1 => if q * pow10 (limit + 1) < capacity then limit + 1 else room q limit

theorem room_le (q limit : Nat) : room q limit ≤ limit := by
  induction limit with
  | zero => exact Nat.le_refl _
  | succ limit ih =>
    unfold room
    split
    · exact Nat.le_refl _
    · exact Nat.le_succ_of_le ih

/-- A quotient one digit too long gives up its last digit. A half is rounded to
even unless `inexact` says that more follows it. -/
def giveBack (q : Nat) (scale : Int) (inexact : Bool) : Option (Nat × Nat) :=
  if scale ≤ 0 then none
  else
    let up := 5 < q % 10 ∨ q % 10 = 5 ∧ (inexact ∨ q / 10 % 2 = 1)
    some (if up then q / 10 + 1 else q / 10, (scale - 1).toNat)

/-- The quotient found so far, rounded by its remainder `r`. -/
def roundLast (den q r : Nat) (scale : Int) : Option (Nat × Nat) :=
  let rounded := if den < 2 * r ∨ 2 * r = den ∧ q % 2 = 1 then q + 1 else q
  if rounded < capacity then some (rounded, scale.toNat) else giveBack rounded scale true

/-- Continues the quotient `q` with remainder `r` at a scale that may still be
negative; ends with a coefficient and its scale. -/
def longDivision (den q r : Nat) (scale : Int) : Option (Nat × Nat) :=
  if r = 0 then
    if _ : 0 ≤ scale then some (q, scale.toNat)
    else
      let step := min 9 (-scale).toNat
      if q * pow10 step < capacity then longDivision den (q * pow10 step) 0 (scale + step) else none
  else
    let step := room q (min 9 (maxScale - scale).toNat)
    if step < 9 ∧ scale + step < 0 then none
    else if _ : step = 0 then roundLast den q r scale
    else
      let extended := q * pow10 step + r * pow10 step / den
      let rest := r * pow10 step % den
      if extended < capacity then longDivision den extended rest (scale + step)
      else giveBack extended (scale + step) (rest != 0)
termination_by (maxScale - scale).toNat
decreasing_by
  · have : (maxScale : Int) = 28 := rfl
    omega
  · have : (maxScale : Int) = 28 := rfl
    have := room_le q (min 9 (maxScale - scale).toNat)
    omega

/-- `count` zeros after the point removed, if there are that many. -/
def dropZeros (count : Nat) (n s : Nat) : Nat × Nat :=
  if count ≤ s ∧ n % pow10 count = 0 then (n / pow10 count, s - count) else (n, s)

/-- Blocks of eight zeros after the point removed from coefficients whose lowest
machine word is zero. -/
def dropBlocks (n s : Nat) : Nat × Nat :=
  if n % 4294967296 = 0 ∧ 8 ≤ s ∧ n % pow10 8 = 0 then dropBlocks (n / pow10 8) (s - 8) else (n, s)
termination_by s

/-- The zeros that long division leaves behind a fraction are removed by four,
two and one after the blocks of eight, so that some can stay. -/
def trimQuotient (n s : Nat) : Nat × Nat :=
  let (n, s) := dropBlocks n s
  let (n, s) := dropZeros 4 n s
  let (n, s) := dropZeros 2 n s
  dropZeros 1 n s

def div? (a b : Decimal) : Option Decimal :=
  if b.isZero then none
  else if a.isZero then some zero
  else
    let whole := a.coefficient / b.coefficient
    let rest := a.coefficient % b.coefficient
    (longDivision b.coefficient whole rest (a.scale - b.scale)).map fun (n, s) =>
      let (n, s) := if rest = 0 then (n, s) else trimQuotient n s
      ofParts (a.negative != b.negative) n s

end StackCalculator.Decimal

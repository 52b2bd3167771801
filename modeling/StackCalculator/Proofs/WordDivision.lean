import StackCalculator.Proofs.Remainders

/-! When division by words leaves the remainder. An estimate of a digit from the leading word of a
divisor whose highest bit is set is too large by two at most, so adding the divisor back makes up
for it, as long as the estimate itself is kept. It does not fit its word where what is left before
reaches the leading word of the divisor; without such a digit the remainder is exact. -/
namespace StackCalculator.Decimal
variable {divisor dividend window n : ℕ}

theorem wordCapacity_mul_twoWordCapacity : wordCapacity * twoWordCapacity = capacity := rfl

theorem eq_mod_of_add_mul_eq {left j k : ℕ} (lt : left < divisor) (congruent : left + j * divisor = n + k * divisor) :
    left = n % divisor := by
  have same : (left + j * divisor) % divisor = (n + k * divisor) % divisor := congrArg (· % divisor) congruent
  rwa [Nat.add_mul_mod_self_right, Nat.add_mul_mod_self_right, Nat.mod_eq_of_lt lt] at same

/-- The estimate times the divisor and what is left beside the leading word make up the window, but
for the lower words of the divisor. -/
theorem window_add_product (divisor window : ℕ) :
    let digit := window / twoWordCapacity / (divisor / twoWordCapacity)
    let rest := window / twoWordCapacity % (divisor / twoWordCapacity) * twoWordCapacity + window % twoWordCapacity
    window + digit * (divisor % twoWordCapacity) = digit * divisor + rest := by
  intro digit rest
  have words : twoWordCapacity * (window / twoWordCapacity) + window % twoWordCapacity = window := Nat.div_add_mod _ _
  have leading : divisor / twoWordCapacity * digit + window / twoWordCapacity % (divisor / twoWordCapacity) =
      window / twoWordCapacity := Nat.div_add_mod _ _
  have parts : twoWordCapacity * (divisor / twoWordCapacity) + divisor % twoWordCapacity = divisor :=
    Nat.div_add_mod _ _
  simp only [rest]
  generalize window / twoWordCapacity % (divisor / twoWordCapacity) = left at *
  calc window + digit * (divisor % twoWordCapacity)
    _ = twoWordCapacity * (divisor / twoWordCapacity * digit + left) + window % twoWordCapacity +
          digit * (divisor % twoWordCapacity) := by rw [leading, words]
    _ = digit * (twoWordCapacity * (divisor / twoWordCapacity) + divisor % twoWordCapacity) +
          (left * twoWordCapacity + window % twoWordCapacity) := by ring
    _ = _ := by rw [parts]

theorem twoWordCapacity_le (normalized : capacity ≤ 2 * divisor) : twoWordCapacity ≤ divisor := by
  have : 2 * twoWordCapacity ≤ capacity := by decide
  omega

theorem reduceDigit_eq_mod (normalized : capacity ≤ 2 * divisor)
    (short : window / twoWordCapacity / (divisor / twoWordCapacity) < wordCapacity) :
    reduceDigit divisor window = window % divisor := by
  have made := window_add_product divisor window
  -- Two divisors are more than a word times two words.
  have most : window / twoWordCapacity / (divisor / twoWordCapacity) * (divisor % twoWordCapacity) ≤ 2 * divisor := by
    refine le_trans ?_ normalized
    rw [← wordCapacity_mul_twoWordCapacity]
    exact Nat.mul_le_mul short.le (Nat.mod_lt _ (by decide)).le
  have congruent : ∃ k, reduceDigit divisor window + window / twoWordCapacity / (divisor / twoWordCapacity) * divisor =
      window + k * divisor := by
    simp only [reduceDigit, Nat.mod_eq_of_lt short] at made ⊢
    generalize window / twoWordCapacity % (divisor / twoWordCapacity) * twoWordCapacity +
      window % twoWordCapacity = rest at *
    generalize window / twoWordCapacity / (divisor / twoWordCapacity) * (divisor % twoWordCapacity) = product at *
    split
    · exact ⟨0, by omega⟩
    · split
      · exact ⟨1, by omega⟩
      · exact ⟨2, by omega⟩
  obtain ⟨k, congruent⟩ := congruent
  exact eq_mod_of_add_mul_eq (reduceDigit_lt (twoWordCapacity_le normalized) window) congruent

/-- What is left before some word reaches the leading word of the divisor, so that the estimate of
the next digit does not fit a word. -/
def LongDigit (divisor dividend : ℕ) : Prop :=
  ∃ i, divisor / twoWordCapacity * twoWordCapacity ≤ dividend / wordCapacity ^ (i + 1) % divisor

theorem LongDigit.of_div (digit : LongDigit divisor (dividend / wordCapacity)) : LongDigit divisor dividend := by
  obtain ⟨i, reached⟩ := digit
  refine ⟨i + 1, ?_⟩
  rwa [pow_succ', ← Nat.div_div_eq_div_mul]

theorem estimate_lt (long : twoWordCapacity ≤ divisor) {left : ℕ} (word : n < wordCapacity)
    (below : left < divisor / twoWordCapacity * twoWordCapacity) :
    (left * wordCapacity + n) / twoWordCapacity / (divisor / twoWordCapacity) < wordCapacity := by
  have leading : 0 < divisor / twoWordCapacity := Nat.div_pos long (by decide)
  rw [Nat.div_div_eq_div_mul, Nat.div_lt_iff_lt_mul (Nat.mul_pos (by decide) leading)]
  calc left * wordCapacity + n
    _ < (left + 1) * wordCapacity := by
      rw [Nat.add_one_mul]
      exact Nat.add_lt_add_left word _
    _ ≤ divisor / twoWordCapacity * twoWordCapacity * wordCapacity := Nat.mul_le_mul_right _ below
    _ = wordCapacity * (twoWordCapacity * (divisor / twoWordCapacity)) := by ring

theorem reduceWords_eq_mod (normalized : capacity ≤ 2 * divisor) (short : ¬LongDigit divisor dividend) :
    reduceWords divisor dividend = dividend % divisor := by
  have long := twoWordCapacity_le normalized
  induction dividend using reduceWords.induct with
  | case1 => rw [reduceWords, if_pos rfl, Nat.zero_mod]
  | case2 n some ih =>
    have before := ih fun digit => short digit.of_div
    have below : n / wordCapacity % divisor < divisor / twoWordCapacity * twoWordCapacity :=
      not_le.mp fun reached => short ⟨0, by rwa [zero_add, pow_one]⟩
    have word : n % wordCapacity < wordCapacity := Nat.mod_lt _ (by decide)
    rw [reduceWords, if_neg some, before, reduceDigit_eq_mod normalized (estimate_lt long word below)]
    conv_rhs => rw [← Nat.div_add_mod' n wordCapacity]
    rw [Nat.add_mod, Nat.mod_mul_mod, ← Nat.add_mod]

theorem longRemainder_eq_mod (positive : 0 < divisor) (small : divisor < capacity)
    (short : ¬LongDigit (divisor <<< (95 - divisor.log2)) (dividend <<< (95 - divisor.log2))) :
    longRemainder dividend divisor = dividend % divisor := by
  have bits : divisor.log2 < 96 := (Nat.log2_lt positive.ne').mpr (by exact small)
  have normalized : capacity ≤ 2 * (divisor <<< (95 - divisor.log2)) := by
    have least : 2 ^ divisor.log2 ≤ divisor := Nat.log2_self_le positive.ne'
    have power : 2 ^ divisor.log2 * 2 ^ (95 - divisor.log2) = 2 ^ 95 := by
      rw [← pow_add, Nat.add_sub_cancel' (Nat.le_of_lt_succ bits)]
    have whole : capacity = 2 * 2 ^ 95 := by decide
    rw [Nat.shiftLeft_eq, whole, ← power]
    gcongr
  have left := reduceWords_eq_mod normalized short
  simp only [longRemainder, left]
  rw [Nat.shiftLeft_eq, Nat.shiftLeft_eq, Nat.mul_mod_mul_right, Nat.shiftRight_eq_div_pow,
    Nat.mul_div_cancel _ (Nat.two_pow_pos _)]

/-- At the common scale the dividend takes more than three words and the divisor three, and once
they are moved up an estimate of one digit of the quotient does not fit a word. -/
def HasLongDigit (a b : Decimal) : Prop :=
  let dividend := a.coefficientAt (max a.scale b.scale)
  let divisor := b.coefficientAt (max a.scale b.scale)
  capacity ≤ dividend ∧ twoWordCapacity ≤ divisor ∧
    LongDigit (divisor <<< (95 - divisor.log2)) (dividend <<< (95 - divisor.log2))

variable {a b : Decimal}

theorem HasLongDigit.scale_lt (first : a.WellFormed) (digit : HasLongDigit a b) : a.scale < b.scale := by
  by_contra fewer
  have short := digit.1
  rw [coefficientAt_of_scale_le (not_lt.mp fewer)] at short
  exact absurd first.coefficient_lt short.not_gt

theorem remainderExact_of_short (first : a.WellFormed) (second : b.WellFormed) (short : ¬HasLongDigit a b) :
    RemainderExact a b := by
  rcases le_total b.scale a.scale with fewer | fewer
  · exact remainderExact_of_scale_le first fewer
  have small : b.coefficientAt (max a.scale b.scale) < capacity := by
    rw [max_eq_right fewer, coefficientAt, Nat.sub_self]
    exact (Nat.mul_one b.coefficient).symm ▸ second.coefficient_lt
  simp only [HasLongDigit, not_and] at short
  rw [RemainderExact, remainderOf]
  split
  · rfl
  · next long =>
    rw [not_or, Nat.not_lt, Nat.not_lt] at long
    have positive := (show 0 < twoWordCapacity by decide).trans_le long.2
    exact longRemainder_eq_mod positive small (short long.1 long.2)

end StackCalculator.Decimal

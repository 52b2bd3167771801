import StackCalculator.Decimal.Order
import StackCalculator.Proofs.Nearest
import StackCalculator.Proofs.Readings

/-! Decimals as the rational numbers that they encode. Comparisons and the tests for zero,
for a sign and for an integer see the number and nothing else of the encoding. -/
namespace StackCalculator.Decimal

/-- A sign as a factor. -/
def unit (negative : Bool) : ℚ := if negative then -1 else 1

theorem unit_false : unit false = 1 := rfl

theorem unit_true : unit true = -1 := rfl

theorem unit_not (negative : Bool) : unit (!negative) = -unit negative := by
  cases negative
  · rfl
  · exact (neg_neg 1).symm

theorem unit_bne (first second : Bool) : unit (first != second) = unit first * unit second := by
  cases first <;> cases second <;> norm_num [unit]

theorem unit_bne_eq_div (first second : Bool) : unit (first != second) = unit first / unit second := by
  cases first <;> cases second <;> norm_num [unit]

theorem abs_unit (negative : Bool) : |unit negative| = 1 := by
  cases negative <;> norm_num [unit]

theorem unit_ne_zero (negative : Bool) : unit negative ≠ 0 := by
  rw [← abs_pos, abs_unit]
  exact one_pos

theorem unit_mul_div (first second : Bool) (x y : ℚ) :
    unit first * x / (unit second * y) = unit (first != second) * (x / y) := by
  rw [mul_div_mul_comm, unit_bne_eq_div]

theorem unit_bne_mul (first second : Bool) : unit (first != second) * unit second = unit first := by
  rw [unit_bne_eq_div, div_mul_cancel₀ _ (unit_ne_zero second)]

theorem Rounds.unit {v w : ℚ} (rounds : Rounds v w) (negative : Bool) :
    Rounds (unit negative * v) (unit negative * w) := by
  cases negative with
  | true => simpa only [unit_true, neg_one_mul] using rounds.neg
  | false => simpa only [unit_false, one_mul] using rounds

theorem pow10_cast (n : ℕ) : (pow10 n : ℚ) = 10 ^ n := by
  change ((10 ^ n : ℕ) : ℚ) = 10 ^ n
  rw [Nat.cast_pow, Nat.cast_ofNat]

variable {a b d : Decimal} {n s : ℕ}

theorem value_eq (d : Decimal) : d.value = unit d.negative * (d.coefficient / 10 ^ d.scale) := by
  rw [value, Rat.mkRat_eq_div, pow10_cast, signed, unit]
  split
  · push_cast
    ring
  · push_cast
    ring

theorem value_mk (negative : Bool) (n s : ℕ) :
    value ⟨negative, n, s⟩ = unit negative * (n / 10 ^ s) := value_eq _

theorem value_ofParts (negative : Bool) (n s : ℕ) :
    (ofParts negative n s).value = unit negative * (n / 10 ^ s) := by
  rw [ofParts, value_mk]
  rcases Nat.eq_zero_or_pos n with rfl | positive
  · simp
  · have present : (n != 0) = true := bne_iff_ne.mpr positive.ne'
    rw [present, Bool.and_true]

theorem abs_value (d : Decimal) : |d.value| = d.coefficient / 10 ^ d.scale := by
  rw [value_eq, abs_mul, abs_unit, one_mul, abs_of_nonneg (by positivity)]

theorem value_eq_unit_mul (d : Decimal) : d.value = unit d.negative * |d.value| := by
  rw [abs_value, ← value_eq]

theorem value_div_value (a b : Decimal) :
    a.value / b.value = unit (a.negative != b.negative) * (|a.value| / |b.value|) := by
  rw [abs_value, abs_value, value_eq a, value_eq b, unit_mul_div]

theorem value_nonneg (positive : d.negative = false) : 0 ≤ d.value := by
  rw [value_eq, positive, unit_false, one_mul]
  positivity

theorem value_nonpos (negative : d.negative = true) : d.value ≤ 0 := by
  rw [value_eq_unit_mul, negative, unit_true, neg_one_mul]
  exact neg_nonpos.mpr (abs_nonneg _)

theorem value_ofNat (n : ℕ) : (ofNat n).value = n := by
  rw [ofNat, value_mk, unit_false, pow_zero, div_one, one_mul]

theorem value_zero : zero.value = 0 := by
  rw [zero, value_ofNat, Nat.cast_zero]

theorem value_one : one.value = 1 := by
  rw [one, value_ofNat, Nat.cast_one]

theorem value_two : two.value = 2 := by
  rw [two, value_ofNat, Nat.cast_ofNat]

theorem value_ten : ten.value = 10 := by
  rw [ten, value_ofNat, Nat.cast_ofNat]

theorem value_neg (d : Decimal) : d.neg.value = -d.value := by
  rw [neg, value_mk, unit_not, neg_mul, ← value_eq]

theorem value_abs (d : Decimal) : d.abs.value = |d.value| := by
  rw [abs, value_mk, unit_false, one_mul, abs_value]

theorem isZero_iff : d.isZero = true ↔ d.value = 0 := by
  rw [← abs_eq_zero, abs_value, isZero, beq_iff_eq, div_eq_zero_iff, Nat.cast_eq_zero]
  exact (or_iff_left (by positivity)).symm

theorem value_of_isZero (zero : d.isZero = true) : d.value = 0 := isZero_iff.mp zero

theorem isZero_eq_false (nonzero : d.value ≠ 0) : d.isZero = false := by
  rwa [← Bool.not_eq_true, isZero_iff]

theorem value_ne_zero (nonzero : d.isZero = false) : d.value ≠ 0 := by
  rw [ne_eq, ← isZero_iff, nonzero]
  exact Bool.false_ne_true

/-- Numbers other than zero have the sign of their encoding. -/
theorem negative_iff (nonzero : d.isZero = false) : d.negative = true ↔ d.value < 0 := by
  constructor
  · intro negative
    exact lt_of_le_of_ne (value_nonpos negative) (value_ne_zero nonzero)
  · intro below
    rw [← Bool.not_eq_false]
    intro positive
    exact absurd (value_nonneg positive) (not_le.mpr below)

theorem coefficient_pos (nonzero : d.isZero = false) : 0 < d.coefficient :=
  Nat.pos_of_ne_zero (beq_eq_false_iff_ne.mp nonzero)

/-- The integers that are compared are the values at the product of both scales. -/
theorem signed_mul_pow10 (a b : Decimal) :
    ((a.signed * pow10 b.scale : ℤ) : ℚ) = a.value * (10 ^ a.scale * 10 ^ b.scale) := by
  rw [value, Rat.mkRat_eq_div]
  push_cast
  rw [pow10_cast, pow10_cast, div_mul_eq_mul_div, mul_left_comm, mul_div_cancel_left₀ _ (by positivity)]

theorem same_iff : a.same b = true ↔ a.value = b.value := by
  have scaled : (0 : ℚ) < 10 ^ a.scale * 10 ^ b.scale := by positivity
  rw [same, beq_iff_eq, ← Int.cast_inj (α := ℚ), signed_mul_pow10, signed_mul_pow10,
    mul_comm ((10 : ℚ) ^ b.scale), mul_left_inj' scaled.ne']

theorem lt_iff : a.lt b = true ↔ a.value < b.value := by
  have scaled : (0 : ℚ) < 10 ^ a.scale * 10 ^ b.scale := by positivity
  rw [lt, decide_eq_true_eq, ← Int.cast_lt (R := ℚ), signed_mul_pow10, signed_mul_pow10,
    mul_comm ((10 : ℚ) ^ b.scale), mul_lt_mul_iff_left₀ scaled]

theorem le_iff : a.le b = true ↔ a.value ≤ b.value := by
  have scaled : (0 : ℚ) < 10 ^ a.scale * 10 ^ b.scale := by positivity
  rw [le, decide_eq_true_eq, ← Int.cast_le (R := ℚ), signed_mul_pow10, signed_mul_pow10,
    mul_comm ((10 : ℚ) ^ b.scale), mul_le_mul_iff_left₀ scaled]

/-- Numbers of the format stand for themselves. -/
theorem WellFormed.rounds (wellFormed : d.WellFormed) : Rounds d.value d.value := by
  rw [value_eq]
  refine Rounds.unit (Rounds.exact (n := d.coefficient) (s := d.scale) ?_ wellFormed.scale_le ?_) _
  · exact wellFormed.coefficient_lt
  · exact div_mul_cancel₀ _ (by positivity)

end StackCalculator.Decimal

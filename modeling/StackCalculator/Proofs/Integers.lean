import StackCalculator.Proofs.Values

/-! The integers near a decimal are those near the number it encodes. -/
namespace StackCalculator.Decimal

/-- The digits before the point, with the sign. -/
def truncated (v : ℚ) : ℤ := if 0 ≤ v then ⌊v⌋ else ⌈v⌉

/-- The nearest integer, halfway the one farther from zero. -/
def roundedAway (v : ℚ) : ℤ := if 0 ≤ v then ⌊v + 1 / 2⌋ else ⌈v - 1 / 2⌉

variable {v : ℚ} {a d : Decimal}

theorem truncated_unit (negative : Bool) (nonneg : 0 ≤ v) :
    (truncated (unit negative * v) : ℚ) = unit negative * ⌊v⌋ := by
  cases negative with
  | false => rw [unit_false, one_mul, one_mul, truncated, if_pos nonneg]
  | true =>
    rw [unit_true, neg_one_mul, neg_one_mul, truncated]
    split
    · next above =>
      obtain rfl : v = 0 := le_antisymm (neg_nonneg.mp above) nonneg
      norm_num
    · rw [Int.ceil_neg, Int.cast_neg]

theorem roundedAway_unit (negative : Bool) (nonneg : 0 ≤ v) :
    (roundedAway (unit negative * v) : ℚ) = unit negative * ⌊v + 1 / 2⌋ := by
  cases negative with
  | false => rw [unit_false, one_mul, one_mul, roundedAway, if_pos nonneg]
  | true =>
    rw [unit_true, neg_one_mul, neg_one_mul, roundedAway]
    split
    · next above =>
      obtain rfl : v = 0 := le_antisymm (neg_nonneg.mp above) nonneg
      norm_num
    · rw [← neg_add', Int.ceil_neg, Int.cast_neg]

theorem floor_abs (d : Decimal) : ⌊|d.value|⌋ = d.whole := by
  rw [abs_value, ← pow10_cast, Rat.floor_natCast_div_natCast]
  rfl

theorem value_trunc (d : Decimal) : d.trunc.value = truncated d.value := by
  rw [value_eq_unit_mul d, truncated_unit _ (abs_nonneg _), floor_abs, trunc, value_mk, pow_zero, div_one]
  rfl

theorem toInt_eq_truncated (d : Decimal) : d.toInt = truncated d.value := by
  have cast : (d.toInt : ℚ) = truncated d.value := by
    rw [← value_trunc, trunc, value_mk, pow_zero, div_one, toInt, unit]
    split
    · push_cast
      ring
    · push_cast
      ring
  exact_mod_cast cast

theorem isIntegral_iff : d.isIntegral = true ↔ ∃ i : ℤ, d.value = i := by
  constructor
  · intro integral
    exact ⟨d.toInt, value_eq_toInt integral⟩
  · rintro ⟨i, equal⟩
    exact isIntegral_of_value equal

/-- Between two integers the larger one is one more than the digits before the point. -/
theorem ceil_abs_of_fractional (fractional : d.isIntegral = false) : ⌈|d.value|⌉ = d.whole + 1 := by
  rw [← floor_abs, Int.ceil_eq_floor_add_one_iff_notMem]
  rintro ⟨i, equal⟩
  have whole : d.isIntegral = true := by
    rw [isIntegral_iff, value_eq_unit_mul, ← equal]
    cases d.negative with
    | false => exact ⟨i, one_mul _⟩
    | true => exact ⟨-i, by rw [unit_true, neg_one_mul, Int.cast_neg]⟩
  rw [whole] at fractional
  contradiction

theorem truncated_intCast (i : ℤ) : truncated i = i := by
  unfold truncated
  split
  · exact Int.floor_intCast i
  · exact Int.ceil_intCast i

theorem truncated_of_nonpos (nonpos : v ≤ 0) : truncated v = ⌈v⌉ := by
  unfold truncated
  split
  · next nonneg =>
    obtain rfl : v = 0 := le_antisymm nonpos nonneg
    rfl
  · rfl

theorem truncated_neg (v : ℚ) : truncated (-v) = -truncated v := by
  rcases le_total 0 v with nonneg | nonpos
  · rw [truncated_of_nonpos (neg_nonpos.mpr nonneg), Int.ceil_neg, truncated, if_pos nonneg]
  · rw [truncated_of_nonpos nonpos, truncated, if_pos (neg_nonneg.mpr nonpos), Int.floor_neg]

/-- A quotient of integers is truncated as their division is. -/
theorem truncated_div (m n : ℤ) : truncated (m / n) = m.tdiv n := by
  have naturals : ∀ j k : ℕ, truncated ((j : ℚ) / k) = (j : ℤ).tdiv k := by
    intro j k
    rw [truncated, if_pos (by positivity), Rat.floor_natCast_div_natCast]
    rfl
  obtain ⟨j, rfl | rfl⟩ := m.eq_nat_or_neg
  · obtain ⟨k, rfl | rfl⟩ := n.eq_nat_or_neg
    · exact naturals j k
    · rw [Int.cast_neg, div_neg, truncated_neg, Int.tdiv_neg]
      exact congrArg _ (naturals j k)
  · obtain ⟨k, rfl | rfl⟩ := n.eq_nat_or_neg
    · rw [Int.cast_neg, neg_div, truncated_neg, Int.neg_tdiv]
      exact congrArg _ (naturals j k)
    · rw [Int.cast_neg, Int.cast_neg, neg_div_neg_eq, Int.neg_tdiv, Int.tdiv_neg, neg_neg]
      exact naturals j k

theorem value_floor (d : Decimal) : d.floor.value = ⌊d.value⌋ := by
  cases negative : d.negative with
  | false =>
    have same : d.floor = d.trunc := by simp only [floor, negative, Bool.false_and, Bool.false_eq_true, if_false]
    rw [same, value_trunc, truncated, if_pos (value_nonneg negative)]
  | true =>
    cases integral : d.isIntegral with
    | true =>
      have same : d.floor = d.trunc := by simp [floor, integral]
      obtain ⟨i, equal⟩ := isIntegral_iff.mp integral
      rw [same, value_trunc, equal, truncated_intCast, Int.floor_intCast]
    | false =>
      have lower : d.floor = ⟨true, d.whole + 1, 0⟩ := by simp [floor, negative, integral]
      rw [lower, value_mk, value_eq_unit_mul d, negative, unit_true, neg_one_mul, neg_one_mul, Int.floor_neg,
        ceil_abs_of_fractional integral]
      norm_num

theorem value_ceil (d : Decimal) : d.ceil.value = ⌈d.value⌉ := by
  cases negative : d.negative with
  | true =>
    have same : d.ceil = d.trunc := by simp [ceil, negative]
    rw [same, value_trunc, truncated_of_nonpos (value_nonpos negative)]
  | false =>
    cases integral : d.isIntegral with
    | true =>
      have same : d.ceil = d.trunc := by simp [ceil, integral]
      obtain ⟨i, equal⟩ := isIntegral_iff.mp integral
      rw [same, value_trunc, equal, truncated_intCast, Int.ceil_intCast]
    | false =>
      have upper : d.ceil = ⟨false, d.whole + 1, 0⟩ := by simp [ceil, negative, integral]
      rw [upper, value_mk, value_eq_unit_mul d, negative, unit_false, one_mul, one_mul,
        ceil_abs_of_fractional integral]
      norm_num

theorem halfUp_eq_div {num den : ℕ} (positive : 0 < den) :
    halfUp num den = (2 * num + den) / (2 * den) := by
  have parts : 2 * num + den = 2 * den * (num / den) + (2 * (num % den) + den) := by
    conv_lhs => rw [← Nat.div_add_mod num den]
    ring
  have rest : num % den < den := Nat.mod_lt _ positive
  rw [parts, Nat.mul_add_div (by omega), halfUp]
  split
  · next up =>
    have one : (2 * (num % den) + den) / (2 * den) = 1 := Nat.div_eq_of_lt_le (by omega) (by omega)
    rw [one]
  · next down =>
    have none : (2 * (num % den) + den) / (2 * den) = 0 := Nat.div_eq_of_lt (by omega)
    rw [none, Nat.add_zero]

theorem floor_add_half {n den : ℕ} (positive : 0 < den) :
    ⌊(n / den : ℚ) + 1 / 2⌋ = halfUp n den := by
  have unit : (0 : ℚ) < den := by exact_mod_cast positive
  have fraction : (n / den : ℚ) + 1 / 2 = ((2 * n + den : ℕ) : ℚ) / (2 * den : ℕ) := by
    push_cast
    field_simp
  rw [fraction, Rat.floor_natCast_div_natCast, halfUp_eq_div positive]
  rfl

theorem value_round (d : Decimal) : d.round.value = roundedAway d.value := by
  rw [value_eq_unit_mul d, roundedAway_unit _ (abs_nonneg _), abs_value, ← pow10_cast,
    floor_add_half (pow10_pos _)]
  unfold round
  split
  · next whole =>
    have all : halfUp d.coefficient (pow10 d.scale) = d.coefficient := by
      rcases whole with units | zero
      · rw [units]
        simp [halfUp, pow10, Nat.mod_one]
      · rw [beq_iff_eq.mp zero, halfUp, Nat.zero_mod, Nat.zero_div, if_neg (Nat.not_le.mpr (pow10_pos _))]
    rw [all, value_mk, pow_zero, div_one]
    rfl
  · rw [value_ofParts, pow_zero, div_one]
    rfl

end StackCalculator.Decimal

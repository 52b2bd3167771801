import StackCalculator.Proofs.Alike

/-! Encodings of one number differ by zeros behind the point, and by a sign if the number is
zero. Rounding drops such zeros first, and the shortest encoding has none. A factor with the
most places leaves no choice of encoding for the product, so the logarithms and the functions
of angles, which start with such a factor, find one and the same result. -/
namespace StackCalculator
namespace Decimal

/-- The same number with more zeros behind the point. -/
def pad (d : Decimal) (k : ℕ) : Decimal := ⟨d.negative, d.coefficient * pow10 k, d.scale + k⟩

variable {a b d : Decimal} {n s k : ℕ}

theorem magnitude_pad (n s k : ℕ) : magnitude (n * pow10 k, s + k) = magnitude (n, s) := by
  rw [magnitude, magnitude, Nat.cast_mul, pow10_cast, pow_add, mul_div_mul_right _ _ (by positivity)]

theorem value_pad (d : Decimal) (k : ℕ) : (d.pad k).value = d.value := by
  rw [value_eq d, pad, value_mk]
  exact congrArg _ (magnitude_pad _ _ _)

theorem eq_pad (equal : a.value = b.value) (nonzero : a.isZero = false) (le : a.scale ≤ b.scale) :
    b = a.pad (b.scale - a.scale) := by
  have nonzero' : b.isZero = false := isZero_eq_false (equal ▸ value_ne_zero nonzero)
  have sign : b.negative = a.negative := by
    rw [Bool.eq_iff_iff, negative_iff nonzero, negative_iff nonzero', equal]
  have coefficient : b.coefficient = a.coefficient * pow10 (b.scale - a.scale) := by
    have magnitudes : (a.coefficient / 10 ^ a.scale : ℚ) = b.coefficient / 10 ^ b.scale := by
      rw [← abs_value, ← abs_value, equal]
    rw [← Nat.cast_inj (R := ℚ), Nat.cast_mul, pow10_cast]
    rw [div_eq_div_iff (by positivity) (by positivity), ← Nat.add_sub_cancel' le, pow_add] at magnitudes
    have unit : (10 : ℚ) ^ a.scale ≠ 0 := by positivity
    apply mul_right_cancel₀ unit
    rw [← magnitudes]
    ring
  obtain ⟨negative, m, t⟩ := b
  simp only [pad, Nat.add_sub_cancel' le] at sign coefficient ⊢
  rw [sign, coefficient]

/-- A relation between two encodings of a number, from what padding does. -/
theorem Alike.of_pad {P : Decimal → Decimal → Prop} (alike : Alike a b) (nonzero : a.isZero = false)
    (padded : ∀ d k, d.isZero = false → P d (d.pad k)) (symm : ∀ a b, P a b → P b a) : P a b := by
  rcases le_total a.scale b.scale with le | le
  · exact eq_pad alike.value nonzero le ▸ padded a _ nonzero
  · have nonzero' : b.isZero = false := alike.isZero ▸ nonzero
    exact symm _ _ (eq_pad alike.value.symm nonzero' le ▸ padded b _ nonzero')

theorem lt_pow10_digitCount (n : ℕ) : n < pow10 (digitCount n) := by
  induction n using digitCount.induct with
  | case1 => exact pow10_pos _
  | case2 n nonzero ih =>
    rw [digitCount, if_neg nonzero, pow10_succ]
    omega

theorem pow10_le_of_lt_digitCount (less : k < digitCount n) : pow10 k ≤ n := by
  induction n using digitCount.induct generalizing k with
  | case1 =>
    rw [digitCount, if_pos rfl] at less
    exact absurd less (Nat.not_lt_zero k)
  | case2 n nonzero ih =>
    rw [digitCount, if_neg nonzero] at less
    cases k with
    | zero => exact Nat.pos_of_ne_zero nonzero
    | succ k =>
      have shorter : pow10 k ≤ n / 10 := ih (Nat.lt_of_succ_lt_succ less)
      rw [pow10_succ]
      omega

theorem digitCount_pad (positive : 0 < n) (k : ℕ) : digitCount (n * pow10 k) = digitCount n + k := by
  induction k with
  | zero => exact congrArg digitCount (Nat.mul_one n)
  | succ k ih =>
    have longer : n * pow10 (k + 1) = n * pow10 k * 10 := by rw [pow10_succ]; ring
    have some : 0 < n * pow10 k := Nat.mul_pos positive (pow10_pos k)
    rw [longer, digitCount, if_neg (by omega), Nat.mul_div_cancel _ (by decide), ih, Nat.add_assoc]

theorem halfEven_pad (n drop k : ℕ) :
    halfEven (n * pow10 k) (pow10 (drop + k)) = halfEven n (pow10 drop) := by
  have rounded : (halfEven (n * pow10 k) (pow10 (drop + k)) : ℤ) = halfEven n (pow10 drop) := by
    rw [← nearestInt_div (pow10_pos _), ← nearestInt_div (pow10_pos _), pow10_add, Nat.cast_mul,
      Nat.cast_mul, mul_div_mul_right _ _ (by exact_mod_cast (pow10_pos k).ne')]
  exact_mod_cast rounded

theorem halfEven_mul (n : ℕ) {den : ℕ} (positive : 0 < den) : halfEven (n * den) den = n := by
  rw [halfEven, Nat.mul_mod_left, Nat.mul_div_cancel _ positive, if_neg (by omega)]

theorem value_roundTo_pad (nonzero : d.isZero = false) (precision k : ℕ) :
    (roundTo precision d).value = (roundTo precision (d.pad k)).value := by
  have positive : 0 < d.coefficient := coefficient_pos nonzero
  simp only [roundTo, pad, digitCount_pad positive]
  generalize max 1 (min precision maxPrecision) = digits
  generalize digitCount d.coefficient = count
  rcases Nat.lt_or_ge digits count with long | short
  · obtain ⟨drop, rfl⟩ := Nat.exists_eq_add_of_le long.le
    rw [show digits + drop + k - digits = drop + k by omega, Nat.add_sub_cancel_left, halfEven_pad,
      show d.scale + k - (drop + k) = d.scale - drop by omega,
      show drop + k - (d.scale + k) = drop - d.scale by omega, if_neg (show ¬drop = 0 by omega),
      if_neg (show ¬drop + k = 0 by omega)]
    by_cases places : drop ≤ d.scale
    · rw [if_pos places, if_pos (Nat.add_le_add_right places k)]
    · rw [if_neg places, if_neg (mt Nat.le_of_add_le_add_right places)]
      split
      · rfl
      · exact (value_pad d k).symm
  · -- Only zeros are dropped, and those from the longer encoding.
    rw [if_pos (Nat.sub_eq_zero_of_le short)]
    by_cases kept : count + k - digits = 0
    · rw [if_pos kept]
      exact (value_pad d k).symm
    · obtain ⟨left, total⟩ := Nat.exists_eq_add_of_le' (show count + k - digits ≤ k by omega)
      generalize count + k - digits = drop at *
      have shorter : d.coefficient * pow10 k = d.coefficient * pow10 left * pow10 drop := by
        rw [total, pow10_add, Nat.mul_assoc]
      rw [if_neg kept, if_pos (by omega), shorter, halfEven_mul _ (pow10_pos drop),
        show d.scale + k - drop = d.scale + left by omega]
      exact (value_pad d left).symm

/-- A zero is left as it is. -/
theorem roundTo_of_isZero (precision : ℕ) (zero : d.isZero = true) : roundTo precision d = d := by
  have digits : digitCount d.coefficient = 0 := by
    rw [beq_iff_eq.mp zero, digitCount, if_pos rfl]
  simp only [roundTo, digits, Nat.zero_sub, if_true]

theorem Alike.roundTo (alike : Alike a b) (precision : ℕ) :
    Alike (roundTo precision a) (roundTo precision b) := by
  refine ⟨alike.left.roundTo precision, alike.right.roundTo precision, ?_⟩
  cases zero : a.isZero with
  | true =>
    rw [roundTo_of_isZero precision zero, roundTo_of_isZero precision (alike.isZero ▸ zero), alike.value]
  | false =>
    exact alike.of_pad (P := fun a b => (Decimal.roundTo precision a).value =
      (Decimal.roundTo precision b).value) zero (fun d k nonzero => value_roundTo_pad nonzero precision k)
      fun _ _ => Eq.symm

theorem magnitude_stripZeros (n s : ℕ) : magnitude (stripZeros n s) = magnitude (n, s) := by
  induction s generalizing n with
  | zero => rfl
  | succ s ih =>
    unfold stripZeros
    split
    · next zero =>
      obtain ⟨m, rfl⟩ := Nat.dvd_of_mod_eq_zero zero
      rw [Nat.mul_div_cancel_left _ (by decide), ih, Nat.mul_comm]
      exact (magnitude_pad m s 1).symm
    · rfl

theorem value_normalize (d : Decimal) : d.normalize.value = d.value := by
  simp only [normalize]
  split
  · next zero => rw [value_zero, value_of_isZero zero]
  · rw [value_mk, value_eq d]
    exact congrArg _ (magnitude_stripZeros _ _)

theorem Alike.normalize (alike : Alike a b) : Alike a.normalize b.normalize :=
  ⟨alike.left.normalize, alike.right.normalize, by rw [value_normalize, value_normalize, alike.value]⟩

theorem stripZeros_pad (n s k : ℕ) : stripZeros (n * pow10 k) (s + k) = stripZeros n s := by
  induction k with
  | zero => exact congrArg (stripZeros · s) (Nat.mul_one n)
  | succ k ih =>
    have longer : n * pow10 (k + 1) = n * pow10 k * 10 := by rw [pow10_succ]; ring
    rw [longer, ← Nat.add_assoc, stripZeros, if_pos (Nat.mul_mod_left _ _), Nat.mul_div_cancel _ (by decide), ih]

theorem Alike.normalize_eq (alike : Alike a b) : a.normalize = b.normalize := by
  cases zero : a.isZero with
  | true => rw [Decimal.normalize, if_pos zero, Decimal.normalize, if_pos (alike.isZero ▸ zero)]
  | false =>
    refine alike.of_pad (P := fun a b => a.normalize = b.normalize) zero ?_ fun _ _ => Eq.symm
    intro d k nonzero
    have nonzero' : (d.pad k).isZero = false := isZero_eq_false (value_pad d k ▸ value_ne_zero nonzero)
    rw [Decimal.normalize, nonzero, Decimal.normalize, nonzero']
    simp only [pad, stripZeros_pad]

/-- With all places taken the parts are told by the number. -/
theorem fit?_pad (le : maxScale ≤ s) (n k : ℕ) : fit? (n * pow10 k) (s + k) = fit? n s := by
  have whole : n * pow10 k / pow10 (s + k - maxScale) = n / pow10 (s - maxScale) := by
    rw [show s + k - maxScale = s - maxScale + k by omega, pow10_add,
      Nat.mul_div_mul_right _ _ (pow10_pos k)]
  simp only [fit?, whole]
  generalize excessDigits (n / pow10 (s - maxScale)) = excess
  rw [show s + k - maxScale + excess = s - maxScale + excess + k by omega, halfEven_pad,
    show s + k - (s - maxScale + excess + k) = s - (s - maxScale + excess) by omega]
  simp only [Nat.add_lt_add_iff_right]

theorem Alike.mul?_eq (alike : Alike a b) {c : Decimal} (long : c.scale = maxScale)
    (wide : wordCapacity ≤ c.coefficient) : a.mul? c = b.mul? c := by
  cases zero : a.isZero with
  | true =>
    rw [Decimal.mul?, zero, Bool.true_or, if_pos rfl, Decimal.mul?, ← alike.isZero, zero, Bool.true_or, if_pos rfl]
  | false =>
    refine alike.of_pad (P := fun a b => a.mul? c = b.mul? c) zero ?_ fun _ _ => Eq.symm
    intro d k nonzero
    have nonzero' : (d.pad k).isZero = false := isZero_eq_false (value_pad d k ▸ value_ne_zero nonzero)
    have general : ∀ d : Decimal, ¬(d.coefficient < wordCapacity ∧ c.coefficient < wordCapacity) :=
      fun d words => absurd words.2 (Nat.not_lt.mpr wide)
    simp only [Decimal.mul?, nonzero, nonzero', if_neg (general _)]
    rw [pad, Nat.mul_right_comm, Nat.add_right_comm, fit?_pad (by omega)]

end Decimal
end StackCalculator

import StackCalculator.Proofs.Values

/-! What sums, products and quotients stand for. Each is the number of the format for the
exact result, or is missing where that result is too large; how the operands are encoded
and which way the computation takes is not seen in its value. -/
namespace StackCalculator.Decimal

/-- The result stands for `v`, and is missing only where `v` is too large. -/
def Computes (v : ℚ) : Option ℚ → Prop
  | none => Overflows v
  | some w => Rounds v w

/-- The number of a coefficient and a scale. -/
def magnitude (parts : ℕ × ℕ) : ℚ := parts.1 / 10 ^ parts.2

namespace Computes
variable {v : ℚ} {first second : Option ℚ}

theorem unique (computed : Computes v first) (again : Computes v second) : first = second := by
  cases first with
  | none =>
    cases second with
    | none => rfl
    | some w => exact absurd computed (Rounds.not_overflows again)
  | some w =>
    cases second with
    | none => exact absurd again (Rounds.not_overflows computed)
    | some w' => exact congrArg some (Rounds.unique computed again)

end Computes

variable {v : ℚ} {n s t : ℕ}

theorem fitsAt_div {num den : ℕ} (positive : 0 < den) (equal : v * 10 ^ t = num / den) :
    FitsAt v t ↔ halfEven num den < capacity := by
  rw [FitsAt, equal, nearestInt_div positive, Int.natAbs_natCast]

theorem not_fitsAt_of_le (large : (capacity : ℚ) ≤ v * 10 ^ t) : ¬FitsAt v t := by
  have least : ((capacity : ℤ) : ℚ) ≤ v * 10 ^ t := large
  have above : (capacity : ℤ) ≤ nearestInt (v * 10 ^ t) :=
    nearestInt_intCast (capacity : ℤ) ▸ nearestInt_mono least
  unfold FitsAt
  omega

theorem overflows_of_le (large : (capacity : ℚ) ≤ v) : Overflows v :=
  not_fitsAt_of_le (by rwa [pow_zero, mul_one])

theorem rounds_of_exact (equal : v * 10 ^ s = n) (small : n < capacity) (le : s ≤ maxScale) :
    Rounds v (magnitude (n, s)) := by
  have itself : v = magnitude (n, s) := by
    rw [magnitude, eq_div_iff (by positivity), equal]
  exact itself ▸ Rounds.exact (n := n) small le equal

theorem rounds_of_nearest {rounded : ℕ} (nearest : nearestInt (v * 10 ^ t) = rounded)
    (small : rounded < capacity) (le : t ≤ maxScale) (most : t = maxScale ∨ ¬FitsAt v (t + 1)) :
    Rounds v (magnitude (rounded, t)) := by
  refine ⟨t, le, ?_, most, ?_⟩
  · rwa [FitsAt, nearest, Int.natAbs_natCast]
  · rw [nearest, magnitude, div_mul_cancel₀ _ (by positivity)]
    rfl

/-- Where a coefficient is rounded up to the capacity one place less is enough, and at that
place the number is on the same side of a half as the capacity. -/
theorem rounds_of_carry {rounded : ℕ} (nearest : nearestInt (v * 10 ^ (t + 1)) = rounded)
    (below : v * 10 ^ (t + 1) < capacity) (full : ¬rounded < capacity) (le : t ≤ maxScale) :
    Rounds v (magnitude (halfEven rounded 10, t)) := by
  have large : ¬FitsAt v (t + 1) := by rwa [FitsAt, nearest, Int.natAbs_natCast]
  have bounds := abs_le.mp (nearest ▸ nearestEven_nearestInt (v * 10 ^ (t + 1))).near
  have equal : rounded = capacity := by
    have least : (capacity : ℚ) ≤ rounded := by exact_mod_cast Nat.le_of_not_lt full
    have most : (rounded : ℚ) < capacity + 1 := by
      push_cast at bounds
      linarith [bounds.1]
    have most : rounded < capacity + 1 := by exact_mod_cast most
    omega
  subst equal
  have carried : NearestEven (v * 10 ^ t) 7922816251426433759354395034 := by
    have shifted : v * 10 ^ (t + 1) = 10 * (v * 10 ^ t) := by ring
    rw [shifted, capacity_cast] at below
    rw [shifted, Int.cast_natCast, capacity_cast] at bounds
    have near : |v * 10 ^ t - ((7922816251426433759354395034 : ℤ) : ℚ)| < 1 / 2 := by
      rw [abs_lt]
      constructor
      · norm_num
        linarith [bounds.1]
      · norm_num
        linarith
    exact ⟨near.le, fun tie => absurd tie near.ne⟩
  exact rounds_of_nearest carried.eq (by decide) le (.inr large)

/-- Before the excess is dropped the coefficient is too large. -/
theorem le_div_of_lt_excessDigits {k : ℕ} (less : k < excessDigits n) : capacity ≤ n / pow10 k := by
  induction n using excessDigits.induct generalizing k with
  | case1 n small =>
    rw [excessDigits, if_pos small] at less
    exact absurd less (Nat.not_lt_zero k)
  | case2 n large ih =>
    rw [excessDigits, if_neg large] at less
    cases k with
    | zero =>
      change capacity ≤ n / 1
      rw [Nat.div_one]
      exact Nat.le_of_not_lt large
    | succ k =>
      rw [pow10_succ, ← Nat.div_div_eq_div_mul]
      exact ih (Nat.lt_of_succ_lt_succ less)

theorem mul_pow_eq_div (n : ℕ) (le : t ≤ s) : (n / 10 ^ s * 10 ^ t : ℚ) = n / pow10 (s - t) := by
  rw [pow10_cast, div_mul_eq_mul_div, div_eq_div_iff (by positivity) (by positivity), mul_assoc, ← pow_add,
    Nat.add_sub_cancel' le]

theorem fit?_computes (n s : ℕ) : Computes (n / 10 ^ s) ((fit? n s).map magnitude) := by
  have below : n / pow10 ((s - maxScale) + excessDigits (n / pow10 (s - maxScale))) < capacity := by
    rw [pow10_add, ← Nat.div_div_eq_div_mul]
    exact div_excessDigits_lt _
  have above : ∀ j < excessDigits (n / pow10 (s - maxScale)),
      capacity ≤ n / pow10 ((s - maxScale) + j) := by
    intro j less
    rw [pow10_add, ← Nat.div_div_eq_div_mul]
    exact le_div_of_lt_excessDigits less
  unfold fit?
  generalize excessDigits (n / pow10 (s - maxScale)) = k at below above
  by_cases short : s < (s - maxScale) + k
  · rw [if_pos short]
    apply overflows_of_le
    have large : capacity ≤ n / pow10 s := by
      have found := above (s - (s - maxScale)) (by omega)
      rwa [Nat.add_sub_cancel' (Nat.sub_le s maxScale)] at found
    rw [le_div_iff₀ (by positivity), ← pow10_cast]
    exact_mod_cast (Nat.le_div_iff_mul_le (pow10_pos s)).mp large
  rw [if_neg short]
  obtain ⟨t, total⟩ := Nat.exists_eq_add_of_le' (Nat.le_of_not_lt short)
  generalize dropped : (s - maxScale) + k = drop at *
  have place : (n / 10 ^ s * 10 ^ t : ℚ) = n / pow10 drop := by
    rw [mul_pow_eq_div n (by omega), total, Nat.add_sub_cancel_left]
  have nearest : nearestInt (n / 10 ^ s * 10 ^ t) = halfEven n (pow10 drop) := by
    rw [place, nearestInt_div (pow10_pos drop)]
  have places : s - drop = t := by omega
  have most : drop = 0 ∨ t = maxScale ∨ ¬FitsAt (n / 10 ^ s) (t + 1) := by
    rcases Nat.eq_zero_or_pos k with rfl | dropping
    · omega
    · have large : capacity ≤ n / pow10 (drop - 1) := by
        have found := above (k - 1) (by omega)
        rwa [← Nat.add_sub_assoc dropping, dropped] at found
      refine .inr (.inr (not_fitsAt_of_le ?_))
      rw [mul_pow_eq_div n (by omega), show s - (t + 1) = drop - 1 by omega]
      exact Nat.cast_div_le.trans' (by exact_mod_cast large)
  simp only [places]
  split
  · next small =>
    rcases most with rfl | most
    · have all : halfEven n (pow10 0) = n := by simp [halfEven, pow10, Nat.mod_one]
      obtain rfl : t = s := by omega
      rw [all] at small ⊢
      exact rounds_of_exact (div_mul_cancel₀ _ (by positivity)) small (by omega)
    · exact rounds_of_nearest nearest small (by omega) most
  · next full =>
    have below : (n / 10 ^ s * 10 ^ t : ℚ) < capacity := by
      rw [place, div_lt_iff₀ (by exact_mod_cast pow10_pos drop)]
      exact_mod_cast (Nat.div_lt_iff_lt_mul (pow10_pos drop)).mp below
    cases t with
    | zero => exact fun fits => full ((fitsAt_div (pow10_pos drop) place).mp fits)
    | succ t => exact rounds_of_carry nearest below full (by omega)

theorem overflows_unit (negative : Bool) : Overflows (unit negative * v) ↔ Overflows v := by
  cases negative with
  | false => rw [unit_false, one_mul]
  | true =>
    rw [unit_true, neg_one_mul, Overflows, Overflows, FitsAt, neg_mul, nearestInt_neg, Int.natAbs_neg,
      FitsAt]

/-- A result in parts with its sign. -/
theorem Computes.signed {parts : Option (ℕ × ℕ)} {f : ℕ × ℕ → Decimal} {negative : Bool}
    (computed : Computes v (parts.map magnitude))
    (valued : ∀ p, (f p).value = unit negative * magnitude p) :
    Computes (unit negative * v) ((parts.map f).map value) := by
  cases parts with
  | none => exact (overflows_unit negative).mpr computed
  | some p =>
    change Rounds _ (f p).value
    rw [valued]
    exact Rounds.unit computed negative

variable {a b : Decimal}

theorem Computes.of_rounds {w : ℚ} (rounds : Rounds v w) (equal : a.value = w) :
    Computes v ((some a).map value) := by
  subst equal
  exact rounds

theorem Computes.of_wellFormed (wellFormed : a.WellFormed) (equal : a.value = v) :
    Computes v ((some a).map value) := equal ▸ wellFormed.rounds

theorem add?_computes (first : a.WellFormed) (second : b.WellFormed) :
    Computes (a.value + b.value) ((a.add? b).map value) := by
  simp only [add?]
  split
  · next zero => exact .of_wellFormed second (by rw [value_of_isZero zero, zero_add])
  split
  · next zero => exact .of_wellFormed first (by rw [value_of_isZero zero, add_zero])
  generalize large : max a.scale b.scale = scale
  generalize total : a.signed * pow10 (scale - a.scale) + b.signed * pow10 (scale - b.scale) = sum
  have raised : ∀ d : Decimal, d.scale ≤ scale →
      d.value = ((d.signed * pow10 (scale - d.scale) : ℤ) : ℚ) / 10 ^ scale := by
    intro d le
    rw [value, Rat.mkRat_eq_div, pow10_cast]
    push_cast
    rw [pow10_cast, div_eq_div_iff (by positivity) (by positivity), mul_assoc, ← pow_add,
      Nat.sub_add_cancel le]
  have exact : a.value + b.value = unit (decide (sum < 0)) * (sum.natAbs / 10 ^ scale) := by
    rw [raised a (by omega), raised b (by omega), ← add_div, ← Int.cast_add, total, ← mul_div_assoc]
    congr 1
    rw [unit, Nat.cast_natAbs, Int.cast_abs]
    simp only [decide_eq_true_eq]
    split
    · next negative => rw [abs_of_neg (by exact_mod_cast negative)]; ring
    · next nonneg => rw [abs_of_nonneg (by exact_mod_cast not_lt.mp nonneg), one_mul]
  rw [exact]
  exact (fit?_computes _ _).signed fun parts => value_ofParts _ _ _

theorem sub?_computes (first : a.WellFormed) (second : b.WellFormed) :
    Computes (a.value - b.value) ((a.sub? b).map value) := by
  unfold sub?
  split
  · next zero =>
    have equal : a.value - b.value = a.value + b.value := by
      rw [value_of_isZero zero, sub_zero, add_zero]
    rw [equal]
    exact add?_computes first second
  · rw [sub_eq_add_neg, ← value_neg]
    exact add?_computes first second.neg

/-- A product of two words, with the places that the format has for it. -/
theorem wordProduct_rounds {product : ℕ} (small : product < twoWordCapacity) (scale : ℕ) :
    (vanishingScale < scale → Rounds (product / 10 ^ scale) 0) ∧
    (maxScale < scale → Rounds (product / 10 ^ scale)
      (magnitude (halfEven product (pow10 (scale - maxScale)), maxScale))) ∧
    (scale ≤ maxScale → Rounds (product / 10 ^ scale) (magnitude (product, scale))) := by
  have fits : product < capacity := small.trans (by decide)
  have last : maxScale < scale → Rounds (product / 10 ^ scale)
      (magnitude (halfEven product (pow10 (scale - maxScale)), maxScale)) := by
    intro long
    have nearest : nearestInt (product / 10 ^ scale * 10 ^ maxScale) =
        halfEven product (pow10 (scale - maxScale)) := by
      rw [mul_pow_eq_div product long.le, nearestInt_div (pow10_pos _)]
    exact rounds_of_nearest nearest ((halfEven_le (pow10_pos _)).trans_lt fits) le_rfl (.inl rfl)
  refine ⟨?_, last, ?_⟩
  · intro vanishing
    have long : maxScale < scale := lt_trans (by decide) vanishing
    -- A half of the last place is more than two words can hold.
    have below : 2 * product < pow10 (scale - maxScale) := by
      have power : pow10 20 ≤ pow10 (scale - maxScale) := by
        refine Nat.pow_le_pow_right (by decide) ?_
        have : vanishingScale = 47 := rfl
        have : maxScale = 28 := rfl
        omega
      have bound : 2 * twoWordCapacity < pow10 20 := by decide
      omega
    have nothing : halfEven product (pow10 (scale - maxScale)) = 0 := by
      rw [halfEven, Nat.div_eq_of_lt (by omega), Nat.mod_eq_of_lt (by omega), if_neg (by omega)]
    have rounds := last long
    rwa [nothing, magnitude, Nat.cast_zero, zero_div] at rounds
  · intro short
    exact rounds_of_exact (div_mul_cancel₀ _ (by positivity)) fits short

theorem mul?_computes (a b : Decimal) : Computes (a.value * b.value) ((a.mul? b).map value) := by
  simp only [mul?]
  split
  · next zero =>
    have vanishes : a.value * b.value = 0 := by
      rcases (Bool.or_eq_true _ _).mp zero with left | right
      · rw [value_of_isZero left, zero_mul]
      · rw [value_of_isZero right, mul_zero]
    exact .of_wellFormed wellFormed_zero (value_zero.trans vanishes.symm)
  have exact : a.value * b.value = unit (a.negative != b.negative) *
      ((a.coefficient * b.coefficient : ℕ) / 10 ^ (a.scale + b.scale)) := by
    rw [value_eq, value_eq, unit_bne, pow_add, Nat.cast_mul]
    ring
  rw [exact]
  split
  · next words =>
    have small : a.coefficient * b.coefficient < twoWordCapacity :=
      Nat.mul_lt_mul'' words.1 words.2
    obtain ⟨vanishing, long, short⟩ := wordProduct_rounds small (a.scale + b.scale)
    split
    · next above =>
      exact .of_rounds ((vanishing above).unit _) (value_zero.trans (mul_zero _).symm)
    split
    · next above => exact .of_rounds ((long above).unit _) (value_ofParts _ _ _)
    · next below => exact .of_rounds ((short (not_lt.mp below)).unit _) (value_ofParts _ _ _)
  · exact (fit?_computes _ _).signed fun parts => value_mk _ _ _

end StackCalculator.Decimal

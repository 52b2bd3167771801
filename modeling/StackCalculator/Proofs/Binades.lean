import StackCalculator.Binary.Single
import StackCalculator.Proofs.Format
import StackCalculator.Proofs.Nearest

/-! Every number of the format has a single-precision pattern. Rounding to a number of bits
does not leave the powers of two around a number, so each operation in double precision
gives what it should up to a factor of two, and one stays one. That is enough for the whole
way of a decimal through double precision: what arrives is below the largest finite pattern
by far. On the way back a pattern that has a decimal has one of the format. -/
namespace StackCalculator

namespace Binary
open Decimal (NearestEven nearestEven_halfEven halfUp)
variable {a b : Binary} {bits num den : ℕ} {e : ℤ}

def value (b : Binary) : ℚ := b.significand * (2 : ℚ) ^ b.exponent

theorem den_pos (b : Binary) : 0 < b.den := by
  rw [den, Nat.shiftLeft_eq, one_mul]
  exact Nat.two_pow_pos _

/-- Either the numerator or the denominator is moved, by the places of the exponent. -/
theorem shifted_quotient (num den : ℕ) (e : ℤ) :
    ((num <<< (-e).toNat : ℕ) : ℚ) / (den <<< e.toNat : ℕ) = num / den / 2 ^ e := by
  have places : (e : ℤ) = (e.toNat : ℤ) - ((-e).toNat : ℤ) := by omega
  have moved : (2 : ℚ) ^ e = 2 ^ e.toNat / 2 ^ (-e).toNat := by
    conv_lhs => rw [places]
    rw [zpow_sub₀ two_ne_zero, zpow_natCast, zpow_natCast]
  rw [Nat.shiftLeft_eq, Nat.shiftLeft_eq, moved]
  push_cast
  have power : (2 : ℚ) ^ (-e).toNat ≠ 0 := by positivity
  have other : (2 : ℚ) ^ e.toNat ≠ 0 := by positivity
  field_simp

theorem value_eq (b : Binary) : b.value = b.num / b.den := by
  have moved := shifted_quotient b.significand 1 (-b.exponent)
  rw [neg_neg] at moved
  rw [num, den, moved, value, Nat.cast_one, div_one, zpow_neg, div_inv_eq_mul]

theorem num_pos (positive : 0 < b.value) : 0 < b.num := by
  apply Nat.pos_of_ne_zero
  intro zero
  rw [value_eq, zero, Nat.cast_zero, zero_div] at positive
  exact positive.false

theorem shifted_le_iff (positive : 0 < den) (e : ℤ) :
    den <<< e.toNat ≤ num <<< (-e).toNat ↔ (2 : ℚ) ^ e ≤ num / den := by
  have moved : (0 : ℚ) < (den <<< e.toNat : ℕ) := by
    rw [Nat.shiftLeft_eq]
    exact_mod_cast Nat.mul_pos positive (Nat.two_pow_pos _)
  have power : (0 : ℚ) < 2 ^ e := by positivity
  rw [← Nat.cast_le (α := ℚ), ← one_le_div moved, shifted_quotient, one_le_div power]

theorem log2_spec {n : ℕ} (positive : 0 < n) :
    (2 : ℚ) ^ (n.log2 : ℤ) ≤ n ∧ (n : ℚ) < 2 ^ ((n.log2 : ℤ) + 1) := by
  constructor
  · exact_mod_cast Nat.log2_self_le positive.ne'
  · exact_mod_cast Nat.lt_log2_self

/-- The estimate is one too large at most, and the comparison tells whether it is. -/
theorem log2Quotient_spec (first : 0 < num) (second : 0 < den) :
    (2 : ℚ) ^ log2Quotient num den ≤ num / den ∧
      (num / den : ℚ) < 2 ^ (log2Quotient num den + 1) := by
  have unit : (0 : ℚ) < den := by exact_mod_cast second
  obtain ⟨numLeast, numMost⟩ := log2_spec first
  obtain ⟨denLeast, denMost⟩ := log2_spec second
  have above : (num / den : ℚ) < 2 ^ ((num.log2 : ℤ) - den.log2 + 1) := by
    rw [div_lt_iff₀ unit]
    calc (num : ℚ)
      _ < 2 ^ ((num.log2 : ℤ) + 1) := numMost
      _ = 2 ^ ((num.log2 : ℤ) - den.log2 + 1) * 2 ^ (den.log2 : ℤ) := by
        rw [← zpow_add₀ two_ne_zero]
        congr 1
        omega
      _ ≤ 2 ^ ((num.log2 : ℤ) - den.log2 + 1) * den := by gcongr
  have below : (2 : ℚ) ^ ((num.log2 : ℤ) - den.log2 - 1) ≤ num / den := by
    rw [le_div_iff₀ unit]
    calc (2 : ℚ) ^ ((num.log2 : ℤ) - den.log2 - 1) * den
      _ ≤ 2 ^ ((num.log2 : ℤ) - den.log2 - 1) * 2 ^ ((den.log2 : ℤ) + 1) := by gcongr
      _ = 2 ^ (num.log2 : ℤ) := by
        rw [← zpow_add₀ two_ne_zero]
        congr 1
        omega
      _ ≤ num := numLeast
  simp only [log2Quotient]
  split
  · next reached => exact ⟨(shifted_le_iff second _).mp reached, above⟩
  · next short =>
    rw [shifted_le_iff second, not_le] at short
    rw [sub_add_cancel]
    exact ⟨below, short⟩

theorem log2Quotient_lt {bound : ℤ} (first : 0 < num) (second : 0 < den)
    (small : (num / den : ℚ) < 2 ^ bound) : log2Quotient num den < bound := by
  have least := (log2Quotient_spec first second).1
  exact (zpow_lt_zpow_iff_right₀ one_lt_two).mp (least.trans_lt small)

theorem unitsOf_nearest (positive : 0 < den) (e : ℤ) :
    NearestEven (num / den / 2 ^ e : ℚ) (unitsOf num den e) := by
  have moved : 0 < den <<< e.toNat := by
    rw [Nat.shiftLeft_eq]
    exact Nat.mul_pos positive (Nat.two_pow_pos _)
  rw [← shifted_quotient]
  exact nearestEven_halfEven moved

theorem unitsOf_le {n : ℕ} (positive : 0 < den) (small : (num / den : ℚ) ≤ n * 2 ^ e) :
    unitsOf num den e ≤ n := by
  have power : (0 : ℚ) < 2 ^ e := by positivity
  have ordered := NearestEven.mono ((div_le_iff₀ power).mpr small) (unitsOf_nearest positive e)
    (.intCast n)
  exact_mod_cast ordered

theorem le_unitsOf {n : ℕ} (positive : 0 < den) (large : (n * 2 ^ e : ℚ) ≤ num / den) :
    n ≤ unitsOf num den e := by
  have power : (0 : ℚ) < 2 ^ e := by positivity
  have ordered := NearestEven.mono ((le_div_iff₀ power).mpr large) (.intCast n)
    (unitsOf_nearest positive e)
  exact_mod_cast ordered

/-- A number just below a power of two is rounded to that power at most. -/
theorem unitsOf_le_pow (first : 0 < num) (second : 0 < den)
    (below : log2Quotient num den + 1 ≤ bits + e) : unitsOf num den e ≤ 2 ^ bits := by
  apply unitsOf_le second
  calc (num / den : ℚ)
    _ ≤ 2 ^ (log2Quotient num den + 1) := (log2Quotient_spec first second).2.le
    _ ≤ 2 ^ (bits + e) := zpow_le_zpow_right₀ one_le_two below
    _ = (2 ^ bits : ℕ) * 2 ^ e := by
      rw [zpow_add₀ two_ne_zero, zpow_natCast, Nat.cast_pow, Nat.cast_ofNat]

theorem pow_le_unitsOf (first : 0 < num) (second : 0 < den)
    (above : bits + e ≤ log2Quotient num den) : 2 ^ bits ≤ unitsOf num den e := by
  apply le_unitsOf second
  calc ((2 ^ bits : ℕ) * 2 ^ e : ℚ)
    _ = 2 ^ (bits + e) := by
      rw [zpow_add₀ two_ne_zero, zpow_natCast, Nat.cast_pow, Nat.cast_ofNat]
    _ ≤ 2 ^ log2Quotient num den := zpow_le_zpow_right₀ one_le_two above
    _ ≤ num / den := (log2Quotient_spec first second).1

/-- Both ends of the interval between two powers of two are numbers of few bits, so rounding
does not pass them. -/
theorem roundQuotient_binade (bit : 1 ≤ bits) (first : 0 < num) (second : 0 < den) :
    (2 : ℚ) ^ log2Quotient num den ≤ (roundQuotient bits num den).value ∧
      (roundQuotient bits num den).value ≤ 2 ^ (log2Quotient num den + 1) := by
  simp only [roundQuotient, Binary.value]
  generalize places : log2Quotient num den - bits + 1 = e
  have least : 2 ^ (bits - 1) ≤ unitsOf num den e := pow_le_unitsOf first second (by omega)
  have most : unitsOf num den e ≤ 2 ^ bits := unitsOf_le_pow first second (by omega)
  have low : log2Quotient num den = (bits - 1 : ℕ) + e := by omega
  have high : log2Quotient num den + 1 = bits + e := by omega
  constructor
  · rw [low, zpow_add₀ two_ne_zero, zpow_natCast]
    gcongr
    exact_mod_cast least
  · rw [high, zpow_add₀ two_ne_zero, zpow_natCast]
    gcongr
    exact_mod_cast most

/-- What rounding keeps of a non-negative number. -/
structure Approximates (v : ℚ) (b : Binary) : Prop where
  le_twice : v ≤ 2 * b.value
  twice_ge : b.value ≤ 2 * v
  one_le : 1 ≤ v → 1 ≤ b.value

theorem roundQuotient_approximates (bit : 1 ≤ bits) (positive : 0 < den) :
    Approximates (num / den) (roundQuotient bits num den) := by
  rcases Nat.eq_zero_or_pos num with rfl | present
  · have zero : (roundQuotient bits 0 den).value = 0 := by
      have units : unitsOf 0 den (log2Quotient 0 den - bits + 1) ≤ 0 :=
        unitsOf_le positive (by simp)
      simp only [roundQuotient, value, Nat.le_zero.mp units, Nat.cast_zero, zero_mul]
    rw [Nat.cast_zero, zero_div]
    constructor
    · rw [zero, mul_zero]
    · rw [zero, mul_zero]
    · intro one
      linarith
  · obtain ⟨least, most⟩ := log2Quotient_spec present positive
    obtain ⟨low, high⟩ := roundQuotient_binade bit present positive
    rw [zpow_add_one₀ two_ne_zero] at most high
    constructor
    · linarith
    · linarith
    · intro one
      have places : 0 < log2Quotient num den + 1 := by
        rw [← zpow_lt_zpow_iff_right₀ (one_lt_two (α := ℚ)), zpow_zero,
          zpow_add_one₀ two_ne_zero]
        exact one.trans_lt most
      exact (one_le_zpow₀ one_le_two (Int.lt_add_one_iff.mp places)).trans low

theorem Approximates.pos {v : ℚ} (approximates : Approximates v b) (positive : 0 < v) :
    0 < b.value := by
  linarith [approximates.le_twice]

theorem ofNat_approximates (n : ℕ) : Approximates n (ofNat n) := by
  have rounded : Approximates ((n : ℕ) / (1 : ℕ)) (roundQuotient doubleBits n 1) :=
    roundQuotient_approximates (by decide) one_pos
  rwa [Nat.cast_one, div_one] at rounded

theorem add_approximates (a b : Binary) : Approximates (a.value + b.value) (a.add b) := by
  have first : (a.den : ℚ) ≠ 0 := by exact_mod_cast a.den_pos.ne'
  have second : (b.den : ℚ) ≠ 0 := by exact_mod_cast b.den_pos.ne'
  have sum : a.value + b.value =
      ((a.num * b.den + b.num * a.den : ℕ) : ℚ) / (a.den * b.den : ℕ) := by
    rw [value_eq, value_eq]
    push_cast
    field_simp
  rw [sum]
  exact roundQuotient_approximates (by decide) (Nat.mul_pos a.den_pos b.den_pos)

theorem mul_approximates (a b : Binary) : Approximates (a.value * b.value) (a.mul b) := by
  have product : a.value * b.value = ((a.num * b.num : ℕ) : ℚ) / (a.den * b.den : ℕ) := by
    rw [value_eq, value_eq, div_mul_div_comm]
    push_cast
    rfl
  rw [product]
  exact roundQuotient_approximates (by decide) (Nat.mul_pos a.den_pos b.den_pos)

theorem div_approximates (a : Binary) (positive : 0 < b.value) :
    Approximates (a.value / b.value) (a.div b) := by
  have quotient : a.value / b.value = ((a.num * b.den : ℕ) : ℚ) / (a.den * b.num : ℕ) := by
    rw [value_eq, value_eq, div_div_div_eq]
    push_cast
    rfl
  rw [quotient]
  exact roundQuotient_approximates (by decide) (Nat.mul_pos a.den_pos (num_pos positive))

theorem round_le (b : Binary) : b.round.value ≤ 2 * (b.value + 1) := by
  have unit : (0 : ℚ) < b.den := by exact_mod_cast b.den_pos
  have integer : ((halfUp b.num b.den : ℕ) : ℚ) ≤ b.value + 1 := by
    have whole : ((b.num / b.den : ℕ) : ℚ) ≤ b.value := by
      rw [value_eq]
      exact Nat.cast_div_le
    have next : halfUp b.num b.den ≤ b.num / b.den + 1 := by
      unfold halfUp
      split <;> omega
    have cast : ((halfUp b.num b.den : ℕ) : ℚ) ≤ (b.num / b.den : ℕ) + 1 := by
      exact_mod_cast next
    linarith
  have rounded := (ofNat_approximates (halfUp b.num b.den)).twice_ge
  unfold round
  linarith

/-- Repeated squaring multiplies numbers that are not below one. -/
theorem one_le_power {product square : Binary} (first : 1 ≤ product.value)
    (second : 1 ≤ square.value) (n : ℕ) : 1 ≤ (power product square n).value := by
  fun_induction power product square n with
  | case1 => exact first
  | case2 product square n _ ih =>
    refine ih ?_ ?_
    · split
      · exact (mul_approximates product square).one_le (one_le_mul_of_one_le_of_one_le first second)
      · exact first
    · exact (mul_approximates square square).one_le (one_le_mul_of_one_le_of_one_le second second)

theorem one_le_tenPower (n : ℕ) : 1 ≤ (tenPower n).value := by
  have least {m : ℕ} (positive : 1 ≤ m) : 1 ≤ (ofNat m).value :=
    (ofNat_approximates m).one_le (by exact_mod_cast positive)
  exact one_le_power (least le_rfl) (least (by decide)) n

/-- The quotient of two integers that are rounded first. -/
theorem ofNat_div_ofNat_le {m n : ℕ} (positive : 0 < n) (le : m ≤ n) :
    ((ofNat m).div (ofNat n)).value ≤ 8 := by
  have first := ofNat_approximates m
  have second := ofNat_approximates n
  have present : 0 < (ofNat n).value := second.pos (by exact_mod_cast positive)
  have ordered : (m : ℚ) ≤ n := by exact_mod_cast le
  have quotient : (ofNat m).value / (ofNat n).value ≤ 4 := by
    rw [div_le_iff₀ present]
    linarith [first.twice_ge, second.le_twice]
  linarith [(div_approximates (ofNat m) present).twice_ge]

/-- An integer is rounded to between a multiplication and the division that undoes it. -/
theorem mul_round_div_le (b : Binary) {unit : Binary} (large : 1 ≤ unit.value) :
    ((b.mul unit).round.div unit).value ≤ 8 * b.value + 4 := by
  have product := (mul_approximates b unit).twice_ge
  have integer := round_le (b.mul unit)
  have present : 0 < unit.value := one_pos.trans_le large
  have quotient : (b.mul unit).round.value / unit.value ≤ 4 * b.value + 2 := by
    rw [div_le_iff₀ present]
    linarith
  linarith [(div_approximates (b.mul unit).round present).twice_ge]

end Binary

namespace Single
open Decimal (capacity maxScale pow10 pow10_pos Fits WellFormed)
variable {d : Decimal} {b : Binary} {n : ℕ}

/-- Digits before the point are fewer than those of the capacity, and those after it are less
than one. -/
theorem doubleOf_lt (wellFormed : d.WellFormed) : (doubleOf d).value < 2 ^ (127 : ℤ) := by
  have unit : 0 < pow10 d.scale := pow10_pos d.scale
  have whole : (Binary.ofNat (d.coefficient / pow10 d.scale)).value ≤ 2 * 2 ^ 96 := by
    have digits : d.coefficient / pow10 d.scale ≤ capacity :=
      (Nat.div_le_self _ _).trans wellFormed.coefficient_lt.le
    have short : ((d.coefficient / pow10 d.scale : ℕ) : ℚ) ≤ 2 ^ 96 := by exact_mod_cast digits
    linarith [(Binary.ofNat_approximates (d.coefficient / pow10 d.scale)).twice_ge]
  have fraction := Binary.ofNat_div_ofNat_le unit (Nat.mod_lt d.coefficient unit).le
  have room : (32 * 2 ^ 96 + 200 : ℚ) < 2 ^ (127 : ℤ) := by norm_num
  simp only [doubleOf]
  split
  · linarith
  · have sum := (Binary.add_approximates (.ofNat (d.coefficient / pow10 d.scale))
      ((Binary.ofNat (d.coefficient % pow10 d.scale)).div (.ofNat (pow10 d.scale)))).twice_ge
    refine (Binary.mul_round_div_le _ (Binary.one_le_tenPower d.scale)).trans_lt ?_
    linarith

/-- The largest finite pattern is that of a number just below the next power of two. -/
theorem magnitude?_isSome (small : b.value < 2 ^ (127 : ℤ)) : (magnitude? b).isSome := by
  unfold magnitude?
  split
  · rfl
  next present =>
  have positive : 0 < b.value := by
    have digits : (0 : ℚ) < b.significand := by exact_mod_cast Nat.pos_of_ne_zero present
    unfold Binary.value
    positivity
  have num := Binary.num_pos positive
  rw [Binary.value_eq] at small
  have places := Binary.log2Quotient_lt num b.den_pos small
  generalize exponentIs : max (Binary.log2Quotient b.num b.den - 23) (-149) = exponent
  have units : Binary.unitsOf b.num b.den exponent ≤ 2 ^ 24 :=
    Binary.unitsOf_le_pow num b.den_pos (by omega)
  have finite : (exponent + 149).toNat * hiddenBit + Binary.unitsOf b.num b.den exponent < infinity := by
    simp only [hiddenBit, infinity]
    omega
  simp only [if_pos finite, Option.isSome_some]

theorem ofDecimal?_isSome (wellFormed : d.WellFormed) : (ofDecimal? d).isSome := by
  rw [ofDecimal?, Option.isSome_map]
  exact magnitude?_isSome (doubleOf_lt wellFormed)

theorem decimalPlaces_bounds (count : ℕ) (small : n < capacity) (s : ℕ) :
    (decimalPlaces count n s).1 < capacity ∧ (decimalPlaces count n s).2 ≤ s := by
  have halved : n / 2 < capacity := (Nat.div_le_self n 2).trans_lt small
  fun_induction decimalPlaces count n s with
  | case1 => exact ⟨small, le_rfl⟩
  | case2 count n s _ ih =>
    obtain ⟨digits, places⟩ := ih halved ((Nat.div_le_self _ 2).trans_lt halved)
    exact ⟨digits, places.trans (Nat.sub_le s 1)⟩
  | case3 count n s _ fits ih => exact ih fits ((Nat.div_le_self _ 2).trans_lt fits)
  | case4 count n s _ _ ih =>
    obtain ⟨digits, places⟩ := ih halved ((Nat.div_le_self _ 2).trans_lt halved)
    exact ⟨digits, places.trans (Nat.sub_le s 1)⟩

theorem dropExcess_le (count n s : ℕ) :
    (dropExcess count n s).1 ≤ n ∧ (dropExcess count n s).2 ≤ s - count := by
  fun_induction dropExcess count n s with
  | case1 n s => exact ⟨le_rfl, le_rfl⟩
  | case2 => exact ⟨Nat.zero_le _, Nat.zero_le _⟩
  | case3 count n s _ ih =>
    obtain ⟨digits, places⟩ := ih
    exact ⟨digits.trans (Decimal.halfUp_le (by decide)), by omega⟩

theorem dropNoise_le (n s : ℕ) : (dropNoise n s).1 ≤ n ∧ (dropNoise n s).2 ≤ s := by
  fun_induction dropNoise n s with
  | case1 n => exact ⟨le_rfl, le_rfl⟩
  | case2 n s _ ih =>
    obtain ⟨digits, places⟩ := ih
    exact ⟨digits.trans (Decimal.halfUp_le (by decide)), places.trans (Nat.le_succ s)⟩
  | case3 => exact ⟨le_rfl, le_rfl⟩

theorem dropExcess_fits (small : n < capacity) (s : ℕ) : Fits (dropExcess (s - maxScale) n s) := by
  obtain ⟨digits, places⟩ := dropExcess_le (s - maxScale) n s
  exact ⟨digits.trans_lt small, places.trans (by omega)⟩

theorem fractionParts_fits (small : n < capacity) (count : ℕ) : Fits (fractionParts n count) := by
  obtain ⟨digits, _⟩ := decimalPlaces_bounds count small count
  have short := dropExcess_fits digits (decimalPlaces count n count).2
  obtain ⟨cleaned, kept⟩ := dropNoise_le _ _
  obtain ⟨stripped, left⟩ := Decimal.stripZeros_le _ _
  exact (short.mono cleaned kept).mono stripped left

theorem significand_lt (f : Single) : f.significand < 2 * hiddenBit := by
  have field : f.fractionField < hiddenBit := Nat.mod_lt _ (by decide)
  unfold significand
  split <;> omega

theorem toDecimal?_wellFormed (f : Single) : Gives WellFormed f.toDecimal? := by
  have small : f.significand < capacity := f.significand_lt.trans (by decide)
  unfold toDecimal?
  split
  · next infinite => exact .none
  · split
    · next zero => exact .some (Decimal.wellFormed_mk ⟨by decide, Nat.zero_le _⟩)
    · split
      · next whole =>
        extract_lets n
        split
        · next fits => exact .some ⟨fits, Nat.zero_le _⟩
        · next large => exact .none
      · next fractional => exact .some (Decimal.wellFormed_mk (fractionParts_fits small _))

end Single
end StackCalculator

import StackCalculator.Proofs.Encodings

/-! Rounding to significant digits. Of the numbers with at most `p` digits the one nearest to a
number is found on a grid, the multiples of the power of ten at the number's own `p`-th digit:
what is not on the grid is no nearer, and a half is settled by the digit there. -/
namespace StackCalculator.Decimal
variable {v w u : ℚ} {e f n : ℤ} {p : ℕ}

theorem nearestInt_eq_of_lt (close : |v - n| < 1 / 2) : nearestInt v = n :=
  NearestEven.eq ⟨close.le, fun tie => absurd tie close.ne⟩

theorem one_le_of_ne {m n : ℤ} (apart : m ≠ n) : (1 : ℚ) ≤ |(m : ℚ) - n| := by
  have least : 1 ≤ |m - n| := Int.one_le_abs (sub_ne_zero.mpr apart)
  exact_mod_cast least

/-- Another integer is half a unit away at least. -/
theorem half_le_of_ne (apart : n ≠ nearestInt v) : 1 / 2 ≤ |v - n| := by
  have near := (nearestEven_nearestInt v).near
  have far := one_le_of_ne apart
  have triangle := abs_sub_le (n : ℚ) v (nearestInt v)
  rw [abs_sub_comm (n : ℚ) v] at triangle
  linarith

theorem nearestInt_near (v : ℚ) (n : ℤ) : |v - nearestInt v| ≤ |v - n| := by
  rcases eq_or_ne n (nearestInt v) with rfl | apart
  · exact le_rfl
  · exact (nearestEven_nearestInt v).near.trans (half_le_of_ne apart)

theorem nearestInt_unit (negative : Bool) (v : ℚ) : (nearestInt (unit negative * v) : ℚ) = unit negative * nearestInt v := by
  cases negative with
  | false => rw [unit_false, one_mul, one_mul]
  | true => rw [unit_true, neg_one_mul, neg_one_mul, nearestInt_neg, Int.cast_neg]

/-- A multiple of a power of ten. -/
def OnGrid (e : ℤ) (w : ℚ) : Prop := ∃ k : ℤ, w = k * 10 ^ e

/-- The multiple of a power of ten nearest to `v`; halfway, the even one. -/
def roundAt (e : ℤ) (v : ℚ) : ℚ := nearestInt (v / 10 ^ e) * 10 ^ e

theorem tenPow_pos (e : ℤ) : (0 : ℚ) < 10 ^ e := zpow_pos (by norm_num) e

theorem tenPow_le (le : f ≤ e) : (10 : ℚ) ^ f ≤ 10 ^ e := zpow_le_zpow_right₀ (by norm_num) le

theorem onGrid_roundAt (e : ℤ) (v : ℚ) : OnGrid e (roundAt e v) := ⟨_, rfl⟩

theorem OnGrid.of_le (grid : OnGrid e w) (le : f ≤ e) : OnGrid f w := by
  obtain ⟨k, rfl⟩ := grid
  obtain ⟨j, rfl⟩ := Int.le.dest le
  refine ⟨k * 10 ^ j, ?_⟩
  push_cast
  rw [zpow_add₀ (by norm_num), zpow_natCast]
  ring

theorem onGrid_pow (le : f ≤ e) : OnGrid f (10 ^ e) := OnGrid.of_le ⟨1, by rw [Int.cast_one, one_mul]⟩ le

/-- Distances on the grid, in its units. -/
theorem abs_sub_grid (v : ℚ) (k e : ℤ) : |v - k * 10 ^ e| = |v / 10 ^ e - k| * 10 ^ e := by
  have power := tenPow_pos e
  rw [← abs_of_pos power, ← abs_mul, abs_of_pos power, sub_mul, div_mul_cancel₀ _ power.ne']

theorem roundAt_near (e : ℤ) (v : ℚ) : |v - roundAt e v| ≤ 1 / 2 * 10 ^ e := by
  have power := tenPow_pos e
  rw [roundAt, abs_sub_grid]
  have near := (nearestEven_nearestInt (v / 10 ^ e)).near
  gcongr

theorem roundAt_nearest (grid : OnGrid e u) : |v - roundAt e v| ≤ |v - u| := by
  obtain ⟨k, rfl⟩ := grid
  have power := tenPow_pos e
  rw [roundAt, abs_sub_grid, abs_sub_grid]
  have near := nearestInt_near (v / 10 ^ e) k
  gcongr

theorem roundAt_of_onGrid (grid : OnGrid e w) : roundAt e w = w := by
  obtain ⟨k, rfl⟩ := grid
  rw [roundAt, mul_div_cancel_right₀ _ (tenPow_pos e).ne', nearestInt_intCast]

theorem roundAt_zero (e : ℤ) : roundAt e 0 = 0 := roundAt_of_onGrid ⟨0, by rw [Int.cast_zero, zero_mul]⟩

theorem roundAt_mono (le : v ≤ w) : roundAt e v ≤ roundAt e w := by
  have power := tenPow_pos e
  have nearest : nearestInt (v / 10 ^ e) ≤ nearestInt (w / 10 ^ e) := nearestInt_mono (by gcongr)
  have nearest : (nearestInt (v / 10 ^ e) : ℚ) ≤ nearestInt (w / 10 ^ e) := by exact_mod_cast nearest
  unfold roundAt
  gcongr

theorem abs_roundAt (e : ℤ) (v : ℚ) : |roundAt e v| = roundAt e |v| := by
  have power := tenPow_pos e
  rw [roundAt, abs_mul, abs_of_pos power, roundAt, ← Int.cast_abs, ← nearestInt_abs, abs_div, abs_of_pos power]

theorem roundAt_unit (negative : Bool) (e : ℤ) (v : ℚ) : roundAt e (unit negative * v) = unit negative * roundAt e v := by
  rw [roundAt, mul_div_assoc, nearestInt_unit, mul_assoc]
  rfl

/-- The power of ten at the `p`-th significant digit. -/
def place (p : ℕ) (v : ℚ) : ℤ := Int.log 10 |v| + 1 - p

theorem pow_place_le (nonzero : v ≠ 0) : 10 ^ (place p v + p - 1) ≤ |v| := by
  have first := Int.zpow_log_le_self (b := 10) (by decide) (abs_pos.mpr nonzero)
  rw [Nat.cast_ofNat] at first
  rwa [place, show Int.log 10 |v| + 1 - (p : ℤ) + p - 1 = Int.log 10 |v| by ring]

theorem lt_pow_place (p : ℕ) (v : ℚ) : |v| < 10 ^ (place p v + p) := by
  have first := Int.lt_zpow_succ_log_self (b := 10) (by decide) |v|
  rw [Nat.cast_ofNat] at first
  rwa [place, sub_add_cancel]

theorem place_eq (least : 10 ^ (e + p - 1) ≤ |v|) (less : |v| < 10 ^ (e + p)) : place p v = e := by
  have nonzero : v ≠ 0 := abs_pos.mp ((tenPow_pos _).trans_le least)
  have below := least.trans_lt (lt_pow_place p v)
  have above := (pow_place_le (p := p) nonzero).trans_lt less
  rw [zpow_lt_zpow_iff_right₀ (by norm_num)] at below above
  omega

/-- A number with at most `p` significant digits. -/
def HasDigits (p : ℕ) (w : ℚ) : Prop := ∃ m e : ℤ, |m| < 10 ^ p ∧ w = m * 10 ^ e

/-- Among the numbers with at most `p` digits one that is nearest to `v`; halfway, the one with
an even digit at the place of the last one. -/
structure NearestDigits (p : ℕ) (v w : ℚ) : Prop where
  digits : HasDigits p w
  nearest : ∀ u, HasDigits p u → |v - w| ≤ |v - u|
  even : ∀ u, HasDigits p u → u ≠ w → |v - u| = |v - w| → ∃ k : ℤ, Even k ∧ w = k * 10 ^ place p v

theorem OnGrid.hasDigits (grid : OnGrid e w) (positive : 0 < p) (le : |w| ≤ 10 ^ (e + p)) : HasDigits p w := by
  obtain ⟨k, rfl⟩ := grid
  have bound : |k| ≤ 10 ^ p := by
    rw [abs_mul, abs_of_pos (tenPow_pos e), zpow_add₀ (by norm_num), mul_comm, mul_le_mul_iff_right₀ (tenPow_pos e),
      zpow_natCast] at le
    exact_mod_cast le
  rcases bound.lt_or_eq with less | equal
  · exact ⟨k, e, less, rfl⟩
  · -- A power of ten has one digit, and a zero less behind it.
    obtain ⟨q, rfl⟩ := Nat.exists_eq_add_one_of_ne_zero positive.ne'
    obtain ⟨j, rfl⟩ : (10 : ℤ) ∣ k := by
      rw [← dvd_abs, equal]
      exact dvd_pow_self 10 (Nat.succ_ne_zero q)
    refine ⟨j, e + 1, ?_, ?_⟩
    · rw [abs_mul, pow_succ] at equal
      have power : (0 : ℤ) < 10 ^ q := by positivity
      norm_num at equal
      rw [pow_succ]
      omega
    · rw [zpow_add₀ (by norm_num), zpow_one]
      push_cast
      ring

theorem HasDigits.onGrid_or_lt (digits : HasDigits p u) (e : ℤ) : OnGrid e u ∨ |u| < 10 ^ (e + p - 1) := by
  obtain ⟨m, f, small, rfl⟩ := digits
  rcases le_or_gt e f with le | less
  · exact .inl (OnGrid.of_le ⟨m, rfl⟩ le)
  · have small : |(m : ℚ)| < 10 ^ p := by exact_mod_cast small
    have power := tenPow_pos f
    refine .inr ?_
    calc |(m : ℚ) * 10 ^ f| = |(m : ℚ)| * 10 ^ f := by rw [abs_mul, abs_of_pos power]
      _ < 10 ^ p * 10 ^ f := by gcongr
      _ = 10 ^ (p + f) := by rw [zpow_add₀ (by norm_num), zpow_natCast]
      _ ≤ 10 ^ (e + p - 1) := tenPow_le (by omega)

/-- What is below the first digit is further away than what is on the grid. -/
theorem roundAt_lt_of_lt (positive : 0 < p) (least : 10 ^ (e + p - 1) ≤ |v|) (less : |u| < 10 ^ (e + p - 1)) :
    |v - roundAt e v| < |v - u| := by
  have grid : OnGrid e (10 ^ (e + p - 1)) := onGrid_pow (by omega)
  have mirrored : |v - roundAt e v| = |(|v| - roundAt e |v|)| := by
    rcases le_total 0 v with nonneg | nonpos
    · rw [abs_of_nonneg nonneg]
    · have flipped := roundAt_unit true e |v|
      rw [abs_of_nonpos nonpos, unit_true, neg_one_mul, neg_one_mul, neg_neg] at flipped
      rw [abs_of_nonpos nonpos, flipped, ← abs_neg]
      congr 1
      ring
  calc |v - roundAt e v| = |(|v| - roundAt e |v|)| := mirrored
    _ ≤ |(|v| - 10 ^ (e + p - 1))| := roundAt_nearest grid
    _ = |v| - 10 ^ (e + p - 1) := abs_of_nonneg (sub_nonneg.mpr least)
    _ < |v| - |u| := by linarith
    _ ≤ |v - u| := abs_sub_abs_le_abs_sub v u

theorem nearestDigits_roundAt (positive : 0 < p) (v : ℚ) : NearestDigits p v (roundAt (place p v) v) := by
  rcases eq_or_ne v 0 with rfl | nonzero
  · rw [roundAt_zero]
    refine ⟨⟨0, 0, by simp, by simp⟩, fun u _ => ?_, fun u _ apart tie => ?_⟩
    · rw [sub_self, abs_zero]
      exact abs_nonneg _
    · rw [sub_self, abs_zero, abs_eq_zero, zero_sub, neg_eq_zero] at tie
      exact absurd tie apart
  have least := pow_place_le (p := p) nonzero
  refine ⟨(onGrid_roundAt _ v).hasDigits positive ?_, fun u digits => ?_, fun u digits apart tie => ?_⟩
  · rw [abs_roundAt, ← roundAt_of_onGrid (onGrid_pow (show place p v ≤ place p v + p by omega))]
    exact roundAt_mono (lt_pow_place p v).le
  · rcases digits.onGrid_or_lt (place p v) with grid | less
    · exact roundAt_nearest grid
    · exact (roundAt_lt_of_lt positive least less).le
  · rcases digits.onGrid_or_lt (place p v) with ⟨k, rfl⟩ | less
    · have nearest := nearestEven_nearestInt (v / 10 ^ place p v)
      refine ⟨_, nearest.even (le_antisymm nearest.near ?_), rfl⟩
      have other : k ≠ nearestInt (v / 10 ^ place p v) := fun same => apart (same ▸ rfl)
      rw [roundAt, abs_sub_grid, abs_sub_grid, mul_left_inj' (tenPow_pos _).ne'] at tie
      exact tie ▸ half_le_of_ne other
    · exact absurd tie (roundAt_lt_of_lt positive least less).ne'

theorem nearestDigits_iff (positive : 0 < p) : NearestDigits p v w ↔ w = roundAt (place p v) v := by
  have found := nearestDigits_roundAt positive v
  refine ⟨fun nearest => ?_, fun same => same ▸ found⟩
  by_contra apart
  have equal := le_antisymm (nearest.nearest _ found.digits) (found.nearest w nearest.digits)
  obtain ⟨j, evenJ, first⟩ := nearest.even _ found.digits (Ne.symm apart) equal.symm
  obtain ⟨k, evenK, second⟩ := found.even w nearest.digits apart equal
  -- Two even multiples are two units apart, and nothing is a unit away from both.
  have near := roundAt_near (place p v) v
  have power := tenPow_pos (place p v)
  have steps : 2 ≤ |j - k| := by
    have different : j ≠ k := fun same => apart (by rw [first, second, same])
    obtain ⟨i, total⟩ := evenJ.sub evenK
    have some : i ≠ 0 := by omega
    have least := Int.one_le_abs some
    rw [total, ← two_mul, abs_mul, abs_two]
    omega
  have steps : (2 : ℚ) ≤ |(j : ℚ) - k| := by exact_mod_cast steps
  have far : 2 * 10 ^ place p v ≤ |w - roundAt (place p v) v| := by
    rw [second, first, ← sub_mul, abs_mul, abs_of_pos power]
    gcongr
  have triangle := abs_sub_le w v (roundAt (place p v) v)
  rw [abs_sub_comm w v, equal] at triangle
  linarith

theorem HasDigits.roundAt_place (digits : HasDigits p v) (positive : 0 < p) : roundAt (place p v) v = v := by
  refine ((nearestDigits_iff positive).mp ⟨digits, fun u _ => ?_, fun u _ apart tie => ?_⟩).symm
  · rw [sub_self, abs_zero]
    exact abs_nonneg _
  · rw [sub_self, abs_zero, abs_eq_zero, sub_eq_zero] at tie
    exact absurd tie.symm apart

variable {d : Decimal} {precision : ℕ}

/-- The digits asked for, between one and the most. -/
def digitsKept (precision : ℕ) : ℕ := max 1 (min precision maxPrecision)

theorem digitsKept_pos (precision : ℕ) : 0 < digitsKept precision := by
  unfold digitsKept
  omega

theorem digitsKept_le (precision : ℕ) : digitsKept precision ≤ maxPrecision := by
  have most : maxPrecision = 28 := rfl
  unfold digitsKept
  omega

theorem hasDigits_of_digitCount_le (few : digitCount d.coefficient ≤ p) : HasDigits p d.value := by
  refine ⟨d.signed, -d.scale, ?_, ?_⟩
  · have small : d.coefficient < 10 ^ p :=
      (lt_pow10_digitCount d.coefficient).trans_le (Nat.pow_le_pow_right (by decide) few)
    have magnitude : |d.signed| = d.coefficient := by
      unfold signed
      split
      · rw [abs_neg, Nat.abs_cast]
      · exact Nat.abs_cast _
    rw [magnitude]
    exact_mod_cast small
  · rw [value, Rat.mkRat_eq_div, pow10_cast, zpow_neg, zpow_natCast]
    rfl

/-- Before rounding as many digits are dropped as there are behind the `p`-th. -/
theorem place_value {drop : ℕ} (some : 0 < drop) (positive : 0 < p) (count : digitCount d.coefficient = p + drop) :
    place p d.value = drop - d.scale := by
  have power : (0 : ℚ) < 10 ^ d.scale := by positivity
  have least : pow10 (p + drop - 1) ≤ d.coefficient := pow10_le_of_lt_digitCount (by omega)
  have most : d.coefficient < pow10 (p + drop) := count ▸ lt_pow10_digitCount d.coefficient
  have least : (10 : ℚ) ^ (p + drop - 1) ≤ d.coefficient := by
    rw [← pow10_cast]
    exact_mod_cast least
  have most : (d.coefficient : ℚ) < 10 ^ (p + drop) := by
    rw [← pow10_cast]
    exact_mod_cast most
  have scaled : ∀ k : ℕ, (10 : ℚ) ^ ((k : ℤ) - d.scale) = 10 ^ k / 10 ^ d.scale := by
    intro k
    rw [zpow_sub₀ (by norm_num), zpow_natCast, zpow_natCast]
  apply place_eq
  · rw [abs_value, show (drop - d.scale + p - 1 : ℤ) = (p + drop - 1 : ℕ) - d.scale by omega, scaled]
    gcongr
  · rw [abs_value, show (drop - d.scale + p : ℤ) = (p + drop : ℕ) - d.scale by omega, scaled]
    gcongr

theorem roundAt_value (d : Decimal) (drop : ℕ) : roundAt (drop - d.scale) d.value =
    unit d.negative * (halfEven d.coefficient (pow10 drop) * 10 ^ (drop - d.scale : ℤ)) := by
  have fraction : (d.coefficient / 10 ^ d.scale : ℚ) / 10 ^ (drop - d.scale : ℤ) = d.coefficient / pow10 drop := by
    rw [zpow_sub₀ (by norm_num), zpow_natCast, zpow_natCast, pow10_cast]
    field_simp
  rw [value_eq, roundAt_unit, roundAt, fraction, nearestInt_div (pow10_pos drop)]
  rfl

/-- Dropped digits leave no more than those that are kept, and a power of ten if one is carried. -/
theorem halfEven_le_pow10 {n drop : ℕ} (few : n < pow10 (p + drop)) : halfEven n (pow10 drop) ≤ pow10 p := by
  have whole : n / pow10 drop < pow10 p := by
    rw [pow10_add] at few
    exact Nat.div_lt_of_lt_mul (Nat.mul_comm _ _ ▸ few)
  exact (halfEven_le_succ n _).trans whole

/-- All digits are kept, or some are dropped. -/
theorem short_or_long (precision : ℕ) (d : Decimal) : digitCount d.coefficient ≤ digitsKept precision ∨
    ∃ drop, 0 < drop ∧ digitCount d.coefficient = digitsKept precision + drop := by
  rcases Nat.lt_or_ge (digitsKept precision) (digitCount d.coefficient) with more | short
  · exact .inr ⟨_, Nat.sub_pos_of_lt more, (Nat.add_sub_cancel' more.le).symm⟩
  · exact .inl short

theorem roundTo_of_short (short : digitCount d.coefficient ≤ digitsKept precision) :
    d.roundTo precision = d := if_pos (Nat.sub_eq_zero_of_le short)

theorem roundTo_of_long {drop : ℕ} (some : 0 < drop)
    (long : digitCount d.coefficient = digitsKept precision + drop) : d.roundTo precision =
      if drop ≤ d.scale then ⟨d.negative, halfEven d.coefficient (pow10 drop), d.scale - drop⟩
      else if halfEven d.coefficient (pow10 drop) * pow10 (drop - d.scale) < capacity then
        ⟨d.negative, halfEven d.coefficient (pow10 drop) * pow10 (drop - d.scale), 0⟩ else d := by
  have dropped : digitCount d.coefficient - max 1 (min precision maxPrecision) = drop :=
    Nat.sub_eq_of_eq_add' long
  simp only [roundTo, dropped, if_neg some.ne']

/-- The nearest number with the digits that are kept takes the place of the number, if the
format has it. -/
theorem value_roundTo (precision : ℕ) (d : Decimal) :
    let n := roundAt (place (digitsKept precision) d.value) d.value
    (|n| < capacity → (d.roundTo precision).value = n) ∧ (capacity ≤ |n| → d.roundTo precision = d) := by
  intro n
  have positive := digitsKept_pos precision
  rcases short_or_long precision d with short | ⟨drop, some, long⟩
  · have itself : n = d.value := (hasDigits_of_digitCount_le short).roundAt_place positive
    rw [roundTo_of_short short]
    exact ⟨fun _ => itself.symm, fun _ => rfl⟩
  · have nearest : n = unit d.negative * (halfEven d.coefficient (pow10 drop) * 10 ^ (drop - d.scale : ℤ)) := by
      rw [← roundAt_value, ← place_value some positive long]
    have size : |n| = halfEven d.coefficient (pow10 drop) * 10 ^ (drop - d.scale : ℤ) := by
      rw [nearest, abs_mul, abs_unit, one_mul, abs_of_nonneg (by positivity)]
    rw [size, roundTo_of_long some long]
    by_cases places : drop ≤ d.scale
    · obtain ⟨left, total⟩ := Nat.exists_eq_add_of_le' places
      have unit : (10 : ℚ) ^ (drop - d.scale : ℤ) = (10 ^ left)⁻¹ := by
        rw [show (drop - d.scale : ℤ) = -left by omega, zpow_neg, zpow_natCast]
      have few : halfEven d.coefficient (pow10 drop) ≤ pow10 maxPrecision :=
        (halfEven_le_pow10 (long ▸ lt_pow10_digitCount d.coefficient)).trans
          (Nat.pow_le_pow_right (by decide) (digitsKept_le precision))
      have small : (halfEven d.coefficient (pow10 drop) : ℚ) < capacity := by
        exact_mod_cast few.trans_lt (by decide)
      rw [if_pos places, nearest, unit, ← div_eq_mul_inv]
      refine ⟨fun _ => ?_, fun large => absurd large (not_le.mpr ?_)⟩
      · rw [value_mk, total, Nat.add_sub_cancel]
      · exact (div_le_self (by positivity) (one_le_pow₀ (by norm_num))).trans_lt small
    · have padded : (halfEven d.coefficient (pow10 drop) * 10 ^ (drop - d.scale : ℤ) : ℚ) =
          (halfEven d.coefficient (pow10 drop) * pow10 (drop - d.scale) : ℕ) := by
        rw [Nat.cast_mul, pow10_cast, ← zpow_natCast, Nat.cast_sub (by omega)]
      rw [if_neg places, nearest, padded, Nat.cast_lt, Nat.cast_le]
      refine ⟨fun small => ?_, fun large => if_neg (Nat.not_lt.mpr large)⟩
      rw [if_pos small, value_mk, pow_zero, div_one]

theorem roundTo_scale_le (precision : ℕ) (d : Decimal) : (d.roundTo precision).scale ≤ d.scale := by
  rcases short_or_long precision d with short | ⟨drop, some, long⟩
  · rw [roundTo_of_short short]
  · rw [roundTo_of_long some long]
    split
    · exact Nat.sub_le _ _
    · split
      · exact Nat.zero_le _
      · exact le_rfl

theorem roundTo_negative (precision : ℕ) (d : Decimal) : (d.roundTo precision).negative = d.negative := by
  rcases short_or_long precision d with short | ⟨drop, some, long⟩
  · rw [roundTo_of_short short]
  · rw [roundTo_of_long some long]
    split
    · rfl
    · split
      · rfl
      · rfl

/-- The number with the digits that are kept nearest to a decimal is the one it is rounded to,
unless it is too large for the format; then the decimal stays as it is. Neither places nor a
sign are added, and trailing zeros of the decimal do not matter. -/
theorem roundTo_nearestDigits (precision : ℕ) (d : Decimal) :
    let p := max 1 (min precision 28)
    ∃ n, (∀ w, NearestDigits p d.value w ↔ w = n) ∧
      (|n| < 2 ^ 96 → (d.roundTo precision).value = n) ∧ (2 ^ 96 ≤ |n| → d.roundTo precision = d) ∧
      (d.roundTo precision).scale ≤ d.scale ∧ (d.roundTo precision).negative = d.negative ∧
      ∀ d' : Decimal, d'.value = d.value → (d'.roundTo precision).value = (d.roundTo precision).value := by
  intro p
  have rounded := value_roundTo precision
  simp only [capacity_eq_pow] at rounded
  refine ⟨roundAt (place p d.value) d.value, fun w => nearestDigits_iff (digitsKept_pos precision),
    (rounded d).1, (rounded d).2, roundTo_scale_le precision d, roundTo_negative precision d, fun d' same => ?_⟩
  have rounded' := rounded d'
  rw [same] at rounded'
  rcases lt_or_ge |roundAt (place p d.value) d.value| (2 ^ 96) with small | large
  · rw [(rounded d).1 small]
    exact rounded'.1 small
  · rw [(rounded d).2 large, rounded'.2 large, same]

/-- Halfway between `9` and `10` the digit at the first place of the number is odd in one of
them, with and without zeros behind the number. -/
theorem roundTo_nearestDigits_tie :
    let d : Decimal := ⟨false, 95, 1⟩
    let d' : Decimal := ⟨false, 9500, 3⟩
    d'.value = d.value ∧ NearestDigits 1 d.value 10 ∧ (d.roundTo 1).value = 10 ∧ (d'.roundTo 1).value = 10 := by
  intro d d'
  have same : d'.value = d.value := by
    rw [value_mk, value_mk]
    norm_num
  have rounded : d.roundTo 1 = ⟨false, 10, 0⟩ := by decide +kernel
  have ten : (d.roundTo 1).value = 10 := by
    rw [rounded, value_mk]
    norm_num [unit]
  obtain ⟨n, nearest, taken, left, _, _, alike⟩ := roundTo_nearestDigits 1 d
  have found : (d.roundTo 1).value = n := by
    rcases lt_or_ge |n| (2 ^ 96) with small | large
    · exact taken small
    · rw [left large] at rounded
      exact absurd (congrArg coefficient rounded) (by decide)
  exact ⟨same, (nearest 10).mpr (ten ▸ found), ten, (alike d' same).trans ten⟩

end StackCalculator.Decimal

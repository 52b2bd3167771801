import StackCalculator.Proofs.Arithmetic

/-! What long division finds. Its state is a quotient and a remainder that together are the
exact quotient at some scale; each step keeps that and appends digits, and every way to stop
rounds what is left once. Quotients are therefore computed like sums and products, and a
remainder is exact wherever it comes from division by one machine word. -/
namespace StackCalculator.Decimal

/-- `q` and the remainder `r` are what is found of `v` when `scale` digits follow the point. -/
def Found (v : ℚ) (den q r : ℕ) (scale : ℤ) : Prop := v * 10 ^ scale = q + r / den

variable {v : ℚ} {den q r n s t : ℕ} {scale : ℤ}

namespace Found

theorem halfEven_eq (positive : 0 < den) (found : Found v den q r t) :
    nearestInt (v * 10 ^ t) = halfEven (q * den + r) den := by
  have unit : (den : ℚ) ≠ 0 := by positivity
  have fraction : (v * 10 ^ t : ℚ) = (q * den + r : ℕ) / den := by
    rw [← zpow_natCast, found]
    push_cast
    field_simp
  rw [fraction, nearestInt_div positive]

/-- The last digit of the quotient given back. -/
theorem nearestInt_eq (positive : 0 < den) (found : Found v den q r (t + 1 : ℕ)) :
    nearestInt (v * 10 ^ t) = halfEven (q * den + r) (10 * den) := by
  have unit : (den : ℚ) ≠ 0 := by positivity
  have fraction : (v * 10 ^ t : ℚ) = (q * den + r : ℕ) / (10 * den : ℕ) := by
    have shifted : v * 10 ^ t * 10 = q + r / den := by
      rw [mul_assoc, ← pow_succ, ← zpow_natCast, found]
    push_cast
    rw [eq_div_iff (by positivity), ← mul_assoc, shifted]
    field_simp
  rw [fraction, nearestInt_div (by positivity)]

theorem le_mul (found : Found v den q r scale) : (q : ℚ) ≤ v * 10 ^ scale := by
  rw [found]
  have : (0 : ℚ) ≤ r / den := by positivity
  linarith

theorem not_fitsAt (found : Found v den q r scale) {k : ℕ} (equal : scale + k = t)
    (large : capacity ≤ q * pow10 k) : ¬FitsAt v t := by
  apply not_fitsAt_of_le
  have moved : v * 10 ^ t = v * 10 ^ scale * 10 ^ k := by
    rw [← zpow_natCast, ← zpow_natCast, ← equal, zpow_add₀ (by norm_num), mul_assoc]
  calc (capacity : ℚ) ≤ q * 10 ^ k := by
        rw [← pow10_cast]
        exact_mod_cast large
    _ ≤ v * 10 ^ scale * 10 ^ k := by
        have := found.le_mul
        gcongr
    _ = v * 10 ^ t := moved.symm

theorem overflows (found : Found v den q r scale) {k : ℕ} (le : scale + k ≤ 0)
    (large : capacity ≤ q * pow10 k) : Overflows v := by
  obtain ⟨j, total⟩ := Int.le.dest le
  refine found.not_fitsAt (k := k + j) (by push_cast; omega) (large.trans ?_)
  rw [pow10_add]
  exact Nat.mul_le_mul_left _ (Nat.le_mul_of_pos_right _ (pow10_pos j))

/-- More digits of the quotient, and the remainder that is left. -/
theorem extend (positive : 0 < den) (found : Found v den q r scale) (k : ℕ) :
    Found v den (q * pow10 k + r * pow10 k / den) (r * pow10 k % den) (scale + k) := by
  have unit : (den : ℚ) ≠ 0 := by positivity
  have divided : (r * pow10 k : ℚ) = den * (r * pow10 k / den : ℕ) + (r * pow10 k % den : ℕ) := by
    exact_mod_cast (Nat.div_add_mod _ _).symm
  rw [Found, zpow_add₀ (by norm_num), ← mul_assoc, found, zpow_natCast, ← pow10_cast]
  push_cast
  field_simp
  linarith

end Found

theorem capacity_le_of_room_lt {limit : ℕ} (less : room q limit < limit) :
    capacity ≤ q * pow10 (room q limit + 1) := by
  induction limit with
  | zero => exact absurd less (Nat.not_lt_zero _)
  | succ limit ih =>
    unfold room at less ⊢
    split at less
    · exact absurd less (Nat.lt_irrefl _)
    · next full =>
      rw [if_neg full]
      rcases Nat.lt_or_ge (room q limit) limit with short | most
      · exact ih short
      · rw [le_antisymm (room_le q limit) most]
        exact Nat.le_of_not_lt full

/-- A quotient of one digit too many is rounded by that digit and by what follows it. -/
theorem giveBack_computes (rest : r < den) (found : Found v den q r scale) (large : capacity ≤ q)
    (small : q / 10 + 1 < capacity) (le : scale ≤ maxScale) :
    Computes v ((giveBack q scale (r != 0)).map magnitude) := by
  have positive : 0 < den := Nat.zero_lt_of_lt rest
  have whole : capacity ≤ q * pow10 0 := (Nat.mul_one q).symm ▸ large
  simp only [giveBack]
  split
  · next nonpos => exact found.overflows (k := 0) (by omega) whole
  next places =>
  obtain ⟨t, rfl⟩ : ∃ t : ℕ, scale = (t + 1 : ℕ) := ⟨(scale - 1).toNat, by omega⟩
  have quotient : (q * den + r) / (10 * den) = q / 10 := by
    rw [mul_comm 10, ← Nat.div_div_eq_div_mul, Nat.add_comm, Nat.add_mul_div_right _ _ positive,
      Nat.div_eq_of_lt rest, Nat.zero_add]
  have remainder : (q * den + r) % (10 * den) = q % 10 * den + r := by
    have total : 10 * den * (q / 10) + (q * den + r) % (10 * den) = q * den + r :=
      quotient ▸ Nat.div_add_mod (q * den + r) (10 * den)
    have digits : q * den = 10 * den * (q / 10) + q % 10 * den := by
      conv_lhs => rw [← Nat.div_add_mod q 10]
      ring
    omega
  have up : (10 * den < 2 * (q % 10 * den + r) ∨ 2 * (q % 10 * den + r) = 10 * den ∧ q / 10 % 2 = 1) ↔
      (5 < q % 10 ∨ q % 10 = 5 ∧ ((r != 0) = true ∨ q / 10 % 2 = 1)) := by
    clear quotient remainder small whole large
    generalize q % 10 = digit, q / 10 = others
    rcases lt_trichotomy digit 5 with less | rfl | more
    · have low : digit * den ≤ 4 * den := Nat.mul_le_mul_right den (Nat.le_of_lt_succ less)
      omega
    · rw [bne_iff_ne]
      omega
    · have high : 6 * den ≤ digit * den := Nat.mul_le_mul_right den more
      omega
  have nearest := found.nearestInt_eq positive
  simp only [halfEven, quotient, remainder, up] at nearest
  rw [show (((t + 1 : ℕ) : ℤ) - 1).toNat = t by omega]
  refine rounds_of_nearest nearest ?_ (by omega) (.inr (found.not_fitsAt (k := 0) (by simp) whole))
  split
  · exact small
  · exact Nat.lt_of_succ_lt small

theorem roundLast_computes (rest : r < den) (found : Found v den q r scale) (small : q < capacity)
    (nonneg : 0 ≤ scale) (le : scale ≤ maxScale) (full : scale = maxScale ∨ capacity ≤ q * pow10 1) :
    Computes v ((roundLast den q r scale).map magnitude) := by
  have positive : 0 < den := Nat.zero_lt_of_lt rest
  obtain ⟨t, rfl⟩ := Int.eq_ofNat_of_zero_le nonneg
  have quotient : (q * den + r) / den = q := by
    rw [Nat.add_comm, Nat.add_mul_div_right _ _ positive, Nat.div_eq_of_lt rest, Nat.zero_add]
  have remainder : (q * den + r) % den = r := by
    rw [Nat.add_comm, Nat.add_mul_mod_self_right, Nat.mod_eq_of_lt rest]
  have nearest := found.halfEven_eq positive
  simp only [halfEven, quotient, remainder] at nearest
  have most : t = maxScale ∨ ¬FitsAt v (t + 1) := by
    rcases full with last | full
    · exact .inl (by omega)
    · exact .inr (found.not_fitsAt (by simp) full)
  have below : v * 10 ^ t < (capacity : ℚ) := by
    have fraction : (r / den : ℚ) < 1 := by
      rw [div_lt_one (by positivity)]
      exact_mod_cast rest
    have succ : (q : ℚ) + 1 ≤ capacity := by exact_mod_cast small
    rw [← zpow_natCast, found]
    linarith
  simp only [roundLast, Int.toNat_natCast]
  generalize rounding : (if den < 2 * r ∨ 2 * r = den ∧ q % 2 = 1 then q + 1 else q) = rounded at *
  by_cases fits : rounded < capacity
  · rw [if_pos fits]
    exact rounds_of_nearest nearest fits (by omega) most
  · rw [if_neg fits]
    have carried : rounded = capacity := by
      split at rounding <;> omega
    cases t with
    | zero => exact fun small => fits (by rwa [FitsAt, nearest, Int.natAbs_natCast] at small)
    | succ t =>
      have last : giveBack rounded ((t + 1 : ℕ) : ℤ) true = some (halfEven rounded 10, t) := by
        rw [carried]
        simp only [giveBack]
        rw [if_neg (by omega), show (((t + 1 : ℕ) : ℤ) - 1).toNat = t by omega]
        rfl
      rw [last]
      exact rounds_of_carry nearest below fits (by omega)

theorem longDivision_computes (small : q < capacity) (rest : r < den) (le : scale ≤ maxScale)
    (found : Found v den q r scale) : Computes v ((longDivision den q r scale).map magnitude) := by
  have places : (maxScale : ℤ) = 28 := rfl
  have positive : 0 < den := Nat.zero_lt_of_lt rest
  fun_induction longDivision den q r scale with
  | case1 q scale nonneg =>
    obtain ⟨t, rfl⟩ := Int.eq_ofNat_of_zero_le nonneg
    have equal : v * 10 ^ t = q := by
      rw [← zpow_natCast, found, Nat.cast_zero, zero_div, add_zero]
    exact rounds_of_exact equal small (by omega)
  | case2 q scale negative step fits ih =>
    have extended := found.extend positive step
    rw [Nat.zero_mul, Nat.zero_div, Nat.zero_mod, Nat.add_zero] at extended
    exact ih fits rest (by omega) extended
  | case3 q scale negative step full =>
    exact found.overflows (k := step) (by omega) (Nat.le_of_not_lt full)
  | case4 q r scale some step stuck =>
    exact found.overflows (k := step + 1) (by omega) (capacity_le_of_room_lt (by omega))
  | case5 q r scale some step moving last =>
    refine roundLast_computes rest found small (by omega) le ?_
    rcases Nat.eq_zero_or_pos (min 9 (maxScale - scale).toNat) with none | more
    · exact .inl (by omega)
    · have full : capacity ≤ q * pow10 (step + 1) := capacity_le_of_room_lt (by omega)
      rw [last] at full
      exact .inr full
  | case6 q r scale _ step _ _ extended left fits ih =>
    have within : step ≤ _ := room_le q (min 9 (maxScale - scale).toNat)
    exact ih fits (Nat.mod_lt _ positive) (by omega) (found.extend positive step)
  | case7 q r scale _ step _ _ extended left full =>
    have within : step ≤ _ := room_le q (min 9 (maxScale - scale).toNat)
    have kept : q * pow10 step < capacity := mul_pow10_room_lt small _
    have added : r * pow10 step / den ≤ pow10 step := by
      apply Nat.div_le_of_le_mul
      exact Nat.mul_le_mul_right _ (Nat.le_of_lt rest)
    have short : pow10 step ≤ pow10 9 := Nat.pow_le_pow_right (by decide) (by omega)
    have nine : pow10 9 = 1000000000 := rfl
    have large : capacity = 79228162514264337593543950336 := rfl
    exact giveBack_computes (Nat.mod_lt _ positive) (found.extend positive step)
      (Nat.le_of_not_lt full) (by omega) (by omega)

theorem magnitude_dropZeros (count : ℕ) (parts : ℕ × ℕ) :
    magnitude (dropZeros count parts.1 parts.2) = magnitude parts := by
  unfold dropZeros
  split
  · next zeros =>
    obtain ⟨n, exact⟩ := Nat.dvd_of_mod_eq_zero zeros.2
    rw [magnitude, magnitude, exact, Nat.mul_div_cancel_left n (pow10_pos count), Nat.cast_mul,
      pow10_cast, div_eq_div_iff (by positivity) (by positivity)]
    rw [← Nat.sub_add_cancel zeros.1, pow_add, Nat.add_sub_cancel]
    ring
  · rfl

theorem magnitude_dropBlocks (n s : ℕ) : magnitude (dropBlocks n s) = magnitude (n, s) := by
  fun_induction dropBlocks n s with
  | case1 n s zeros ih =>
    have dropped : dropZeros 8 n s = (n / pow10 8, s - 8) := if_pos zeros.2
    rw [ih, ← dropped, magnitude_dropZeros 8 (n, s)]
  | case2 => rfl

theorem magnitude_trimQuotient (n s : ℕ) : magnitude (trimQuotient n s) = magnitude (n, s) := by
  simp only [trimQuotient]
  rw [magnitude_dropZeros, magnitude_dropZeros, magnitude_dropZeros, magnitude_dropBlocks]

variable {a b : Decimal}

theorem div?_computes (first : a.WellFormed) (nonzero : b.isZero = false) :
    Computes (a.value / b.value) ((a.div? b).map value) := by
  have divisor : 0 < b.coefficient := coefficient_pos nonzero
  simp only [div?, nonzero, Bool.false_eq_true, if_false]
  split
  · next zero =>
    exact .of_wellFormed wellFormed_zero (by rw [value_zero, value_of_isZero zero, zero_div])
  have exact : a.value / b.value = unit (a.negative != b.negative) *
      ((a.coefficient / 10 ^ a.scale) / (b.coefficient / 10 ^ b.scale)) := by
    rw [value_div_value, abs_value, abs_value]
  have found : Found ((a.coefficient / 10 ^ a.scale) / (b.coefficient / 10 ^ b.scale)) b.coefficient
      (a.coefficient / b.coefficient) (a.coefficient % b.coefficient) (a.scale - b.scale) := by
    have unit : (b.coefficient : ℚ) ≠ 0 := by positivity
    have parts : (a.coefficient : ℚ) =
        b.coefficient * (a.coefficient / b.coefficient : ℕ) + (a.coefficient % b.coefficient : ℕ) := by
      exact_mod_cast (Nat.div_add_mod _ _).symm
    rw [Found, zpow_sub₀ (by norm_num), zpow_natCast, zpow_natCast]
    field_simp
    linarith
  rw [exact]
  refine (longDivision_computes ?_ (Nat.mod_lt _ divisor) ?_ found).signed ?_
  · exact (Nat.div_le_self _ _).trans_lt first.coefficient_lt
  · have : a.scale ≤ maxScale := first.scale_le
    omega
  · rintro ⟨n, s⟩
    have trimmed : magnitude (if a.coefficient % b.coefficient = 0 then (n, s) else trimQuotient n s) =
        magnitude (n, s) := by
      split
      · rfl
      · exact magnitude_trimQuotient n s
    rw [← trimmed]
    exact value_ofParts _ _ _

end StackCalculator.Decimal

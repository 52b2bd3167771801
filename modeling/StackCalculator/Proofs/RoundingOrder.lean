import StackCalculator.Proofs.DoubleRounding

/-! Rounding keeps the order of numbers. Of two numbers the larger one has no more places; where
it has fewer, a coefficient with a place more would not fit, and then its own rounding is above
every number with that place. So a number of the format bounds what is rounded beside it. Up to
seven all places fit, and the error is at most half of the last one. -/
namespace StackCalculator.Decimal
variable {v v' w w' : ℚ} {p t : ℕ}

/-- Where one place more does not fit, no coefficient with that place is above the rounding. -/
theorem RoundsAt.capacity_le (rounds : RoundsAt v w t) (nonneg : 0 ≤ v) (full : ¬FitsAt v (t + 1)) :
    (capacity : ℚ) - 1 ≤ w * 10 ^ (t + 1) := by
  have large := lt_of_not_fitsAt nonneg full
  have near := (abs_le.mp (nearestEven_nearestInt (v * 10 ^ t)).near).2
  rw [pow_succ, ← mul_assoc, capacity_cast] at large
  have above : (7922816251426433759354395033 : ℚ) < nearestInt (v * 10 ^ t) := by linarith
  have least : 7922816251426433759354395034 ≤ nearestInt (v * 10 ^ t) := by exact_mod_cast above
  have least : (7922816251426433759354395034 : ℚ) ≤ nearestInt (v * 10 ^ t) := by exact_mod_cast least
  rw [pow_succ, ← mul_assoc, rounds.nearest, capacity_cast]
  linarith

theorem RoundsAt.le_capacity (rounds : RoundsAt v w t) : w * 10 ^ t ≤ capacity - 1 := by
  have fits := rounds.fits
  have most : nearestInt (v * 10 ^ t) ≤ capacity - 1 := by
    unfold FitsAt at fits
    omega
  rw [rounds.nearest]
  exact_mod_cast most

theorem RoundsAt.le_of_fits {s : ℕ} (rounds : RoundsAt v w t) (fits : FitsAt v s) (le : s ≤ maxScale) : s ≤ t := by
  by_contra more
  rcases rounds.most with last | full
  · omega
  · exact full (fits.of_le (by omega))

namespace Rounds

theorem mono (first : Rounds v w) (second : Rounds v' w') (nonneg : 0 ≤ v) (le : v ≤ v') : w ≤ w' := by
  have positive := first.nonneg nonneg
  obtain ⟨t, first⟩ := first
  obtain ⟨t', second⟩ := second
  have order : t' ≤ t := first.le_of_fits (second.fits.of_abs_le (abs_le_abs_of_nonneg nonneg le)) second.le
  rcases order.eq_or_lt with rfl | less
  · have scaled : w * 10 ^ t' ≤ w' * 10 ^ t' := by
      rw [first.nearest, second.nearest]
      exact_mod_cast nearestInt_mono (by gcongr)
    exact le_of_mul_le_mul_right scaled (by positivity)
  · have full : ¬FitsAt v' (t' + 1) := second.most.resolve_left (less.trans_le first.le).ne
    have scaled : w * 10 ^ (t' + 1) ≤ w' * 10 ^ (t' + 1) := by
      calc w * 10 ^ (t' + 1) ≤ w * 10 ^ t := by
            gcongr
            · norm_num
            · exact less
        _ ≤ capacity - 1 := first.le_capacity
        _ ≤ w' * 10 ^ (t' + 1) := second.capacity_le (nonneg.trans le) full
    exact le_of_mul_le_mul_right scaled (by positivity)

theorem hasPlaces_of_le (small : |v| ≤ 7) : HasPlaces v maxScale := by
  have fits : FitsAt |v| maxScale := by
    apply fitsAt_of_lt (abs_nonneg v)
    calc |v| * 10 ^ maxScale ≤ 7 * 10 ^ 28 := by
          change |v| * 10 ^ 28 ≤ _
          gcongr
      _ ≤ capacity - 1 := by
        rw [capacity_cast]
        norm_num
  exact ⟨le_rfl, fits.of_abs_le (abs_abs v).ge, .inl rfl⟩

theorem units (rounds : Rounds v w) (small : |v| ≤ 7) :
    ∃ n : ℤ, w * 10 ^ 28 = n ∧ NearestEven (v * 10 ^ 28) n := rounds.nearestEven (hasPlaces_of_le small)

/-- A number of units of the last place, nearest to one that need not be whole. -/
theorem of_units {k : ℤ} (nearest : NearestEven v k) (small : |v| ≤ 10 ^ 28) :
    Rounds (v / 10 ^ 28) (k / 10 ^ 28) := by
  have bound : |v / 10 ^ 28| ≤ 7 := by
    rw [abs_div, abs_of_pos (by positivity : (0 : ℚ) < 10 ^ 28), div_le_iff₀ (by positivity)]
    linarith
  obtain ⟨le, fits, most⟩ := hasPlaces_of_le bound
  refine ⟨28, le, fits, most, ?_⟩
  rw [div_mul_cancel₀ _ (by positivity), div_mul_cancel₀ _ (by positivity), nearest.eq]

/-- Half of the last place. -/
theorem near_of_le (rounds : Rounds v w) (small : |v| ≤ 7) : |w - v| ≤ 1 / 2 / 10 ^ 28 := by
  obtain ⟨n, integer, nearest⟩ := rounds.units small
  have near := nearest.near
  rw [← integer, ← sub_mul, abs_mul, abs_sub_comm, abs_of_pos (by positivity : (0 : ℚ) < 10 ^ 28)] at near
  rwa [le_div_iff₀ (by positivity)]

end Rounds

theorem place_mono (positive : 0 < |v|) (le : |v| ≤ |w|) : place p v ≤ place p w := by
  unfold place
  have logs := Int.log_mono_right (b := 10) positive le
  omega

/-- Where the first digits are at different places a power of ten lies between the numbers. -/
theorem roundAt_place_mono (digits : 0 < p) (nonneg : 0 ≤ v) (le : v ≤ w) :
    roundAt (place p v) v ≤ roundAt (place p w) w := by
  rcases nonneg.eq_or_lt with rfl | positive
  · rw [roundAt_zero, ← roundAt_zero (place p w)]
    exact roundAt_mono le
  have above : 0 < w := positive.trans_le le
  have order : place p v ≤ place p w :=
    place_mono (abs_pos.mpr positive.ne') (abs_le_abs_of_nonneg nonneg le)
  rcases order.eq_or_lt with same | less
  · rw [same]
    exact roundAt_mono le
  · have first := lt_pow_place p v
    have second := pow_place_le (p := p) above.ne'
    rw [abs_of_pos positive] at first
    rw [abs_of_pos above] at second
    calc roundAt (place p v) v ≤ roundAt (place p v) (10 ^ (place p v + p)) := roundAt_mono first.le
      _ = 10 ^ (place p v + p) := roundAt_of_onGrid (onGrid_pow (by omega))
      _ ≤ 10 ^ (place p w + p - 1) := tenPow_le (by omega)
      _ = roundAt (place p w) (10 ^ (place p w + p - 1)) := (roundAt_of_onGrid (onGrid_pow (by omega))).symm
      _ ≤ roundAt (place p w) w := roundAt_mono second

theorem roundAt_nonneg (e : ℤ) (nonneg : 0 ≤ v) : 0 ≤ roundAt e v := by
  rw [← roundAt_zero e]
  exact roundAt_mono nonneg

variable {a b d : Decimal}

theorem roundTo_cases (nonneg : 0 ≤ d.value) (precision : ℕ) :
    let n := roundAt (place (digitsKept precision) d.value) d.value
    n < capacity ∧ (d.roundTo precision).value = n ∨ capacity ≤ n ∧ d.roundTo precision = d := by
  intro n
  obtain ⟨small, large⟩ := value_roundTo precision d
  rw [abs_of_nonneg (roundAt_nonneg _ nonneg)] at small large
  rcases lt_or_ge n capacity with fits | more
  · exact .inl ⟨fits, small fits⟩
  · exact .inr ⟨more, large more⟩

/-- A decimal whose rounding is too large stays as it is, above what is rounded before it. -/
theorem roundTo_mono (nonneg : 0 ≤ a.value) (le : a.value ≤ b.value) (precision : ℕ) :
    (a.roundTo precision).value ≤ (b.roundTo precision).value := by
  have digits := digitsKept_pos precision
  have order := roundAt_place_mono digits nonneg le
  rcases roundTo_cases (nonneg.trans le) precision with ⟨fits, rounded'⟩ | ⟨large, same'⟩
  · rcases roundTo_cases nonneg precision with ⟨_, rounded⟩ | ⟨large, _⟩
    · rw [rounded, rounded']
      exact order
    · exact absurd (large.trans order) (not_le.mpr fits)
  · rw [same']
    rcases roundTo_cases nonneg precision with ⟨fits, rounded⟩ | ⟨_, same⟩
    · rw [rounded]
      -- Otherwise the digits of the smaller rounding are nearer than those that are too large.
      by_contra above
      have nearest := (nearestDigits_roundAt digits b.value).nearest _ (nearestDigits_roundAt digits a.value).digits
      rw [abs_sub_comm, abs_of_nonneg (by linarith), abs_sub_comm, abs_of_nonneg (by linarith)] at nearest
      linarith
    · rw [same]
      exact le

theorem roundTo_nonneg (nonneg : 0 ≤ d.value) (precision : ℕ) : 0 ≤ (d.roundTo precision).value := by
  rcases roundTo_cases nonneg precision with ⟨_, rounded⟩ | ⟨_, same⟩
  · rw [rounded]
    exact roundAt_nonneg _ nonneg
  · rw [same]
    exact nonneg

theorem roundTo_le_natCast {n precision : ℕ} (few : digitCount n ≤ digitsKept precision) (nonneg : 0 ≤ d.value)
    (most : d.value ≤ n) : (d.roundTo precision).value ≤ n := by
  have order := roundTo_mono nonneg (most.trans_eq (value_ofNat n).symm) precision
  have kept : (ofNat n).roundTo precision = ofNat n := roundTo_of_short few
  rw [kept, value_ofNat] at order
  exact order

end StackCalculator.Decimal

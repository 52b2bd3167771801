import StackCalculator.Proofs.Quotients

/-! How far a number of the format is from the one it stands for. Its places are those of
the largest coefficient that fits, so the error is half of the last place where all places
fit, and a small part of the number where they do not. -/
namespace StackCalculator.Decimal
variable {v w : ℚ} {t : ℕ}

theorem FitsAt.of_abs_le (fits : FitsAt w t) (le : |v| ≤ |w|) : FitsAt v t := by
  refine (natAbs_nearestInt_mono ?_).trans_lt fits
  rw [abs_mul, abs_mul]
  gcongr

/-- Below the last coefficient a number fits. -/
theorem fitsAt_of_lt (nonneg : 0 ≤ v) (small : v * 10 ^ t ≤ capacity - 1) : FitsAt v t := by
  have most : nearestInt (v * 10 ^ t) ≤ capacity - 1 := by
    rw [← nearestInt_intCast (capacity - 1)]
    exact nearestInt_mono (by exact_mod_cast small)
  have least : 0 ≤ nearestInt (v * 10 ^ t) := by
    rw [← nearestInt_intCast 0]
    exact nearestInt_mono (by push_cast; positivity)
  unfold FitsAt
  omega

theorem lt_of_not_fitsAt (nonneg : 0 ≤ v) (full : ¬FitsAt v t) : capacity - 1 < v * 10 ^ t := by
  by_contra small
  exact full (fitsAt_of_lt nonneg (not_lt.mp small))

/-- The most places at which the coefficient fits. -/
structure HasPlaces (v : ℚ) (t : ℕ) : Prop where
  le : t ≤ maxScale
  fits : FitsAt v t
  most : t = maxScale ∨ ¬FitsAt v (t + 1)

namespace Rounds

theorem scaled (rounds : Rounds v w) (places : HasPlaces v t) : w * 10 ^ t = nearestInt (v * 10 ^ t) := by
  have nearest : Rounds v (nearestInt (v * 10 ^ t) / 10 ^ t) :=
    ⟨t, places.le, places.fits, places.most, div_mul_cancel₀ _ (by positivity)⟩
  rw [rounds.unique nearest, div_mul_cancel₀ _ (by positivity)]

theorem nearestEven (rounds : Rounds v w) (places : HasPlaces v t) :
    ∃ n : ℤ, w * 10 ^ t = n ∧ NearestEven (v * 10 ^ t) n :=
  ⟨_, rounds.scaled places, nearestEven_nearestInt _⟩

theorem nonneg (rounds : Rounds v w) (nonneg : 0 ≤ v) : 0 ≤ w := by
  obtain ⟨t, _, _, _, nearest⟩ := rounds
  have least : 0 ≤ nearestInt (v * 10 ^ t) := by
    rw [← nearestInt_intCast 0]
    exact nearestInt_mono (by push_cast; positivity)
  have scaled : 0 ≤ w * 10 ^ t := nearest ▸ Int.cast_nonneg least
  exact nonneg_of_mul_nonneg_left scaled (by positivity)

/-- Half of the last place is left, or as small a part of the number where a digit more
does not fit. -/
theorem near (rounds : Rounds v w) (nonneg : 0 ≤ v) : |w - v| ≤ (1 / 2 + v) / 10 ^ 28 := by
  obtain ⟨t, le, _, most, nearest⟩ := rounds
  have close := (nearestEven_nearestInt (v * 10 ^ t)).near
  rw [← nearest, abs_sub_comm, ← sub_mul, abs_mul, abs_of_pos (by positivity : (0 : ℚ) < 10 ^ t)] at close
  have half : (10 : ℚ) ^ 28 ≤ 2 * (1 / 2 + v) * 10 ^ t := by
    rcases most with rfl | full
    · change (10 : ℚ) ^ 28 ≤ 2 * (1 / 2 + v) * 10 ^ 28
      linarith
    · have large := lt_of_not_fitsAt nonneg full
      rw [capacity_cast, pow_succ] at large
      have power : (0 : ℚ) < 10 ^ t := by positivity
      norm_num at large ⊢
      linarith
  rw [le_div_iff₀ (by positivity)]
  calc |w - v| * 10 ^ 28 ≤ |w - v| * (2 * (1 / 2 + v) * 10 ^ t) := by gcongr
    _ = 2 * (1 / 2 + v) * (|w - v| * 10 ^ t) := by ring
    _ ≤ 2 * (1 / 2 + v) * (1 / 2) := by gcongr
    _ = 1 / 2 + v := by ring

end Rounds

end StackCalculator.Decimal

import StackCalculator.Proofs.Format
import Mathlib

/-! Rounding as a property of rational numbers. The integer nearest to a number is unique,
moves with the number and changes sign with it; `halfEven` finds it from any fraction for
the number. A number of the format that stands for a rational has as many places as the
coefficient allows, so it is told by the rational and not by the way it was computed. -/
namespace StackCalculator.Decimal

/-- An integer nearest to a rational, the even one halfway. -/
structure NearestEven (v : ℚ) (n : ℤ) : Prop where
  near : |v - n| ≤ 1 / 2
  even : |v - n| = 1 / 2 → Even n

namespace NearestEven
variable {v w : ℚ} {m n : ℤ}

theorem intCast (n : ℤ) : NearestEven n n := by
  constructor
  · norm_num
  · norm_num

theorem neg (nearest : NearestEven v n) : NearestEven (-v) (-n) := by
  have same : |(-v) - ((-n : ℤ) : ℚ)| = |v - n| := by
    rw [← abs_neg (v - n)]
    push_cast
    congr 1
    ring
  constructor
  · exact same ▸ nearest.near
  · intro half
    exact (nearest.even (same ▸ half)).neg

/-- Two integers nearest to numbers in order are in order: a step down would be one of a
single unit between two halves, and then both would be even. -/
theorem mono (le : v ≤ w) (first : NearestEven v m) (second : NearestEven w n) : m ≤ n := by
  by_contra above
  have step : n + 1 ≤ m := by omega
  have apart : (n : ℚ) + 1 ≤ m := by exact_mod_cast step
  obtain ⟨_, upper⟩ := abs_le.mp second.near
  obtain ⟨lower, _⟩ := abs_le.mp first.near
  have low : v - m = -(1 / 2) := by linarith
  have high : w - n = 1 / 2 := by linarith
  have next : m = n + 1 := by
    have : (m : ℚ) = n + 1 := by linarith
    exact_mod_cast this
  have evens : Even m ∧ Even n := by
    refine ⟨first.even ?_, second.even ?_⟩
    · rw [low, abs_neg, abs_of_pos one_half_pos]
    · rw [high, abs_of_pos one_half_pos]
  obtain ⟨⟨i, rfl⟩, ⟨j, rfl⟩⟩ := evens
  omega

theorem unique (first : NearestEven v m) (second : NearestEven v n) : m = n :=
  le_antisymm (mono le_rfl first second) (mono le_rfl second first)

end NearestEven

theorem nearestEven_halfEven {num den : Nat} (positive : 0 < den) :
    NearestEven (num / den : ℚ) (halfEven num den : ℤ) := by
  have unit : (0 : ℚ) < den := by exact_mod_cast positive
  have parts : (num / den : ℚ) = (num / den : ℕ) + (num % den : ℕ) / den := by
    rw [div_eq_iff unit.ne', add_mul, div_mul_cancel₀ _ unit.ne', mul_comm]
    exact_mod_cast (Nat.div_add_mod num den).symm
  have rest : (0 : ℚ) ≤ (num % den : ℕ) / den := by positivity
  have short : ((num % den : ℕ) / den : ℚ) < 1 := by
    rw [div_lt_one unit]
    exact_mod_cast Nat.mod_lt num positive
  have half : ((num % den : ℕ) / den : ℚ) = 1 / 2 ↔ 2 * (num % den) = den := by
    rw [div_eq_div_iff unit.ne' two_ne_zero, mul_comm, one_mul]
    exact_mod_cast Iff.rfl
  have more : (1 / 2 : ℚ) < (num % den : ℕ) / den ↔ den < 2 * (num % den) := by
    rw [div_lt_div_iff₀ two_pos unit, one_mul, mul_comm]
    exact_mod_cast Iff.rfl
  rw [parts]
  unfold halfEven
  clear parts
  generalize num / den = q, num % den = r at *
  split
  · next up =>
    have least : (1 / 2 : ℚ) ≤ r / den := by
      rcases up with above | ⟨equal, _⟩
      · exact (more.mpr above).le
      · exact (half.mpr equal).ge
    have away : (q + r / den : ℚ) - ((q + 1 : ℕ) : ℤ) = -(1 - r / den) := by
      push_cast
      ring
    constructor
    · rw [away, abs_neg, abs_of_pos (by linarith)]
      linarith
    · intro tie
      rw [away, abs_neg, abs_of_pos (by linarith)] at tie
      have equal : 2 * r = den := half.mp (by linarith)
      rcases up with above | ⟨_, odd⟩
      · omega
      · rw [Int.natCast_succ, Int.even_add_one, Int.not_even_iff_odd]
        exact_mod_cast Nat.odd_iff.mpr odd
  · next down =>
    have most : (r / den : ℚ) ≤ 1 / 2 := by
      rw [← not_lt, more]
      exact fun above => down (.inl above)
    have away : (q + r / den : ℚ) - ((q : ℕ) : ℤ) = r / den := by
      push_cast
      ring
    constructor
    · rwa [away, abs_of_nonneg rest]
    · intro tie
      rw [away, abs_of_nonneg rest] at tie
      have equal : 2 * r = den := half.mp tie
      have even : ¬q % 2 = 1 := fun odd => down (.inr ⟨equal, odd⟩)
      exact_mod_cast Nat.even_iff.mpr (by omega)

/-- The integer nearest to `v`; halfway, the even one. -/
def nearestInt (v : ℚ) : ℤ := v.num.sign * halfEven v.num.natAbs v.den

theorem nearestEven_nearestInt (v : ℚ) : NearestEven v (nearestInt v) := by
  have fraction : |v| = (v.num.natAbs : ℚ) / v.den := by
    rw [Rat.abs_def, Rat.divInt_eq_div]
    rfl
  have magnitude : NearestEven |v| (halfEven v.num.natAbs v.den : ℤ) := by
    rw [fraction]
    exact nearestEven_halfEven v.den_pos
  unfold nearestInt
  rcases lt_trichotomy v 0 with negative | rfl | positive
  · rw [Int.sign_eq_neg_one_of_neg (Rat.num_neg.mpr negative), neg_one_mul]
    rw [abs_of_neg negative] at magnitude
    simpa using magnitude.neg
  · exact .intCast 0
  · rw [Int.sign_eq_one_of_pos (Rat.num_pos.mpr positive), one_mul]
    rwa [abs_of_pos positive] at magnitude

variable {v w : ℚ} {n : ℤ}

theorem NearestEven.eq (nearest : NearestEven v n) : nearestInt v = n :=
  (nearestEven_nearestInt v).unique nearest

theorem nearestInt_div {num den : Nat} (positive : 0 < den) :
    nearestInt (num / den) = halfEven num den := (nearestEven_halfEven positive).eq

theorem nearestInt_intCast (n : ℤ) : nearestInt n = n := (NearestEven.intCast n).eq

theorem nearestInt_neg (v : ℚ) : nearestInt (-v) = -nearestInt v :=
  (nearestEven_nearestInt v).neg.eq

theorem nearestInt_mono (le : v ≤ w) : nearestInt v ≤ nearestInt w :=
  (nearestEven_nearestInt v).mono le (nearestEven_nearestInt w)

theorem nearestInt_abs (v : ℚ) : nearestInt |v| = |nearestInt v| := by
  rcases le_total 0 v with nonneg | nonpos
  · have above : 0 ≤ nearestInt v := (nearestInt_intCast 0) ▸ nearestInt_mono (by simpa using nonneg)
    rw [abs_of_nonneg nonneg, abs_of_nonneg above]
  · have below : nearestInt v ≤ 0 := (nearestInt_intCast 0) ▸ nearestInt_mono (by simpa using nonpos)
    rw [abs_of_nonpos nonpos, abs_of_nonpos below, nearestInt_neg]

theorem natAbs_nearestInt_mono (le : |v| ≤ |w|) :
    (nearestInt v).natAbs ≤ (nearestInt w).natAbs := by
  have magnitudes : |nearestInt v| ≤ |nearestInt w| := by
    rw [← nearestInt_abs, ← nearestInt_abs]
    exact nearestInt_mono le
  rw [Int.abs_eq_natAbs, Int.abs_eq_natAbs] at magnitudes
  exact_mod_cast magnitudes

theorem capacity_cast {K : Type} [Semiring K] : (capacity : K) = 79228162514264337593543950336 :=
  Nat.cast_ofNat

theorem capacity_eq_pow : (capacity : ℚ) = 2 ^ 96 := by
  rw [capacity_cast]
  norm_num

/-- A coefficient of the format is nearest to `v` when `t` digits follow the point. -/
def FitsAt (v : ℚ) (t : ℕ) : Prop := (nearestInt (v * 10 ^ t)).natAbs < capacity

/-- No coefficient is large enough even without digits after the point. -/
def Overflows (v : ℚ) : Prop := ¬FitsAt v 0

/-- `w` is the number nearest to `v` with `t` places, the most that fit. -/
structure RoundsAt (v w : ℚ) (t : ℕ) : Prop where
  le : t ≤ maxScale
  fits : FitsAt v t
  most : t = maxScale ∨ ¬FitsAt v (t + 1)
  nearest : w * 10 ^ t = nearestInt (v * 10 ^ t)

/-- `w` is the number of the format that stands for `v`. -/
def Rounds (v w : ℚ) : Prop := ∃ t, RoundsAt v w t

theorem FitsAt.of_le {s t : ℕ} (fits : FitsAt v t) (le : s ≤ t) : FitsAt v s := by
  refine (natAbs_nearestInt_mono ?_).trans_lt fits
  rw [abs_mul, abs_mul]
  have powers : |(10 : ℚ) ^ s| ≤ |(10 : ℚ) ^ t| := by
    rw [abs_of_pos (by positivity), abs_of_pos (by positivity)]
    exact pow_le_pow_right₀ (by norm_num) le
  gcongr

/-- From any number of places that fits more are taken until the last or until no more fit. -/
theorem FitsAt.exists_most {s : ℕ} (fits : FitsAt v s) (le : s ≤ maxScale) :
    ∃ t, s ≤ t ∧ t ≤ maxScale ∧ FitsAt v t ∧ (t = maxScale ∨ ¬FitsAt v (t + 1)) := by
  obtain ⟨left, total⟩ := Nat.exists_eq_add_of_le le
  induction left generalizing s with
  | zero => exact ⟨s, le_rfl, le, fits, .inl total.symm⟩
  | succ left ih =>
    by_cases more : FitsAt v (s + 1)
    · obtain ⟨t, above, found⟩ := ih more (by omega) (by omega)
      exact ⟨t, by omega, found⟩
    · exact ⟨s, le_rfl, le, fits, .inr more⟩

theorem RoundsAt.places_le {w w' : ℚ} {t t' : ℕ} (first : RoundsAt v w t)
    (second : RoundsAt v w' t') : t' ≤ t := by
  by_contra more
  rcases first.most with last | full
  · exact absurd second.le (by omega)
  · exact full (second.fits.of_le (by omega))

namespace Rounds
variable {w' : ℚ}

theorem unique (first : Rounds v w) (second : Rounds v w') : w = w' := by
  obtain ⟨t, first⟩ := first
  obtain ⟨t', second⟩ := second
  obtain rfl : t = t' := le_antisymm (second.places_le first) (first.places_le second)
  have scaled : w * 10 ^ t = w' * 10 ^ t := first.nearest.trans second.nearest.symm
  exact mul_right_cancel₀ (by positivity) scaled

theorem not_overflows (rounds : Rounds v w) : ¬Overflows v := by
  obtain ⟨t, rounds⟩ := rounds
  exact not_not_intro (rounds.fits.of_le (Nat.zero_le t))

theorem neg (rounds : Rounds v w) : Rounds (-v) (-w) := by
  obtain ⟨t, le, fits, most, nearest⟩ := rounds
  have mirrored : ∀ t, FitsAt (-v) t ↔ FitsAt v t := by
    intro t
    rw [FitsAt, neg_mul, nearestInt_neg, Int.natAbs_neg, FitsAt]
  refine ⟨t, le, (mirrored t).mpr fits, ?_, ?_⟩
  · rwa [mirrored]
  · rw [neg_mul, neg_mul, nearest, nearestInt_neg]
    push_cast
    rfl

/-- A number that the format has stands for itself. -/
theorem exact {n : ℤ} {s : ℕ} (small : n.natAbs < capacity) (le : s ≤ maxScale)
    (equal : v * 10 ^ s = n) : Rounds v v := by
  have fits : FitsAt v s := by rwa [FitsAt, equal, nearestInt_intCast]
  obtain ⟨t, more, bound, found, most⟩ := fits.exists_most le
  refine ⟨t, bound, found, most, ?_⟩
  have whole : v * 10 ^ t = (n * 10 ^ (t - s) : ℤ) := by
    push_cast
    rw [← equal, mul_assoc, ← pow_add, Nat.add_sub_cancel' more]
  rw [whole, nearestInt_intCast]

end Rounds

end StackCalculator.Decimal

import StackCalculator.Decimal.SquareRoot
import StackCalculator.Proofs.Places

/-! Estimates of a square root. The exact mean of an estimate and its quotient is not below
the root and at most half as far from it; rounding adds a few of the last places to that.
So all estimates of the root of a positive number exist, none of them is small against the
root, and after some hundred of them the distance is that of the roundings alone. -/
namespace StackCalculator.Decimal

/-- The quotient, the sum and the half on the way from an estimate `r` to the next one. -/
structure Improves (a r q s h : ℚ) : Prop where
  quotient : Rounds (a / r) q
  sum : Rounds (r + q) s
  half : Rounds (s / 2) h

theorem Computes.exists_of_le {v : ℚ} {result : Option Decimal} (computed : Computes v (result.map value))
    (nonneg : 0 ≤ v) (small : v ≤ capacity - 1) : ∃ d, result = some d ∧ Rounds v d.value := by
  cases result with
  | none => exact absurd (fitsAt_of_lt nonneg (by rwa [pow_zero, mul_one])) computed
  | some d => exact ⟨d, rfl, computed⟩

theorem improveRoot?_improves {a r : Decimal} (first : a.WellFormed) (second : r.WellFormed)
    (nonneg : 0 ≤ a.value) (positive : 0 < r.value) (small : r.value + a.value / r.value ≤ 5 * 10 ^ 28) :
    ∃ h, improveRoot? a r = some h ∧ h.WellFormed ∧ ∃ q s, Improves a.value r.value q s h.value := by
  have nonzero : r.isZero = false := isZero_eq_false positive.ne'
  have ratio : 0 ≤ a.value / r.value := by positivity
  have two_nonzero : two.isZero = false := rfl
  norm_num at small
  obtain ⟨q, divided, quotient⟩ := (div?_computes first nonzero).exists_of_le ratio
    (by rw [capacity_cast]; linarith)
  have kept : q.WellFormed := div?_wellFormed first r q divided
  have least := quotient.nonneg ratio
  have close := (abs_le.mp (quotient.near ratio)).2
  obtain ⟨s, added, sum⟩ := (add?_computes second kept).exists_of_le (by positivity)
    (by rw [capacity_cast]; linarith)
  have fits : s.WellFormed := add?_wellFormed second kept s added
  have above := sum.nonneg (by positivity)
  have close := (abs_le.mp (sum.near (by positivity))).2
  have halved := div?_computes fits two_nonzero
  rw [value_two] at halved
  obtain ⟨h, halves, half⟩ := halved.exists_of_le (by positivity) (by rw [capacity_cast]; linarith)
  refine ⟨h, ?_, div?_wellFormed fits two h halves, q.value, s.value, quotient, sum, half⟩
  simp only [improveRoot?, divided, added, halves, Option.bind_eq_bind, Option.bind_some]

namespace Improves
variable {a r q s h : ℚ} {x : ℝ}

/-- The roundings of one improvement, measured by the sum before it is halved. -/
theorem near (improves : Improves a r q s h) (nonneg : 0 ≤ a) (positive : 0 < r) :
    |h - (r + a / r) / 2| ≤ 2 * (1 + (r + a / r)) / 10 ^ 28 := by
  have ratio : 0 ≤ a / r := by positivity
  have above := improves.quotient.nonneg ratio
  have total := improves.sum.nonneg (by positivity)
  have first := abs_le.mp (improves.quotient.near ratio)
  have second := abs_le.mp (improves.sum.near (by positivity))
  have third := abs_le.mp (improves.half.near (by positivity))
  rw [abs_le]
  norm_num at first second third ⊢
  constructor
  · linarith
  · linarith

theorem near_real (improves : Improves a r q s h) (nonneg : 0 ≤ a) (positive : 0 < r) :
    |(h : ℝ) - (r + a / r) / 2| ≤ 2 * (1 + (r + a / r)) / 10 ^ 28 := by
  exact_mod_cast improves.near nonneg positive

end Improves

section Mean
variable {x r : ℝ}

theorem le_mean (positive : 0 < r) : x ≤ (r + x * x / r) / 2 := by
  rw [le_div_iff₀ two_pos, ← sub_nonneg]
  have square : r + x * x / r - x * 2 = (r - x) ^ 2 / r := by
    field_simp
    ring
  rw [square]
  positivity

/-- Below the root too the mean is at most half as far away, down to half of the root. -/
theorem mean_le (positive : 0 < x) (half : x / 2 ≤ r) : (r + x * x / r) / 2 ≤ x + |r - x| / 2 := by
  have above : 0 < r := by linarith
  have excess : (r + x * x / r) / 2 - x = (r - x) ^ 2 / (2 * r) := by
    field_simp
    ring
  have part : (r - x) ^ 2 / (2 * r) ≤ |r - x| / 2 := by
    rw [div_le_div_iff₀ (by positivity) two_pos, ← sq_abs]
    have distance : |r - x| ≤ r := abs_le.mpr ⟨by linarith, by linarith⟩
    nlinarith [abs_nonneg (r - x)]
  linarith

end Mean

namespace Improves
variable {a r q s h : ℚ} {x : ℝ}

theorem half_le (improves : Improves a r q s h) (root : x * x = a) (least : 1 / 10 ^ 14 ≤ x) (positive : 0 < r) :
    x / 2 ≤ h := by
  have nonneg : 0 ≤ a := by exact_mod_cast root ▸ mul_self_nonneg x
  have above : (0 : ℝ) < r := by exact_mod_cast positive
  have mean := le_mean (x := x) above
  have near := abs_le.mp (improves.near_real nonneg positive)
  rw [← root] at near
  norm_num at near least
  linarith

theorem approaches (improves : Improves a r q s h) (root : x * x = a) (positive : 0 < x) (half : x / 2 ≤ r) :
    |(h : ℝ) - x| ≤ 3 / 4 * |(r : ℝ) - x| + 2 * (1 + 2 * x) / 10 ^ 28 := by
  have nonneg : 0 ≤ a := by exact_mod_cast root ▸ mul_self_nonneg x
  have above : (0 : ℝ) < r := by linarith
  have least := le_mean (x := x) above
  have most := mean_le positive half
  have near := abs_le.mp (improves.near_real nonneg (by exact_mod_cast above))
  have distance := abs_nonneg ((r : ℝ) - x)
  rw [← root] at near
  rw [abs_le]
  norm_num at near ⊢
  constructor
  · linarith
  · linarith

end Improves

/-- The estimate after `n` improvements of the first one. -/
def estimate? (a : Decimal) : ℕ → Option Decimal
  | 0 => rootEstimate? a
  | n + 1 => (estimate? a n).bind (improveRoot? a)

def estimate (a : Decimal) (n : ℕ) : Decimal := (estimate? a n).getD zero

/-- `x` is the root of `a`, a positive number of the format. -/
structure RootOf (a : Decimal) (x : ℝ) : Prop where
  wellFormed : a.WellFormed
  square : x * x = a.value
  least : 1 / 10 ^ 14 ≤ x
  most : x ≤ 10 ^ 15

/-- An estimate for `x` after `n` improvements of one with error `5 * 10 ^ 28`. -/
structure Approximates (x : ℝ) (n : ℕ) (r : Decimal) : Prop where
  wellFormed : r.WellFormed
  half : x / 2 ≤ r.value
  near : |(r.value : ℝ) - x| ≤ (3 / 4) ^ n * (4 * 10 ^ 28) + 8 * (1 + 2 * x) / 10 ^ 28

variable {a r : Decimal} {x : ℝ} {n : ℕ}

theorem WellFormed.value_le (wellFormed : a.WellFormed) : a.value ≤ capacity - 1 := by
  have succ : (a.coefficient : ℚ) + 1 ≤ capacity := by exact_mod_cast wellFormed.coefficient_lt
  calc a.value ≤ |a.value| := le_abs_self _
    _ = a.coefficient / 10 ^ a.scale := abs_value a
    _ ≤ a.coefficient := div_le_self (by positivity) (one_le_pow₀ (by norm_num))
    _ ≤ capacity - 1 := by linarith

theorem WellFormed.le_value (wellFormed : a.WellFormed) (positive : 0 < a.value) : 1 / 10 ^ 28 ≤ a.value := by
  have nonzero : a.isZero = false := isZero_eq_false positive.ne'
  have some : (1 : ℚ) ≤ a.coefficient := by exact_mod_cast coefficient_pos nonzero
  rw [← abs_of_pos positive, abs_value]
  exact div_le_div₀ (by positivity) some (by positivity)
    (pow_le_pow_right₀ (by norm_num) wellFormed.scale_le)

theorem rootOf_sqrt (wellFormed : a.WellFormed) (positive : 0 < a.value) : RootOf a √(a.value : ℝ) := by
  have most : (a.value : ℝ) ≤ capacity - 1 := by exact_mod_cast wellFormed.value_le
  have least := (Rat.cast_le (K := ℝ)).mpr (wellFormed.le_value positive)
  push_cast at least
  refine ⟨wellFormed, Real.mul_self_sqrt (by exact_mod_cast positive.le), ?_, ?_⟩
  · refine Real.le_sqrt_of_sq_le (le_trans (le_of_eq ?_) least)
    norm_num
  · refine Real.sqrt_le_iff.mpr ⟨by norm_num, most.trans ?_⟩
    rw [capacity_cast]
    norm_num

namespace RootOf

theorem positive (root : RootOf a x) : 0 < x := lt_of_lt_of_le (by norm_num) root.least

theorem value_pos (root : RootOf a x) : 0 < a.value := by
  have square : (0 : ℝ) < a.value := root.square ▸ mul_pos root.positive root.positive
  exact_mod_cast square

/-- The quotient of an estimate that is not small against the root. -/
theorem div_le (root : RootOf a x) {r : ℚ} (half : x / 2 ≤ r) : (a.value / r : ℝ) ≤ 2 * x := by
  have positive := root.positive
  have above : (0 : ℝ) < r := by linarith
  rw [div_le_iff₀ above, ← root.square]
  nlinarith

/-- Every estimate has a next one, which is closer. -/
theorem improves (root : RootOf a x) (approximates : Approximates x n r) :
    ∃ h, improveRoot? a r = some h ∧ Approximates x (n + 1) h ∧
      ∃ q s, Improves a.value r.value q s h.value := by
  have most := root.most
  have least := root.positive
  have above : (0 : ℝ) < r.value := by linarith [approximates.half]
  have positive : 0 < r.value := by exact_mod_cast above
  have near := approximates.near
  have power : (3 / 4 : ℝ) ^ n ≤ 1 := pow_le_one₀ (by norm_num) (by norm_num)
  have ratio := root.div_le approximates.half
  have small : r.value + a.value / r.value ≤ 5 * 10 ^ 28 := by
    have upper := (abs_le.mp near).2
    have sum : (r.value : ℝ) + a.value / r.value ≤ 5 * 10 ^ 28 := by
      norm_num at upper most ⊢
      linarith
    exact_mod_cast sum
  obtain ⟨h, found, wellFormed, q, s, improves⟩ :=
    improveRoot?_improves root.wellFormed approximates.wellFormed root.value_pos.le positive small
  refine ⟨h, found, ⟨wellFormed, improves.half_le root.square root.least positive, ?_⟩, q, s, improves⟩
  have closer := improves.approaches root.square least approximates.half
  rw [pow_succ]
  linarith

/-- The first estimate may be far off to both sides, but neither it nor its quotient is too large. -/
theorem rootEstimate? (root : RootOf a x) :
    ∃ r, rootEstimate? a = some r ∧ r.WellFormed ∧ 0 < r.value ∧ r.value ≤ 4 * 10 ^ 28 ∧
      a.value ≤ 4 * r.value := by
  have positive := root.value_pos
  have most := root.wellFormed.value_le
  have halved := div?_computes root.wellFormed (b := two) rfl
  rw [value_two] at halved
  obtain ⟨half, divided, rounds⟩ := halved.exists_of_le (by positivity) (by linarith)
  have kept : half.WellFormed := div?_wellFormed root.wellFormed two half divided
  have near := abs_le.mp (rounds.near (by positivity))
  have nonneg := rounds.nonneg (by positivity)
  rw [capacity_cast] at most
  norm_num at near
  cases zero : half.isZero with
  | true =>
    have vanishes := isZero_iff.mp zero
    refine ⟨a, ?_, root.wellFormed, positive, ?_, by linarith⟩
    · simp only [Decimal.rootEstimate?, divided, Option.bind_eq_bind, Option.bind_some, zero, if_true,
        Option.pure_def]
    · norm_num
      linarith
  | false =>
    have above : 0 < half.value := lt_of_le_of_ne nonneg (value_ne_zero zero).symm
    have least := kept.le_value above
    norm_num at least
    refine ⟨half, ?_, kept, above, ?_, ?_⟩
    · simp only [Decimal.rootEstimate?, divided, Option.bind_eq_bind, Option.bind_some, zero, Bool.false_eq_true,
        if_false, Option.pure_def]
    · norm_num
      linarith
    · linarith

theorem first (root : RootOf a x) : ∃ r h, Decimal.rootEstimate? a = some r ∧ r.WellFormed ∧
    improveRoot? a r = some h ∧ Approximates x 0 h := by
  obtain ⟨r, started, start, positive, most, ratio⟩ := root.rootEstimate?
  have nonneg := root.value_pos.le
  have quotient : a.value / r.value ≤ 4 := by rwa [div_le_iff₀ positive]
  have least : 0 ≤ a.value / r.value := by positivity
  have small : r.value + a.value / r.value ≤ 5 * 10 ^ 28 := by
    norm_num at most ⊢
    linarith
  obtain ⟨h, found, wellFormed, q, s, improves⟩ :=
    improveRoot?_improves root.wellFormed start nonneg positive small
  have half := improves.half_le root.square root.least positive
  have above := root.positive
  have far := root.most
  have near : h.value ≤ 3 * 10 ^ 28 := by
    have upper := (abs_le.mp (improves.near nonneg positive)).2
    norm_num at upper most ⊢
    linarith
  have near : (h.value : ℝ) ≤ 3 * 10 ^ 28 := by exact_mod_cast near
  refine ⟨r, h, started, start, found, wellFormed, half, ?_⟩
  rw [abs_le, pow_zero]
  norm_num at near far ⊢
  constructor
  · linarith
  · linarith

end RootOf

/-- All estimates exist, and they approach the root. -/
theorem estimate_approximates (root : RootOf a x) (n : ℕ) :
    estimate? a (n + 1) = some (estimate a (n + 1)) ∧ Approximates x n (estimate a (n + 1)) := by
  induction n with
  | zero =>
    obtain ⟨r, h, started, _, found, approximates⟩ := root.first
    have next : estimate? a 1 = some h := by
      simp only [estimate?, started, Option.bind_some, found]
    rw [estimate, next]
    exact ⟨rfl, approximates⟩
  | succ n ih =>
    obtain ⟨h, found, approximates, _⟩ := root.improves ih.2
    have next : estimate? a (n + 2) = some h := by
      rw [estimate?, ih.1, Option.bind_some, found]
    rw [estimate, next]
    exact ⟨rfl, approximates⟩

theorem estimate?_eq (root : RootOf a x) (n : ℕ) : estimate? a n = some (estimate a n) := by
  cases n with
  | zero =>
    obtain ⟨r, _, started, _⟩ := root.first
    rw [estimate, estimate?, started, Option.getD_some]
  | succ n => exact (estimate_approximates root n).1

theorem improveRoot?_estimate (root : RootOf a x) (n : ℕ) :
    improveRoot? a (estimate a n) = some (estimate a (n + 1)) := by
  have next := estimate?_eq root (n + 1)
  rwa [estimate?, estimate?_eq root n, Option.bind_some] at next

theorem estimate_wellFormed (root : RootOf a x) (n : ℕ) : (estimate a n).WellFormed := by
  cases n with
  | zero =>
    obtain ⟨r, _, started, wellFormed, _⟩ := root.first
    rwa [estimate, estimate?, started]
  | succ n => exact (estimate_approximates root n).2.wellFormed

theorem estimate_improves (root : RootOf a x) (n : ℕ) :
    ∃ q s, Improves a.value (estimate a (n + 1)).value q s (estimate a (n + 2)).value := by
  obtain ⟨h, found, _, improves⟩ := root.improves (estimate_approximates root n).2
  rw [improveRoot?_estimate root (n + 1)] at found
  rwa [Option.some.inj found]

end StackCalculator.Decimal

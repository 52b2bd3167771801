import StackCalculator.Proofs.Averaging
import StackCalculator.Proofs.Elementary

/-! Sine and cosine by full turns. The reduced angle is the residue of the angle, rounded: a
residue that remains is a number of the format, and one that is a remainder below zero and a
full turn is rounded as their sum. The residue alone decides it, so angles that differ by full
turns reduce to one number, and the conversion to radians sees nothing else. -/
namespace StackCalculator

theorem Decimal.isNegative_iff_lt {d : Decimal} : d.isNegative = true ↔ d.value < 0 := by
  cases zero : d.isZero with
  | true =>
    have none : d.isNegative = false := by simp only [isNegative, zero, Bool.not_true, Bool.and_false]
    rw [none, value_of_isZero zero]
    simp
  | false =>
    rw [← negative_iff zero, isNegative, zero, Bool.not_false, Bool.and_true]

namespace Angle
open Decimal

/-- What is left of an angle when full turns are taken from it or added. -/
def residue (v : ℚ) : ℚ := 360 * Int.fract (v / 360)

section Residues
variable {v w : ℚ} {k : ℤ}

theorem residue_eq (nonneg : 0 ≤ w) (less : w < 360) (turns : v - w = 360 * k) : residue v = w := by
  have part : Int.fract (v / 360) = w / 360 := by
    apply Int.fract_eq_iff.mpr
    refine ⟨by positivity, by linarith, k, ?_⟩
    rw [← sub_div, turns]
    exact mul_div_cancel_left₀ _ (by norm_num)
  rw [residue, part]
  exact mul_div_cancel₀ _ (by norm_num)

theorem residue_congr (turns : v - w = 360 * k) : residue v = residue w := by
  have whole : v / 360 - w / 360 = k := by
    rw [← sub_div, turns]
    exact mul_div_cancel_left₀ _ (by norm_num)
  rw [residue, residue, Int.fract_eq_fract.mpr ⟨k, whole⟩]

end Residues

variable {x x' angle : Decimal}

/-- The reduction gives the residue, rounded where it does not fit. -/
theorem reduce_rounds (wellFormed : x.WellFormed) :
    ∃ angle, reduce x = .ok angle ∧ angle.WellFormed ∧ Rounds (residue x.value) angle.value := by
  have nonzero : fullTurn.isZero = false := rfl
  have turn : fullTurn.value = 360 := value_ofNat 360
  obtain ⟨rest, found⟩ := Option.isSome_iff_exists.mp (rem?_isSome (a := x) nonzero)
  have kept : rest.WellFormed := rem?_wellFormed wellFormed fullTurn_wellFormed rest found
  have leaves := rem?_leaves x fullTurn rest found
  have small : |rest.value| < 360 := by
    have less := leaves.lt
    rwa [turn, abs_of_pos (show (0 : ℚ) < 360 by norm_num)] at less
  have turns : x.value - rest.value = 360 * truncated (x.value / 360) := by
    rw [leaves.exact (remainderExact_of_scale_le wellFormed (Nat.zero_le _)), turn, remainder, sub_sub_cancel]
  obtain ⟨above, below⟩ := abs_lt.mp small
  have opened : reduce x = if rest.isNegative then assumed (rest.add? fullTurn) else .ok rest := by
    rw [reduce, found]
    rfl
  rw [opened]
  cases negative : rest.isNegative with
  | false =>
    have nonneg : 0 ≤ rest.value := not_lt.mp fun below => by simp [isNegative_iff_lt.mpr below] at negative
    refine ⟨rest, rfl, kept, ?_⟩
    rw [residue_eq nonneg below turns]
    exact kept.rounds
  | true =>
    have less : rest.value < 0 := isNegative_iff_lt.mp negative
    have sum := add?_computes kept fullTurn_wellFormed
    rw [turn] at sum
    have inside : rest.value + 360 ≤ capacity - 1 := by
      rw [capacity_cast]
      linarith
    obtain ⟨angle, added, rounds⟩ := sum.exists_of_le (by linarith) inside
    have equal : residue x.value = rest.value + 360 := by
      apply residue_eq (k := truncated (x.value / 360) - 1) (by linarith) (by linarith)
      push_cast
      linarith
    refine ⟨angle, ?_, add?_wellFormed kept fullTurn_wellFormed angle added, equal ▸ rounds⟩
    rw [added]
    rfl

theorem reduce_alike_of_residue (first : x.WellFormed) (second : x'.WellFormed)
    (same : residue x.value = residue x'.value) : Agree Alike (reduce x) (reduce x') := by
  obtain ⟨angle, found, kept, rounds⟩ := reduce_rounds first
  obtain ⟨angle', found', kept', rounds'⟩ := reduce_rounds second
  rw [found, found']
  exact .ok ⟨kept, kept', rounds.unique (same ▸ rounds')⟩

theorem inRadians_eq (f? : Decimal → Option Decimal) (alike : Alike x x') : inRadians f? x = inRadians f? x' := by
  refine (recenter_alike alike).bind_eq fun centered centered' alike => ?_
  rw [toRadians_eq alike]

theorem sin_eq_of_reduce (alike : Agree Alike (reduce x) (reduce x')) : sin x = sin x' := by
  refine alike.bind_eq fun angle angle' alike => ?_
  have turn : ∀ n ≤ 360, angle.same (ofNat n) = angle'.same (ofNat n) :=
    fun n small => alike.same (alike_turn small)
  rw [alike.isZero, halfTurn, turn 180 (by decide), rightAngle, turn 90 (by decide), threeQuarterTurn,
    turn 270 (by decide), inRadians_eq _ alike]

theorem cos_eq_of_reduce (alike : Agree Alike (reduce x) (reduce x')) : cos x = cos x' := by
  refine alike.bind_eq fun angle angle' alike => ?_
  have turn : ∀ n ≤ 360, angle.same (ofNat n) = angle'.same (ofNat n) :=
    fun n small => alike.same (alike_turn small)
  rw [alike.isZero, halfTurn, turn 180 (by decide), rightAngle, turn 90 (by decide), threeQuarterTurn,
    turn 270 (by decide), inRadians_eq _ alike]

/-- The sine of so many right angles. -/
def quarterSine (k : ℤ) : Decimal :=
  if k % 4 = 1 then one else if k % 4 = 3 then minusOne else .zero

theorem quarterSine_emod (k : ℤ) : quarterSine (k % 4) = quarterSine k := by
  rw [quarterSine, quarterSine, Int.emod_emod_of_dvd k (dvd_refl 4)]

/-- As many quarters as leave the same of a full turn. -/
theorem quarters_of_emod {k : ℤ} (wellFormed : x.WellFormed) (equal : x.value = 90 * k) :
    ∃ n : ℕ, n < 4 ∧ k % 4 = n ∧ Agree Alike (reduce x) (reduce (ofNat (90 * n))) := by
  have nonneg : 0 ≤ k % 4 := Int.emod_nonneg k (by decide)
  have less : k % 4 < 4 := Int.emod_lt_of_pos k (by decide)
  obtain ⟨n, quarters⟩ := Int.eq_ofNat_of_zero_le nonneg
  have small : n < 4 := by omega
  refine ⟨n, small, quarters, reduce_alike_of_residue wellFormed (turn_wellFormed (by omega)) ?_⟩
  have parts : (k : ℚ) = 4 * (k / 4 : ℤ) + n := by
    exact_mod_cast (by omega : k = 4 * (k / 4) + n)
  apply residue_congr (k := k / 4)
  rw [equal, value_ofNat, parts]
  push_cast
  ring

theorem sin_cos_quarters {k : ℤ} (wellFormed : x.WellFormed) (equal : x.value = 90 * k) :
    sin x = .ok (quarterSine k) ∧ cos x = .ok (quarterSine (k + 1)) := by
  obtain ⟨n, small, quarters, alike⟩ := quarters_of_emod wellFormed equal
  have next : (k + 1) % 4 = ((n : ℤ) + 1) % 4 := by omega
  rw [sin_eq_of_reduce alike, cos_eq_of_reduce alike, ← quarterSine_emod k, ← quarterSine_emod (k + 1), quarters, next]
  interval_cases n <;> decide +kernel

/-- Sine and cosine of angles that differ by full turns are the same number in the same
encoding, or fail alike; at multiples of a right angle they are exact. -/
theorem sin_cos_periodic {x y : Decimal} (first : x.WellFormed) (second : y.WellFormed) :
    (∀ k : ℤ, x.value - y.value = 360 * k → sin x = sin y ∧ cos x = cos y) ∧
    ∀ k : ℤ, x.value = 90 * k → sin x = .ok (quarterSine k) ∧ cos x = .ok (quarterSine (k + 1)) := by
  constructor
  · intro k turns
    have alike := reduce_alike_of_residue first second (residue_congr turns)
    exact ⟨sin_eq_of_reduce alike, cos_eq_of_reduce alike⟩
  · intro k equal
    exact sin_cos_quarters first equal

/-- An angle just below zero and the one just below a full turn, and a right angle taken
backward. -/
theorem sin_cos_backward :
    let x : Decimal := ⟨true, 1, 26⟩
    let y : Decimal := ⟨false, 35999999999999999999999999999, 26⟩
    let q : Decimal := ⟨true, 900, 1⟩
    x.WellFormed ∧ y.WellFormed ∧ x.value - y.value = 360 * (-1 : ℤ) ∧ sin x = sin y ∧ cos x = cos y ∧
      q.WellFormed ∧ q.value = 90 * (-1 : ℤ) ∧ sin q = .ok minusOne ∧ cos q = .ok .zero := by
  intro x y q
  have first : x.WellFormed := ⟨by decide, by decide⟩
  have second : y.WellFormed := ⟨by decide, by decide⟩
  have third : q.WellFormed := ⟨by decide, by decide⟩
  have turns : x.value - y.value = 360 * (-1 : ℤ) := by
    rw [value_mk, value_mk]
    norm_num [unit]
  have quarters : q.value = 90 * (-1 : ℤ) := by
    rw [value_mk]
    norm_num [unit]
  obtain ⟨sines, cosines⟩ := (sin_cos_periodic first second).1 (-1) turns
  obtain ⟨sine, cosine⟩ := (sin_cos_periodic third second).2 (-1) quarters
  exact ⟨first, second, turns, sines, cosines, third, quarters, sine, cosine⟩

end Angle
end StackCalculator

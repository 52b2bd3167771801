import StackCalculator.Proofs.Directions
import StackCalculator.Proofs.Periods

/-! Angles reduced to one turn. A number of the format that is eighty or more has at most 26
places. So an angle below zero with more of them is rounded when a full turn is added to what is
left of it, and one that is hardly below zero is reduced to the full turn itself. Every other
angle is reduced to its residue, and centering what is reduced is always exact. -/
namespace StackCalculator.Angle
open Decimal
variable {x r : Decimal} {v w : ℚ}

theorem residue_nonneg (v : ℚ) : 0 ≤ residue v := mul_nonneg (by norm_num) (Int.fract_nonneg _)

theorem residue_lt (v : ℚ) : residue v < 360 := by
  have less := Int.fract_lt_one (v / 360)
  rw [residue]
  linarith

theorem sub_residue (v : ℚ) : v - residue v = 360 * ⌊v / 360⌋ := by
  rw [residue, Int.fract]
  ring

theorem residue_le (nonneg : 0 ≤ v) : residue v ≤ v := by
  have turns : (0 : ℚ) ≤ ⌊v / 360⌋ := by exact_mod_cast Int.floor_nonneg.mpr (by positivity)
  have taken := sub_residue v
  linarith

theorem residue_of_neg (below : v < 0) (above : -360 ≤ v) : residue v = v + 360 :=
  residue_eq (k := -1) (by linarith) (by linarith) (by push_cast; ring)

theorem onGrid_turns (k : ℤ) : OnGrid (-26) (360 * k) := by
  refine OnGrid.of_le (e := 0) ⟨360 * k, ?_⟩ (by decide)
  rw [zpow_zero, mul_one]
  push_cast
  rfl

/-- Whole turns have no places. -/
theorem onGrid_of_turns {k : ℤ} (turns : v - w = 360 * k) (grid : OnGrid (-26) v) : OnGrid (-26) w := by
  have rest : w = v - 360 * k := by
    rw [← turns, sub_sub_cancel]
  exact rest ▸ grid.sub (onGrid_turns k)

theorem onGrid_residue (grid : OnGrid (-26) v) : OnGrid (-26) (residue v) := onGrid_of_turns (sub_residue v) grid

theorem capacity_le_of_eighty_le (large : 80 ≤ v) : (capacity : ℚ) ≤ v * 10 ^ (26 + 1) := by
  rw [capacity_cast]
  norm_num
  linarith

theorem onGrid_of_eighty_le (wellFormed : x.WellFormed) (large : 80 ≤ |x.value|) : OnGrid (-26) x.value := by
  obtain ⟨k, whole⟩ :=
    wellFormed.representable.abs.whole (abs_nonneg x.value) (.inr (capacity_le_of_eighty_le large))
  refine OnGrid.of_abs ⟨k, ?_⟩
  rw [zpow_neg, ← div_eq_mul_inv, eq_div_iff (by positivity)]
  exact_mod_cast whole

/-- Up to a full turn 26 places are never too many. -/
theorem rounds_of_onGrid (grid : OnGrid (-26) v) (small : |v| ≤ 360) : Rounds v v := by
  obtain ⟨k, rfl⟩ := grid
  have scaled : (k : ℚ) * 10 ^ (-26 : ℤ) * 10 ^ 26 = k := by
    rw [zpow_neg]
    exact inv_mul_cancel_right₀ (by positivity) _
  refine .exact (n := k) (s := 26) ?_ (by decide) scaled
  have bound : |(k : ℚ)| ≤ 360 * 10 ^ 26 := by
    rw [← scaled, abs_mul, abs_of_pos (by positivity : (0 : ℚ) < 10 ^ 26)]
    gcongr
  have bound : |k| ≤ 360 * 10 ^ 26 := by exact_mod_cast bound
  rw [Int.abs_eq_natAbs] at bound
  have enough : 360 * 10 ^ 26 < capacity := by decide
  omega

theorem Rounds.eq_roundAt_of_eighty_le (rounds : Rounds v w) (large : 80 ≤ v) (less : v < 360) :
    w = roundAt (-26) v := by
  have fits : FitsAt v 26 := by
    apply fitsAt_of_lt (by linarith)
    rw [capacity_cast]
    norm_num
    linarith
  have full : ¬FitsAt v (26 + 1) := not_fitsAt_of_le (capacity_le_of_eighty_le large)
  have at26 : RoundsAt v w 26 := ⟨by decide, fits, .inr full, rounds.scaled ⟨by decide, fits, .inr full⟩⟩
  exact at26.eq_roundAt

/-- The residue of a number that is not below zero is a number of the format. -/
theorem rounds_residue (wellFormed : x.WellFormed) (nonneg : 0 ≤ x.value) : Rounds (residue x.value) (residue x.value) := by
  have scaled : x.value * 10 ^ x.scale = x.coefficient := by
    rw [← abs_of_nonneg nonneg, abs_value, div_mul_cancel₀ _ (by positivity)]
  have whole : residue x.value * 10 ^ x.scale = ((x.coefficient - 360 * ⌊x.value / 360⌋ * 10 ^ x.scale : ℤ) : ℚ) := by
    push_cast
    rw [← scaled, ← sub_residue]
    ring
  refine .exact ?_ wellFormed.scale_le whole
  have least : (0 : ℚ) ≤ residue x.value * 10 ^ x.scale := mul_nonneg (residue_nonneg _) (by positivity)
  have most : residue x.value * 10 ^ x.scale ≤ x.coefficient := by
    rw [← scaled]
    have le := residue_le nonneg
    gcongr
  rw [whole] at least most
  have least : 0 ≤ (x.coefficient - 360 * ⌊x.value / 360⌋ * 10 ^ x.scale : ℤ) := by exact_mod_cast least
  have most : (x.coefficient - 360 * ⌊x.value / 360⌋ * 10 ^ x.scale : ℤ) ≤ x.coefficient := by exact_mod_cast most
  have small := wellFormed.coefficient_lt
  omega

/-- The number that an angle is reduced to. -/
def reduced (v : ℚ) : ℚ := if v < 0 then roundAt (-26) (residue v) else residue v

theorem residue_of_not_onGrid (wellFormed : x.WellFormed) (below : x.value < 0) (fine : ¬OnGrid (-26) x.value) :
    residue x.value = x.value + 360 ∧ -80 < x.value := by
  have small : |x.value| < 80 := not_le.mp fun large => fine (onGrid_of_eighty_le wellFormed large)
  have above := (abs_lt.mp small).1
  exact ⟨residue_of_neg below (by linarith), above⟩

theorem reduce_eq_reduced (wellFormed : x.WellFormed) :
    ∃ r, reduce x = .ok r ∧ r.WellFormed ∧ r.value = reduced x.value := by
  obtain ⟨r, found, fits, rounds⟩ := reduce_rounds wellFormed
  refine ⟨r, found, fits, ?_⟩
  unfold reduced
  split
  · next below =>
    by_cases grid : OnGrid (-26) x.value
    · have kept := onGrid_residue grid
      have itself := rounds_of_onGrid kept (by rw [abs_of_nonneg (residue_nonneg _)]; exact (residue_lt _).le)
      rw [rounds.unique itself, roundAt_of_onGrid kept]
    · obtain ⟨sum, above⟩ := residue_of_not_onGrid wellFormed below grid
      exact Rounds.eq_roundAt_of_eighty_le rounds (by linarith) (residue_lt _)
  · next nonneg => exact rounds.unique (rounds_residue wellFormed (not_lt.mp nonneg))

theorem reduced_bounds (v : ℚ) : 0 ≤ reduced v ∧ reduced v ≤ 360 := by
  have nonneg := residue_nonneg v
  have less := residue_lt v
  unfold reduced
  split
  · have turn : roundAt (-26) 360 = 360 := roundAt_of_onGrid (by simpa using onGrid_turns 1)
    exact ⟨roundAt_nonneg _ nonneg, turn ▸ roundAt_mono less.le⟩
  · exact ⟨nonneg, less.le⟩

theorem reduced_near (v : ℚ) : |reduced v - residue v| ≤ 1 / 2 / 10 ^ 26 := by
  unfold reduced
  split
  · have near := roundAt_near (-26) (residue v)
    rw [abs_sub_comm] at near
    exact near.trans_eq (by norm_num)
  · rw [sub_self, abs_zero]
    positivity

/-- Below zero an angle with more than 26 places leaves its residue class, and no other does. -/
theorem reduced_exact_iff (v : ℚ) :
    (reduced v < 360 ∧ ∃ k : ℤ, v - reduced v = 360 * k) ↔ (v < 0 → OnGrid (-26) v) := by
  constructor
  · rintro ⟨_, k, turns⟩ below
    have grid : OnGrid (-26) (reduced v) := by
      rw [reduced, if_pos below]
      exact onGrid_roundAt _ _
    refine onGrid_of_turns (k := -k) ?_ grid
    push_cast
    linarith
  · intro grid
    have exact : reduced v = residue v := by
      unfold reduced
      split
      · next below => exact roundAt_of_onGrid (onGrid_residue (grid below))
      · rfl
    rw [exact]
    exact ⟨residue_lt v, _, sub_residue v⟩

/-- Halfway below the full turn the even neighbour is the full turn. -/
theorem roundAt_below_full_turn : roundAt (-26) (360 - 1 / 2 / 10 ^ 26) = 360 := by
  have nearest : NearestEven ((360 - 1 / 2 / 10 ^ 26) / 10 ^ (-26 : ℤ)) 36000000000000000000000000000 := by
    constructor
    · norm_num [abs_le]
    · intro _
      decide
  rw [roundAt, nearest.eq]
  norm_num

theorem reduced_full_turn_iff (wellFormed : x.WellFormed) :
    reduced x.value = 360 ↔ x.value < 0 ∧ -(1 / 2 / 10 ^ 26) ≤ x.value := by
  constructor
  · intro full
    have other : ¬(x.value < 0 → OnGrid (-26) x.value) := by
      rw [← reduced_exact_iff, full]
      exact fun exact => lt_irrefl _ exact.1
    obtain ⟨below, fine⟩ := Classical.not_imp.mp other
    have near := (abs_le.mp (reduced_near x.value)).2
    rw [full, (residue_of_not_onGrid wellFormed below fine).1] at near
    exact ⟨below, by linarith⟩
  · rintro ⟨below, above⟩
    have sum : residue x.value = x.value + 360 := by
      apply residue_of_neg below
      norm_num at above
      linarith
    refine (reduced_bounds x.value).2.antisymm ?_
    rw [reduced, if_pos below, sum]
    exact roundAt_below_full_turn.ge.trans (roundAt_mono (by linarith))

/-- The number from minus a half turn, itself left out, to a half turn. -/
def centered (v : ℚ) : ℚ := if 180 < v then v - 360 else v

theorem recenter_eq_centered (wellFormed : r.WellFormed) (nonneg : 0 ≤ r.value) (most : r.value ≤ 360) :
    ∃ c, recenter r = .ok c ∧ c.value = centered r.value := by
  have beyond : halfTurn.lt r = true ↔ 180 < r.value := by
    rw [lt_iff, value_halfTurn]
  by_cases more : 180 < r.value
  · rw [recenter, if_pos (beyond.mpr more), centered, if_pos more]
    have grid : OnGrid (-26) (r.value - 360) := by
      have turn := onGrid_turns 1
      rw [Int.cast_one, mul_one] at turn
      exact (onGrid_of_eighty_le wellFormed (by rw [abs_of_nonneg nonneg]; linarith)).sub turn
    have exact := rounds_of_onGrid grid (abs_le.mpr ⟨by linarith, by linarith⟩)
    have computed := sub?_computes wellFormed fullTurn_wellFormed
    rw [value_fullTurn] at computed
    obtain ⟨c, taken, value⟩ := exists_of_computes computed exact
    exact ⟨c, congrArg assumed taken, value⟩
  · rw [recenter, if_neg (mt beyond.mp more), centered, if_neg more]
    exact ⟨r, rfl, rfl⟩

theorem centered_turns (v : ℚ) : ∃ k : ℤ, v - centered v = 360 * k := by
  unfold centered
  split
  · exact ⟨1, by push_cast; ring⟩
  · exact ⟨0, by push_cast; ring⟩

theorem centered_bounds (nonneg : 0 ≤ v) (most : v ≤ 360) : -180 < centered v ∧ centered v ≤ 180 := by
  unfold centered
  split
  · next more => constructor <;> linarith
  · next less => constructor <;> linarith

theorem exists_reduced_centered (wellFormed : x.WellFormed) : ∃ r c, reduce x = .ok r ∧ recenter r = .ok c ∧
    r.value = reduced x.value ∧ c.value = centered (reduced x.value) := by
  obtain ⟨r, found, fits, value⟩ := reduce_eq_reduced wellFormed
  obtain ⟨nonneg, most⟩ := reduced_bounds x.value
  obtain ⟨c, centers, value'⟩ := recenter_eq_centered fits (value ▸ nonneg) (value ▸ most)
  exact ⟨r, c, found, centers, value, value ▸ value'⟩

/-- The number `r` that an angle `v` is reduced to, and the one `c` of the same class that is
nearest to zero. -/
structure Reduces (v r c : ℚ) : Prop where
  rounded : r = reduced v
  nonneg : 0 ≤ r
  le_full_turn : r ≤ 360
  near : |r - residue v| ≤ 1 / 2 / 10 ^ 26
  exact_iff : (r < 360 ∧ ∃ k : ℤ, v - r = 360 * k) ↔ (v < 0 → OnGrid (-26) v)
  full_turn_iff : r = 360 ↔ v < 0 ∧ -(1 / 2 / 10 ^ 26) ≤ v
  above : -180 < c
  le_half_turn : c ≤ 180
  turns : ∃ k : ℤ, r - c = 360 * k

/-- Every angle is reduced to a number from zero to a full turn, and centered without rounding.
What it is reduced to is below the full turn and differs from it by full turns unless it is below
zero with more than 26 places. It is the full turn for angles that are below zero by no more than
half a unit of the last of them. -/
theorem reduce_recenter (wellFormed : x.WellFormed) :
    ∃ r c, reduce x = .ok r ∧ recenter r = .ok c ∧ Reduces x.value r.value c.value := by
  obtain ⟨r, c, found, centers, value, value'⟩ := exists_reduced_centered wellFormed
  obtain ⟨nonneg, most⟩ := reduced_bounds x.value
  obtain ⟨above, below⟩ := centered_bounds nonneg most
  refine ⟨r, c, found, centers, ?_⟩
  rw [value, value']
  exact {
    rounded := rfl
    nonneg := nonneg
    le_full_turn := most
    near := reduced_near x.value
    exact_iff := reduced_exact_iff x.value
    full_turn_iff := reduced_full_turn_iff wellFormed
    above := above
    le_half_turn := below
    turns := centered_turns _ }

/-- A quarter turn and a half degree backward. -/
theorem reduce_recenter_backward :
    let x : Decimal := ⟨true, 905, 1⟩
    let r : Decimal := ⟨false, 2695, 1⟩
    x.WellFormed ∧ reduce x = .ok r ∧ recenter r = .ok x ∧ Reduces x.value r.value x.value := by
  intro x r
  have fits : x.WellFormed := ⟨by decide, by decide⟩
  have found : reduce x = .ok r := by decide +kernel
  have centers : recenter r = .ok x := by decide +kernel
  obtain ⟨r', c, found', centers', reduces⟩ := reduce_recenter fits
  obtain rfl : r = r' := Except.ok.inj (found.symm.trans found')
  obtain rfl : x = c := Except.ok.inj (centers.symm.trans centers')
  exact ⟨fits, found, centers, reduces⟩

/-- Forty units of the last place below zero are lost: the sine is zero, and that of the opposite
angle is not. -/
theorem reduce_forty_units :
    let x : Decimal := ⟨true, 40, 28⟩
    let r : Decimal := ⟨false, 36000000000000000000000000000, 26⟩
    x.WellFormed ∧ reduce x = .ok r ∧ ¬r.value < 360 ∧ (¬∃ k : ℤ, x.value - r.value = 360 * k) ∧
      sin x = .ok .zero ∧ sin x.abs = .ok ⟨false, 1, 28⟩ := by
  intro x r
  have turn : r.value = 360 := by
    rw [value_mk, unit_false]
    norm_num
  refine ⟨⟨by decide, by decide⟩, by decide +kernel, turn.not_lt, ?_, by decide +kernel, by decide +kernel⟩
  rintro ⟨k, turns⟩
  rw [turn, value_mk, unit_true] at turns
  -- The difference is a little less than one turn backward.
  have above : (-2 : ℚ) < k := by
    norm_num at turns
    linarith
  have below : (k : ℚ) < -1 := by
    norm_num at turns
    linarith
  have above : -2 < k := by exact_mod_cast above
  have below : k < -1 := by exact_mod_cast below
  omega

end StackCalculator.Angle

import StackCalculator.Proofs.Directions
import StackCalculator.Proofs.QuotientError

/-! Where the angle of the fourth quadrant is lost beside the full turn. Up to ten units of the last
place the tangent is halved down to one unit at most, and from eleven on two units remain. The
degrees are below five hundred units then, or above nine hundred, and between the two is what
subtracting from a full turn and rounding to the digits that are kept can tell from it. -/
namespace StackCalculator.Angle
open Decimal
variable {x y z r d u : Decimal} {v : ℚ}

theorem Eighth.le_unit (eighth : Eighth z u) (nonneg : 0 ≤ z.value) (few : z.value ≤ 10 / 10 ^ 28) :
    u.value ≤ 1 / 10 ^ 28 := by
  obtain ⟨h, h', first, second, third⟩ := eighth.halved
  have five : Rounds (5 / 10 ^ 28) (5 / 10 ^ 28) := Rounds.of_units (k := 5) (.intCast 5) (by norm_num)
  have two : Rounds (5 / 2 / 10 ^ 28) (2 / 10 ^ 28) :=
    Rounds.of_units (k := 2) ⟨by norm_num, fun _ => by decide⟩ (by norm_num)
  have one : Rounds (1 / 10 ^ 28) (1 / 10 ^ 28) := Rounds.of_units (k := 1) (.intCast 1) (by norm_num)
  have below := first.le nonneg five (by linarith)
  have below' := second.le (first.nonneg nonneg) two (by linarith)
  exact third.le (second.nonneg (first.nonneg nonneg)) one (by linarith)

theorem Eighth.two_units_le (eighth : Eighth z u) (least : 11 / 10 ^ 28 ≤ z.value) (most : z.value ≤ 1) :
    2 / 10 ^ 28 ≤ u.value := by
  obtain ⟨h, h', first, second, third⟩ := eighth.halved
  have nonneg : 0 ≤ z.value := by
    norm_num at least
    linarith
  by_cases tiny : z.value ≤ 1 / 10 ^ 15
  · have tenth : Rounds (1 / 10 ^ 15) (1 / 10 ^ 15) :=
      .exact (n := 1) (s := 15) (by decide) (by decide) (by norm_num)
    have six : Rounds (11 / 2 / 10 ^ 28) (6 / 10 ^ 28) :=
      Rounds.of_units (k := 6) ⟨by norm_num [abs_le], fun _ => by decide⟩ (by norm_num)
    have three : Rounds (3 / 10 ^ 28) (3 / 10 ^ 28) := Rounds.of_units (k := 3) (.intCast 3) (by norm_num)
    have two : Rounds (3 / 2 / 10 ^ 28) (2 / 10 ^ 28) :=
      Rounds.of_units (k := 2) ⟨by norm_num [abs_le], fun _ => by decide⟩ (by norm_num)
    have tiny' := first.le nonneg tenth (by linarith)
    have tiny'' := second.le (first.nonneg nonneg) tenth (by linarith)
    have above := first.ge tiny (by positivity) six (by linarith)
    have above' := second.ge tiny' (by positivity) three (by linarith)
    exact third.ge tiny'' (by positivity) two (by linarith)
  · have nonneg' := first.nonneg nonneg
    have one : Rounds 1 1 := .exact (n := 1) (s := 0) (by decide) (by decide) (by norm_num)
    have below := first.le nonneg one (by linarith)
    have below' := second.le nonneg' one (by linarith)
    have part := first.le_half nonneg most
    have part' := second.le_half nonneg' below
    have part'' := third.le_half (second.nonneg nonneg') below'
    norm_num at tiny part part' part'' ⊢
    linarith

namespace ArcTangent

theorem le_eight_units (tangent : ArcTangent z r) (nonneg : 0 ≤ z.value) (few : z.value ≤ 10 / 10 ^ 28) :
    r.value ≤ 8 / 10 ^ 28 := by
  obtain ⟨u, eighth, _, _, times⟩ := tangent.eighth
  have one := eighth.le_unit nonneg few
  have exact := times.exact (one.trans (by norm_num))
  linarith

theorem sixteen_units_le (tangent : ArcTangent z r) (least : 11 / 10 ^ 28 ≤ z.value) (most : z.value ≤ 1) :
    16 / 10 ^ 28 ≤ r.value := by
  obtain ⟨u, eighth, _, _, times⟩ := tangent.eighth
  have two := eighth.two_units_le least most
  by_cases tiny : u.value ≤ 1 / 10 ^ 15
  · have exact := times.exact tiny
    linarith
  · have least := times.least
    norm_num at tiny ⊢
    linarith

end ArcTangent

namespace RatioAngle

/-- Ten units of the last place are the even neighbour of ten and a half. -/
theorem le_eight_units (angle : RatioAngle y x r) (nonneg : 0 ≤ y.value) (right : 0 < x.value)
    (small : y.value ≤ 21 / 2 / 10 ^ 28 * x.value) : r.value ≤ 8 / 10 ^ 28 := by
  cases angle with
  | diagonal same =>
    norm_num at small
    linarith
  | flat _ ratio rounds tangent =>
    have ten : Rounds (21 / 2 / 10 ^ 28) (10 / 10 ^ 28) :=
      Rounds.of_units (k := 10) ⟨by norm_num [abs_le], fun _ => by decide⟩ (by norm_num)
    have quotient : y.value / x.value ≤ 21 / 2 / 10 ^ 28 := (div_le_iff₀ right).mpr small
    have above : 0 ≤ y.value / x.value := by positivity
    exact tangent.le_eight_units (rounds.nonneg above) (rounds.mono ten above quotient)
  | steep more =>
    norm_num at small
    linarith

theorem sixteen_units_le (angle : RatioAngle y x r) (right : 0 < x.value)
    (large : 21 / 2 / 10 ^ 28 * x.value < y.value) : 16 / 10 ^ 28 ≤ r.value := by
  have positive : 0 < y.value := lt_trans (by positivity) large
  rcases le_or_gt x.value y.value with steep | less
  · have quarter := angle.quarter_le steep
    norm_num
    linarith
  cases angle with
  | diagonal same => exact absurd same less.ne
  | steep more => exact absurd more (not_lt.mpr less.le)
  | flat _ ratio rounds tangent =>
    have above : 0 ≤ y.value / x.value := by positivity
    have most : y.value / x.value ≤ (1 : ℤ) := by
      rw [Int.cast_one]
      exact (div_le_one right).mpr less.le
    have one := rounds.le_intCast most
    rw [Int.cast_one] at most one
    obtain ⟨n, integer, nearest⟩ := rounds.units (by rw [abs_of_nonneg above]; linarith)
    have quotient : 21 / 2 / 10 ^ 28 < y.value / x.value := (lt_div_iff₀ right).mpr large
    have near := (abs_le.mp nearest.near).2
    have more : (10 : ℚ) < n := by linarith
    have eleven : 11 ≤ n := by exact_mod_cast more
    have eleven : (11 : ℚ) ≤ n := by exact_mod_cast eleven
    refine tangent.sixteen_units_le ?_ one
    rw [div_le_iff₀ (by positivity), integer]
    exact eleven

end RatioAngle

namespace InDegrees

theorem le_of_eight_units (degrees : InDegrees r d) (nonneg : 0 ≤ r.value) (few : r.value ≤ 8 / 10 ^ 28) :
    d.value ≤ 459 / 10 ^ 28 := by
  have product : Rounds (8 / 10 ^ 28 * 180) (1440 / 10 ^ 28) := by
    have whole := Rounds.of_units (.intCast 1440) (by norm_num)
    norm_num at whole ⊢
    exact whole
  have fixed : Rounds (459 / 10 ^ 28) (459 / 10 ^ 28) := Rounds.of_units (k := 459) (.intCast 459) (by norm_num)
  exact degrees.le nonneg few product fixed (by norm_num)

theorem ge_of_sixteen_units (degrees : InDegrees r d) (least : 16 / 10 ^ 28 ≤ r.value) :
    916 / 10 ^ 28 ≤ d.value := by
  have product : Rounds (16 / 10 ^ 28 * 180) (2880 / 10 ^ 28) := by
    have whole := Rounds.of_units (.intCast 2880) (by norm_num)
    norm_num at whole ⊢
    exact whole
  have fixed : Rounds (916 / 10 ^ 28) (916 / 10 ^ 28) := Rounds.of_units (k := 916) (.intCast 916) (by norm_num)
  exact degrees.ge (by positivity) least product (by positivity) fixed (by norm_num)

end InDegrees

theorem rounds_fullTurn_sub {whole part : Decimal} (wellFormed : part.WellFormed)
    (taken : fullTurn.sub? part = some whole) : Rounds (360 - part.value) whole.value := by
  have computed := sub?_computes fullTurn_wellFormed wellFormed
  rw [taken, value_fullTurn] at computed
  exact computed

/-- The twenty-ninth digit is halfway, and the even neighbour is the full turn. -/
theorem full_turn_le_roundTo (rounds : Rounds (360 - v) r.value) (few : v ≤ 459 / 10 ^ 28) :
    360 ≤ (r.roundTo 28).value := by
  have found : fullTurn.sub? ⟨false, 459, 28⟩ = some ⟨false, 35999999999999999999999999995, 26⟩ := by decide +kernel
  have rounded : roundTo 28 ⟨false, 35999999999999999999999999995, 26⟩ = ⟨false, 3600000000000000000000000000, 25⟩ := by
    decide +kernel
  have below := rounds_fullTurn_sub ⟨by decide, by decide⟩ found
  rw [value_mk, unit_false, one_mul] at below
  have order := roundTo_mono (value_nonneg rfl) (below.mono rounds (by norm_num) (by push_cast; linarith)) 28
  rw [rounded, value_mk, unit_false] at order
  norm_num at order
  exact order

theorem roundTo_lt_full_turn (rounds : Rounds (360 - v) r.value) (least : 916 / 10 ^ 28 ≤ v) (most : v ≤ 360) :
    (r.roundTo 28).value < 360 := by
  have found : fullTurn.sub? ⟨false, 916, 28⟩ = some ⟨false, 35999999999999999999999999991, 26⟩ := by decide +kernel
  have rounded : roundTo 28 ⟨false, 35999999999999999999999999991, 26⟩ = ⟨false, 3599999999999999999999999999, 25⟩ := by
    decide +kernel
  have above := rounds_fullTurn_sub ⟨by decide, by decide⟩ found
  rw [value_mk, unit_false, one_mul] at above
  have nonneg : 0 ≤ 360 - v := by linarith
  have order := roundTo_mono (rounds.nonneg nonneg) (rounds.mono above nonneg (by push_cast; linarith)) 28
  have less : value ⟨false, 3599999999999999999999999999, 25⟩ < 360 := by
    rw [value_mk, unit_false]
    norm_num
  rw [rounded] at order
  exact order.trans_lt less

namespace Quadrants
variable {x y r : ℚ}

theorem bounds (quadrants : Quadrants y x r) : 0 ≤ r ∧ r ≤ 360 := by
  rcases lt_or_ge y 0 with below | above
  · rcases le_total x 0 with left | right
    · obtain ⟨least, most⟩ := quadrants.third left below
      constructor <;> linarith
    · obtain ⟨least, most⟩ := quadrants.fourth right below
      constructor <;> linarith
  · rcases le_total x 0 with left | right
    · obtain ⟨least, most⟩ := quadrants.second left above
      constructor <;> linarith
    · obtain ⟨least, most⟩ := quadrants.first right above
      constructor <;> linarith

theorem le_of_not_fourth (quadrants : Quadrants y x r) (other : ¬(y < 0 ∧ 0 < x)) : r ≤ 270 := by
  rcases lt_or_ge y 0 with below | above
  · have left : x ≤ 0 := not_lt.mp fun right => other ⟨below, right⟩
    exact (quadrants.third left below).2
  · rcases le_total x 0 with left | right
    · linarith [quadrants.second left above]
    · linarith [quadrants.first right above]

end Quadrants

theorem Directed.turns (directed : Directed y x r) (above : y.value ≠ 0) (right : x.value ≠ 0) : Turns y x r := by
  cases directed with
  | vertical zero => exact absurd (value_of_isZero zero) right
  | horizontal zero => exact absurd (value_of_isZero zero) above
  | turned _ _ turns => exact turns

theorem Turns.full_turn_iff (turns : Turns y x r) (below : y.value < 0) (right : 0 < x.value)
    (most : (r.roundTo 28).value ≤ 360) :
    (r.roundTo 28).value = 360 ↔ -y.value ≤ 21 / 2 / 10 ^ 28 * x.value := by
  obtain ⟨radians, d, angle, degrees, rounds⟩ := turns.angle
  have negative : y.negative = true := (negative_iff (isZero_eq_false below.ne)).mpr below
  rw [negative, negative_eq_false right.le (isZero_eq_false right.ne'), turned] at rounds
  have height : y.abs.value = -y.value := by rw [value_abs, abs_of_neg below]
  have width : x.abs.value = x.value := by rw [value_abs, abs_of_pos right]
  constructor
  · intro full
    by_contra large
    have radians_le := angle.sixteen_units_le (by rwa [width]) (by rw [width, height]; exact not_le.mp large)
    have ninety := degrees.le_ninety angle.nonneg angle.le_halfPi
    have less := roundTo_lt_full_turn rounds (degrees.ge_of_sixteen_units radians_le) (by linarith)
    exact less.ne full
  · intro small
    have radians_le := angle.le_eight_units (by rw [height]; linarith) (by rwa [width]) (by rwa [width, height])
    exact most.antisymm (full_turn_le_roundTo rounds (degrees.le_of_eight_units angle.nonneg radians_le))

theorem Directed.roundTo_bounds (directed : Directed y x r) :
    0 ≤ (r.roundTo 28).value ∧ (r.roundTo 28).value ≤ 360 := by
  obtain ⟨least, most⟩ := directed.quadrants.bounds
  constructor
  · exact roundTo_nonneg least 28
  · exact_mod_cast roundTo_le_natCast (n := 360) (by decide +kernel) least (by exact_mod_cast most)

theorem Directed.full_turn_iff (directed : Directed y x r) : (r.roundTo 28).value = 360 ↔
    y.value < 0 ∧ 0 < x.value ∧ -y.value ≤ 21 / 2 / 10 ^ 28 * x.value := by
  by_cases fourth : y.value < 0 ∧ 0 < x.value
  · have turns := directed.turns fourth.1.ne fourth.2.ne'
    rw [turns.full_turn_iff fourth.1 fourth.2 directed.roundTo_bounds.2]
    simp only [fourth, true_and]
  · have quadrants := directed.quadrants
    have most := quadrants.le_of_not_fourth fourth
    have three : (r.roundTo 28).value ≤ (270 : ℕ) :=
      roundTo_le_natCast (by decide +kernel) quadrants.bounds.1 (by exact_mod_cast most)
    constructor
    · intro full
      rw [full] at three
      norm_num at three
    · rintro ⟨below, right, _⟩
      exact absurd ⟨below, right⟩ fourth

end StackCalculator.Angle

namespace StackCalculator
open Decimal Angle
variable {x y : Decimal} {rest : Stack}

theorem Operator.run_atan_of_direction {angle : Decimal} (found : direction y x = .ok angle)
    (room : rest.length < Options.maxStackDepth {}) :
    run {} (.binary (.arithmetic .atan)) (.number x :: .number y :: rest) =
      .done (.number (angle.roundTo 28) :: rest) := by
  have computed : BinaryArithmetic.eval 28 .atan y x = .ok (angle.roundTo 28) := by
    rw [BinaryArithmetic.eval, found]
    rfl
  rw [run_arithmetic]
  change Stack.pushResult _ ((BinaryArithmetic.eval 28 .atan y x).map .number) rest = _
  rw [computed]
  exact Stack.push_of_room room

/-- The operator pushes an angle from zero to a full turn, and the full turn itself where the vector
is below the horizontal axis by at most ten and a half units of the last place for each unit to
the right. -/
theorem Operator.run_atan (first : y.WellFormed) (second : x.WellFormed) (nonzero : y.value ≠ 0 ∨ x.value ≠ 0)
    (room : rest.length < Options.maxStackDepth {}) :
    ∃ r, run {} (.binary (.arithmetic .atan)) (.number x :: .number y :: rest) = .done (.number r :: rest) ∧
      0 ≤ r.value ∧ r.value ≤ 360 ∧
      (r.value = 360 ↔ y.value < 0 ∧ 0 < x.value ∧ -y.value ≤ 21 / 2 / 10 ^ 28 * x.value) := by
  obtain ⟨angle, found, directed⟩ := direction_directed first second nonzero
  obtain ⟨least, most⟩ := directed.roundTo_bounds
  exact ⟨angle.roundTo 28, run_atan_of_direction found room, least, most, directed.full_turn_iff⟩

/-- Eleven units are enough to stay below the full turn. -/
theorem Operator.run_atan_eleven :
    let y : Decimal := ⟨true, 11, 0⟩
    let x : Decimal := ⟨false, 10 ^ 28, 0⟩
    y.WellFormed ∧ x.WellFormed ∧ y.value ≠ 0 ∧ ([] : Stack).length < Options.maxStackDepth {} ∧
      ∃ r, run {} (.binary (.arithmetic .atan)) [.number x, .number y] = .done [.number r] ∧
        0 ≤ r.value ∧ r.value ≤ 360 ∧ r.value ≠ 360 := by
  intro y x
  have first : y.WellFormed := ⟨by decide, by decide⟩
  have second : x.WellFormed := ⟨by decide, by decide⟩
  have nonzero : y.value ≠ 0 := value_ne_zero rfl
  have room : ([] : Stack).length < Options.maxStackDepth {} := by decide
  obtain ⟨r, ran, least, most, full⟩ := run_atan first second (.inl nonzero) room
  refine ⟨first, second, nonzero, room, r, ran, least, most, ?_⟩
  intro same
  obtain ⟨_, _, flat⟩ := full.mp same
  rw [value_mk, value_mk, unit_true, unit_false] at flat
  norm_num at flat

/-- One unit is lost. -/
theorem Operator.run_atan_full_turn :
    let y : Decimal := ⟨true, 1, 0⟩
    let x : Decimal := ⟨false, 10 ^ 28, 0⟩
    y.WellFormed ∧ x.WellFormed ∧ y.value ≠ 0 ∧
      run {} (.binary (.arithmetic .atan)) [.number x, .number y] = .done [.number fullTurn] ∧ ¬fullTurn.value < 360 := by
  intro y x
  have turned : direction y x = .ok fullTurn := by decide +kernel
  have kept : fullTurn.roundTo 28 = fullTurn := by decide +kernel
  have room : ([] : Stack).length < Options.maxStackDepth {} := by decide
  have ran := run_atan_of_direction turned room
  rw [kept] at ran
  exact ⟨⟨by decide, by decide⟩, ⟨by decide, by decide⟩, value_ne_zero rfl, ran, value_fullTurn.not_lt⟩

end StackCalculator

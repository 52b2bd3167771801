import StackCalculator.Proofs.ArcTangent
import StackCalculator.Proofs.Elementary

/-! Directions and their quadrants. The angle of the first quadrant is at most half of pi as the
format has it, and what that gives in degrees is rounded to no more than a right angle. Rounding
does not cross the integers at the borders of the quadrants, so neither does what is added to a
half turn or taken from a half or a full one. -/
namespace StackCalculator.Angle
open Decimal
variable {x y r d : Decimal} {c v w : ℚ}

@[simp]
theorem value_pi : Decimal.pi.value = 31415926535897932384626433833 / 10 ^ 28 := by
  rw [Decimal.pi, value_mk, unit_false, one_mul]
  norm_num

@[simp]
theorem value_halfPi : Decimal.halfPi.value = 15707963267948966192313216916 / 10 ^ 28 := by
  rw [Decimal.halfPi, value_mk, unit_false, one_mul]
  norm_num

@[simp]
theorem value_quarterPi : quarterPi.value = 7853981633974483096156608458 / 10 ^ 28 := by
  rw [quarterPi, value_mk, unit_false, one_mul]
  norm_num

@[simp]
theorem value_rightAngle : rightAngle.value = 90 := value_ofNat 90

@[simp]
theorem value_halfTurn : halfTurn.value = 180 := value_ofNat 180

@[simp]
theorem value_threeQuarterTurn : threeQuarterTurn.value = 270 := value_ofNat 270

@[simp]
theorem value_fullTurn : fullTurn.value = 360 := value_ofNat 360

theorem pi_pos : 0 < Decimal.pi.value := by norm_num

theorem wellFormed_halfPi : Decimal.halfPi.WellFormed := ⟨by decide, by decide⟩

/-- The product and the quotient on the way to degrees. -/
structure InDegrees (r d : Decimal) : Prop where
  wellFormed : d.WellFormed
  steps : ∃ p : ℚ, Rounds (r.value * 180) p ∧ Rounds (p / Decimal.pi.value) d.value

theorem toDegrees_inDegrees (nonneg : 0 ≤ r.value) (small : r.value ≤ 2) :
    ∃ d, toDegrees r = .ok d ∧ InDegrees r d := by
  have products := mul?_computes r halfTurn
  rw [value_halfTurn] at products
  obtain ⟨p, product, rounds⟩ := products.exists_of_le (by positivity) (by rw [capacity_cast]; linarith)
  have least := rounds.nonneg (by positivity)
  have most : p.value ≤ (360 : ℚ) := by exact_mod_cast rounds.le_intCast (n := 360) (by push_cast; linarith)
  have kept : p.WellFormed := mul?_wellFormed r halfTurn p product
  have quotients := div?_computes kept (b := Decimal.pi) rfl
  have bound : p.value / Decimal.pi.value ≤ capacity - 1 := by
    rw [capacity_cast, div_le_iff₀ pi_pos]
    norm_num
    linarith
  have above : 0 ≤ p.value / Decimal.pi.value := div_nonneg least pi_pos.le
  obtain ⟨d, quotient, rounds'⟩ := quotients.exists_of_le above bound
  refine ⟨d, ?_, div?_wellFormed kept _ d quotient, p.value, rounds, rounds'⟩
  rw [toDegrees, checked_bind product, quotient]
  rfl

namespace InDegrees

theorem le (degrees : InDegrees r d) (nonneg : 0 ≤ r.value) (most : r.value ≤ v) (product : Rounds (v * 180) w)
    (fixed : Rounds c c) (quotient : w ≤ c * Decimal.pi.value) : d.value ≤ c := by
  obtain ⟨p, first, second⟩ := degrees.steps
  have above := first.nonneg (by positivity)
  have below : p ≤ w := first.mono product (by positivity) (by linarith)
  refine second.mono fixed (div_nonneg above pi_pos.le) ?_
  rw [div_le_iff₀ pi_pos]
  exact below.trans quotient

theorem ge (degrees : InDegrees r d) (nonneg : 0 ≤ v) (least : v ≤ r.value) (product : Rounds (v * 180) w)
    (above : 0 ≤ c) (fixed : Rounds c c) (quotient : c * Decimal.pi.value ≤ w) : c ≤ d.value := by
  obtain ⟨p, first, second⟩ := degrees.steps
  have below : w ≤ p := product.mono first (by positivity) (by linarith)
  refine fixed.mono second above ?_
  rw [le_div_iff₀ pi_pos]
  exact quotient.trans below

theorem nonneg (degrees : InDegrees r d) (nonneg : 0 ≤ r.value) : 0 ≤ d.value := by
  obtain ⟨p, first, second⟩ := degrees.steps
  have above := first.nonneg (by positivity)
  exact second.nonneg (div_nonneg above pi_pos.le)

/-- Half of pi gives a right angle at most. -/
theorem le_ninety (degrees : InDegrees r d) (nonneg : 0 ≤ r.value) (most : r.value ≤ Decimal.halfPi.value) :
    d.value ≤ 90 := by
  have product := mul?_computes Decimal.halfPi halfTurn
  have found : Decimal.halfPi.mul? halfTurn = some ⟨false, 28274333882308139146163790449, 26⟩ := by decide +kernel
  rw [found, value_halfTurn] at product
  have fixed : Rounds 90 90 := .exact (n := 90) (s := 0) (by decide) (by decide) (by norm_num)
  refine degrees.le nonneg most product fixed ?_
  rw [value_mk, unit_false]
  norm_num

end InDegrees

theorem exists_ratio (first : x.WellFormed) (nonneg : 0 ≤ x.value) (less : x.value < y.value) :
    ∃ ratio, Obtains (x.value / y.value) (x.div? y) ratio ∧ 0 ≤ ratio.value ∧ ratio.value ≤ 1 := by
  have positive : 0 < y.value := by linarith
  have most : x.value / y.value ≤ 1 := by
    rw [div_le_one positive]
    exact less.le
  obtain ⟨ratio, divided⟩ := exists_div first positive.ne' (by rw [abs_of_nonneg (by positivity)]; linarith)
  refine ⟨ratio, divided, divided.rounds.nonneg (by positivity), ?_⟩
  exact_mod_cast divided.rounds.le_intCast (n := 1) (by exact_mod_cast most)

/-- The angle of two positive coordinates: that of their ratio, or what that of the inverse ratio
leaves of half of pi. -/
inductive RatioAngle (y x r : Decimal) : Prop
  | diagonal (same : y.value = x.value) (quarter : r = quarterPi)
  | flat (less : y.value < x.value) (ratio : Decimal) (rounds : Rounds (y.value / x.value) ratio.value)
      (tangent : ArcTangent ratio r)
  | steep (less : x.value < y.value) (ratio angle : Decimal) (tangent : ArcTangent ratio angle)
      (rounds : Rounds (Decimal.halfPi.value - angle.value) r.value)

theorem arctanQuotient_ratioAngle (first : y.WellFormed) (second : x.WellFormed) (above : 0 < y.value)
    (right : 0 < x.value) : ∃ r, arctanQuotient y x = .ok r ∧ RatioAngle y x r := by
  unfold arctanQuotient
  split
  · next equal => exact ⟨.quarterPi, rfl, .diagonal (same_iff.mp equal) rfl⟩
  next different =>
  split
  · next less =>
    have less := lt_iff.mp less
    obtain ⟨ratio, divided, nonneg, most⟩ := exists_ratio first above.le less
    obtain ⟨r, found, _, tangent⟩ := arctanUnit_arcTangent divided.wellFormed nonneg most
    refine ⟨r, ?_, .flat less ratio divided.rounds tangent⟩
    rw [checked_bind divided.found, found]
  · next more =>
    rw [lt_iff, not_lt] at more
    have less : x.value < y.value := lt_of_le_of_ne more fun same => different (same_iff.mpr same.symm)
    obtain ⟨ratio, divided, nonneg, most⟩ := exists_ratio second right.le less
    obtain ⟨angle, found, fits, tangent⟩ := arctanUnit_arcTangent divided.wellFormed nonneg most
    have bound : |Decimal.halfPi.value - angle.value| ≤ 7 := by
      have least := tangent.nonneg
      have most := tangent.le
      rw [abs_le]
      norm_num
      constructor <;> linarith
    obtain ⟨r, taken, rounds⟩ := (sub?_computes wellFormed_halfPi fits).exists_of_abs_le bound
    refine ⟨r, ?_, .steep less ratio angle tangent rounds⟩
    rw [checked_bind divided.found, ok_bind found, taken]
    rfl

namespace RatioAngle

/-- What a flat angle takes from half of pi leaves a quarter at least. -/
theorem quarter_le (angle : RatioAngle y x r) (large : x.value ≤ y.value) : 1 / 4 ≤ r.value := by
  cases angle with
  | diagonal _ quarter => norm_num [quarter]
  | flat less => exact absurd large (not_le.mpr less)
  | steep _ ratio angle tangent rounds =>
    have fixed : Rounds (1 / 4) (1 / 4) := .exact (n := 25) (s := 2) (by decide) (by decide) (by norm_num)
    have most := tangent.le
    refine fixed.mono rounds (by norm_num) ?_
    norm_num
    linarith

theorem nonneg (angle : RatioAngle y x r) : 0 ≤ r.value := by
  rcases lt_or_ge y.value x.value with less | large
  · cases angle with
    | diagonal same => exact absurd same less.ne
    | flat _ ratio _ tangent => exact tangent.nonneg
    | steep more => exact absurd more (not_lt.mpr less.le)
  · have least := angle.quarter_le large
    linarith

theorem le_halfPi (angle : RatioAngle y x r) : r.value ≤ Decimal.halfPi.value := by
  cases angle with
  | diagonal _ quarter => norm_num [quarter]
  | flat _ ratio _ tangent =>
    have most := tangent.le
    norm_num
    linarith
  | steep _ ratio angle tangent rounds =>
    have least := tangent.nonneg
    have most := tangent.le
    refine rounds.mono wellFormed_halfPi.rounds ?_ (by linarith)
    norm_num
    linarith

end RatioAngle

/-- The angle that the first quadrant is turned or mirrored to. -/
def turned (yNegative xNegative : Bool) (degrees : ℚ) : ℚ :=
  match yNegative, xNegative with
  | false, false => degrees
  | false, true => 180 - degrees
  | true, true => 180 + degrees
  | true, false => 360 - degrees

/-- The same on a number of degrees. -/
def turn (yNegative xNegative : Bool) (degrees : Decimal) : Except Failure Decimal :=
  match yNegative, xNegative with
  | false, false => .ok degrees
  | false, true => assumed (halfTurn.sub? degrees)
  | true, true => assumed (halfTurn.add? degrees)
  | true, false => assumed (fullTurn.sub? degrees)

theorem turn_rounds (wellFormed : d.WellFormed) (nonneg : 0 ≤ d.value) (most : d.value ≤ 90)
    (yNegative xNegative : Bool) :
    ∃ r, turn yNegative xNegative d = .ok r ∧ Rounds (turned yNegative xNegative d.value) r.value := by
  have there : ∀ {v : ℚ} {result : Option Decimal}, Computes v (result.map value) → 0 ≤ v → v ≤ 360 →
      ∃ r, assumed result = .ok r ∧ Rounds v r.value := by
    intro v result computed nonneg most
    obtain ⟨r, same, rounds⟩ := computed.exists_of_le nonneg (by rw [capacity_cast]; linarith)
    exact ⟨r, congrArg assumed same, rounds⟩
  have subtracted := sub?_computes halfTurn_wellFormed wellFormed
  have added := add?_computes halfTurn_wellFormed wellFormed
  have taken := sub?_computes fullTurn_wellFormed wellFormed
  rw [value_halfTurn] at subtracted added
  rw [value_fullTurn] at taken
  cases yNegative with
  | false =>
    cases xNegative with
    | false => exact ⟨d, rfl, wellFormed.rounds⟩
    | true =>
      simp only [turn, turned]
      exact there subtracted (by linarith) (by linarith)
  | true =>
    cases xNegative with
    | false =>
      simp only [turn, turned]
      exact there taken (by linarith) (by linarith)
    | true =>
      simp only [turn, turned]
      exact there added (by linarith) (by linarith)

/-- The direction of a vector on no axis, from the angle in degrees that its ratio has. -/
structure Turns (y x r : Decimal) : Prop where
  angle : ∃ radians d, RatioAngle y.abs x.abs radians ∧ InDegrees radians d ∧
    Rounds (turned y.negative x.negative d.value) r.value

theorem direction_turns (first : y.WellFormed) (second : x.WellFormed) (above : y.isZero = false)
    (right : x.isZero = false) : ∃ r, direction y x = .ok r ∧ Turns y x r := by
  have positive : 0 < y.abs.value := by
    rw [value_abs]
    exact abs_pos.mpr (value_ne_zero above)
  have positive' : 0 < x.abs.value := by
    rw [value_abs]
    exact abs_pos.mpr (value_ne_zero right)
  obtain ⟨radians, found, angle⟩ := arctanQuotient_ratioAngle first.abs second.abs positive positive'
  have nonneg := angle.nonneg
  have most := angle.le_halfPi
  have small : radians.value ≤ 2 := by
    norm_num at most
    linarith
  obtain ⟨d, converted, degrees⟩ := toDegrees_inDegrees nonneg small
  obtain ⟨r, same, rounds⟩ :=
    turn_rounds degrees.wellFormed (degrees.nonneg nonneg) (degrees.le_ninety nonneg most) y.negative x.negative
  refine ⟨r, ?_, radians, d, angle, degrees, rounds⟩
  simp only [direction, above, right]
  rw [ok_bind found, ok_bind converted, ← same]
  rfl

/-- The quadrants, each with the axes at its borders. -/
structure Quadrants (y x r : ℚ) : Prop where
  first : 0 ≤ x → 0 ≤ y → 0 ≤ r ∧ r ≤ 90
  second : x ≤ 0 → 0 ≤ y → 90 ≤ r ∧ r ≤ 180
  third : x ≤ 0 → y < 0 → 180 ≤ r ∧ r ≤ 270
  fourth : 0 ≤ x → y < 0 → 270 ≤ r ∧ r ≤ 360

theorem between_of_rounds (low high : ℕ) (rounds : Rounds v w) (least : low ≤ v) (most : v ≤ high) :
    (low : ℚ) ≤ w ∧ w ≤ high := by
  constructor
  · exact_mod_cast rounds.intCast_le (n := low) (by exact_mod_cast least)
  · exact_mod_cast rounds.le_intCast (n := high) (by exact_mod_cast most)

theorem negative_eq_false (nonneg : 0 ≤ x.value) (nonzero : x.isZero = false) : x.negative = false := by
  rw [← Bool.not_eq_true, negative_iff nonzero]
  exact not_lt.mpr nonneg

theorem Turns.quadrants (turns : Turns y x r) (above : y.isZero = false) (right : x.isZero = false) :
    Quadrants y.value x.value r.value := by
  obtain ⟨radians, d, angle, degrees, rounds⟩ := turns.angle
  have least := degrees.nonneg angle.nonneg
  have most := degrees.le_ninety angle.nonneg angle.le_halfPi
  have up := negative_iff above
  have left : x.value ≤ 0 → x.negative = true := fun nonpos =>
    (negative_iff right).mpr (lt_of_le_of_ne nonpos (value_ne_zero right))
  refine ⟨fun hx hy => ?_, fun hx hy => ?_, fun hx hy => ?_, fun hx hy => ?_⟩
  · rw [negative_eq_false hy above, negative_eq_false hx right, turned] at rounds
    exact_mod_cast between_of_rounds 0 90 rounds (by exact_mod_cast least) (by exact_mod_cast most)
  · rw [negative_eq_false hy above, left hx, turned] at rounds
    exact_mod_cast between_of_rounds 90 180 rounds (by push_cast; linarith) (by push_cast; linarith)
  · rw [up.mpr hy, left hx, turned] at rounds
    exact_mod_cast between_of_rounds 180 270 rounds (by push_cast; linarith) (by push_cast; linarith)
  · rw [up.mpr hy, negative_eq_false hx right, turned] at rounds
    exact_mod_cast between_of_rounds 270 360 rounds (by push_cast; linarith) (by push_cast; linarith)

/-- Both halves of the vertical axis have their direction on the border of two quadrants. -/
theorem vertical_quadrants (above : y.isZero = false) :
    Quadrants y.value 0 (if y.negative then threeQuarterTurn else rightAngle).value := by
  cases sign : y.negative with
  | true =>
    have below : y.value < 0 := (negative_iff above).mp sign
    rw [if_pos rfl, value_threeQuarterTurn]
    constructor
    · intro _ up
      linarith
    · intro _ up
      linarith
    · norm_num
    · norm_num
  | false =>
    have up := value_nonneg sign
    rw [if_neg Bool.false_ne_true, value_rightAngle]
    constructor
    · norm_num
    · norm_num
    · intro _ below
      linarith
    · intro _ below
      linarith

theorem horizontal_quadrants (right : x.isZero = false) :
    Quadrants 0 x.value (if x.negative then halfTurn else .zero).value := by
  cases sign : x.negative with
  | true =>
    have left : x.value < 0 := (negative_iff right).mp sign
    rw [if_pos rfl, value_halfTurn]
    constructor
    · intro nonneg
      linarith
    · norm_num
    · norm_num
    · norm_num
  | false =>
    have nonneg := value_nonneg sign
    have positive : 0 < x.value := lt_of_le_of_ne nonneg (value_ne_zero right).symm
    rw [if_neg Bool.false_ne_true, value_zero]
    constructor
    · norm_num
    · intro nonpos
      linarith
    · norm_num
    · norm_num

/-- The direction of a vector on the vertical axis, on the horizontal one or on none. -/
inductive Directed (y x : Decimal) : Decimal → Prop
  | vertical (right : x.isZero = true) (above : y.isZero = false) :
      Directed y x (if y.negative then threeQuarterTurn else rightAngle)
  | horizontal (above : y.isZero = true) (right : x.isZero = false) : Directed y x (if x.negative then halfTurn else .zero)
  | turned (above : y.isZero = false) (right : x.isZero = false) {r : Decimal} (turns : Turns y x r) : Directed y x r

theorem direction_directed (first : y.WellFormed) (second : x.WellFormed) (nonzero : y.value ≠ 0 ∨ x.value ≠ 0) :
    ∃ r, direction y x = .ok r ∧ Directed y x r := by
  cases above : y.isZero with
  | false =>
    cases right : x.isZero with
    | false =>
      obtain ⟨r, found, turns⟩ := direction_turns first second above right
      exact ⟨r, found, .turned above right turns⟩
    | true => exact ⟨_, by simp only [direction, above, right], .vertical right above⟩
  | true =>
    have right : x.isZero = false := isZero_eq_false (nonzero.resolve_left (not_not.mpr (value_of_isZero above)))
    exact ⟨_, by simp only [direction, above, right], .horizontal above right⟩

theorem Directed.quadrants (directed : Directed y x r) : Quadrants y.value x.value r.value := by
  cases directed with
  | vertical right above =>
    rw [value_of_isZero right]
    exact vertical_quadrants above
  | horizontal above right =>
    rw [value_of_isZero above]
    exact horizontal_quadrants right
  | turned above right turns => exact turns.quadrants above right

/-- Every vector but the zero vector has a direction, in the closed quadrant of the vector. -/
theorem direction_quadrants (first : y.WellFormed) (second : x.WellFormed) (nonzero : y.value ≠ 0 ∨ x.value ≠ 0) :
    ∃ r, direction y x = .ok r ∧ Quadrants y.value x.value r.value := by
  obtain ⟨r, found, directed⟩ := direction_directed first second nonzero
  exact ⟨r, found, directed.quadrants⟩

/-- The angle below the horizontal axis is lost beside the full turn. -/
theorem direction_quadrants_full_turn :
    let y : Decimal := ⟨true, 1, 0⟩
    let x : Decimal := ⟨false, 10 ^ 28, 0⟩
    y.WellFormed ∧ x.WellFormed ∧ y.value ≠ 0 ∧ direction y x = .ok fullTurn ∧
      Quadrants y.value x.value fullTurn.value := by
  intro y x
  have first : y.WellFormed := ⟨by decide, by decide⟩
  have second : x.WellFormed := ⟨by decide, by decide⟩
  have nonzero : y.value ≠ 0 := value_ne_zero rfl
  have turned : direction y x = .ok fullTurn := by decide +kernel
  obtain ⟨r, found, quadrants⟩ := direction_quadrants first second (.inl nonzero)
  obtain rfl := Except.ok.inj (found.symm.trans turned)
  exact ⟨first, second, nonzero, turned, quadrants⟩

end StackCalculator.Angle

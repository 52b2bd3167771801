import StackCalculator.Angle.Direction
import StackCalculator.Proofs.IntegerQuotient
import StackCalculator.Proofs.UnitRoots

/-! Bounds of the arc tangent from zero to one. A halving divides by one and a root, which is
between two and five halves, and by exactly two where the square rounds to zero. Each term of
the series is small against the one before it, so the sum stays close to its first term: every
step adds a part of the term and of the last place. No step fails. -/
namespace StackCalculator

section Steps
variable {ε : Type} {result : Option α} {computed : Except ε α} {a : α}

theorem checked_bind {next : α → Except Failure β} (found : result = some a) :
    (checked result >>= next) = next a := by
  rw [found]
  rfl

theorem assumed_bind {next : α → Except Failure β} (found : result = some a) :
    (assumed result >>= next) = next a := by
  rw [found]
  rfl

theorem ok_bind {next : α → Except ε β} (found : computed = .ok a) : (computed >>= next) = next a := by
  rw [found]
  rfl

end Steps

namespace Decimal
variable {a b : Decimal} {v : ℚ}

theorem Computes.exists_of_abs_le {result : Option Decimal} (computed : Computes v (result.map value))
    (small : |v| ≤ 7) : ∃ d, result = some d ∧ Rounds v d.value := by
  cases result with
  | none => exact absurd ((Rounds.hasPlaces_of_le small).fits.of_le (Nat.zero_le _)) computed
  | some d => exact ⟨d, rfl, computed⟩

/-- The sum, the product or the quotient is there and is rounded to the last place. -/
structure Obtains (v : ℚ) (result : Option Decimal) (d : Decimal) : Prop where
  found : result = some d
  wellFormed : d.WellFormed
  rounds : Rounds v d.value

theorem exists_add (first : a.WellFormed) (second : b.WellFormed) (small : |a.value + b.value| ≤ 7) :
    ∃ d, Obtains (a.value + b.value) (a.add? b) d := by
  obtain ⟨d, found, rounds⟩ := (add?_computes first second).exists_of_abs_le small
  exact ⟨d, found, add?_wellFormed first second d found, rounds⟩

theorem exists_mul (a b : Decimal) (small : |a.value * b.value| ≤ 7) :
    ∃ d, Obtains (a.value * b.value) (a.mul? b) d := by
  obtain ⟨d, found, rounds⟩ := (mul?_computes a b).exists_of_abs_le small
  exact ⟨d, found, mul?_wellFormed a b d found, rounds⟩

theorem exists_div (first : a.WellFormed) (nonzero : b.value ≠ 0) (small : |a.value / b.value| ≤ 7) :
    ∃ d, Obtains (a.value / b.value) (a.div? b) d := by
  obtain ⟨d, found, rounds⟩ := (div?_computes first (isZero_eq_false nonzero)).exists_of_abs_le small
  exact ⟨d, found, div?_wellFormed first b d found, rounds⟩

end Decimal

namespace Angle
open Decimal
variable {z half square power n sum : Decimal}

/-- The tangent of half the angle, by a divisor that is two for a tangent without a square. -/
structure Halves (z half : Decimal) : Prop where
  wellFormed : half.WellFormed
  quotient : ∃ d : ℚ, 2 ≤ d ∧ d ≤ 5 / 2 ∧ (z.value ≤ 1 / 10 ^ 15 → d = 2) ∧ Rounds (z.value / d) half.value

theorem square_eq_zero {v w : ℚ} (rounds : Rounds (v * v) w) (nonneg : 0 ≤ v) (tiny : v ≤ 1 / 10 ^ 15) : w = 0 := by
  have square : v * v ≤ 1 / 10 ^ 15 * (1 / 10 ^ 15) := by gcongr
  norm_num at square
  obtain ⟨n, integer, nearest⟩ := rounds.units (by rw [abs_of_nonneg (by positivity)]; linarith)
  have near := abs_le.mp nearest.near
  have positive : 0 ≤ v * v := mul_nonneg nonneg nonneg
  have none : n = 0 := by
    have least : (-1 : ℚ) < n := by linarith
    have most : (n : ℚ) < 1 := by linarith
    have least : -1 < n := by exact_mod_cast least
    have most : n < 1 := by exact_mod_cast most
    omega
  rw [none, Int.cast_zero] at integer
  exact (mul_eq_zero.mp integer).resolve_right (by positivity)

theorem rounds_two : Rounds 2 2 := .exact (n := 2) (s := 0) (by decide) (by decide) (by norm_num)

/-- The sum of one and a root, and what it is without a square. -/
theorem exists_divisor (wellFormed : square.WellFormed) (nonneg : 0 ≤ square.value) (most : square.value ≤ 1) :
    ∃ sum root divisor, one.add? square = some sum ∧ sum.sqrt = .ok root ∧ one.add? root = some divisor ∧
      2 ≤ divisor.value ∧ divisor.value ≤ 5 / 2 ∧ (square.value = 0 → divisor.value = 2) := by
  obtain ⟨sum, added⟩ := exists_add wellFormed_one wellFormed
    (by rw [value_one, abs_of_nonneg (by linarith)]; linarith)
  have rounds := added.rounds
  rw [value_one] at rounds
  have one_le : (1 : ℚ) ≤ sum.value := by exact_mod_cast rounds.intCast_le (n := 1) (by push_cast; linarith)
  have le_two : sum.value ≤ (2 : ℚ) := by exact_mod_cast rounds.le_intCast (n := 2) (by push_cast; linarith)
  obtain ⟨root, found, kept, least, bound⟩ := sqrt_of_unit added.wellFormed one_le le_two
  obtain ⟨divisor, total⟩ := exists_add wellFormed_one kept
    (by rw [value_one, abs_of_nonneg (by linarith)]; linarith)
  have rounds' := total.rounds
  rw [value_one] at rounds'
  have half : Rounds (5 / 2) (5 / 2) := .exact (n := 25) (s := 1) (by decide) (by decide) (by norm_num)
  refine ⟨sum, root, divisor, added.found, found, total.found, ?_, ?_, ?_⟩
  · exact_mod_cast rounds'.intCast_le (n := 2) (by push_cast; linarith)
  · exact rounds'.mono half (by linarith) (by linarith)
  · intro zero
    have itself : one.add? square = some one := by
      rw [add?, if_neg (by decide), if_pos (isZero_iff.mpr zero)]
    obtain rfl : one = sum := Option.some.inj (itself.symm.trans added.found)
    have unit : one.sqrt = .ok ⟨false, 10000000000000000000000000000, 28⟩ := by decide +kernel
    obtain rfl := Except.ok.inj (unit.symm.trans found)
    have sum : (1 : ℚ) + value ⟨false, 10000000000000000000000000000, 28⟩ = 2 := by
      rw [value_mk]
      norm_num [Decimal.unit]
    rw [sum] at rounds'
    exact rounds'.unique rounds_two

theorem halfTangent_halves (wellFormed : z.WellFormed) (nonneg : 0 ≤ z.value) (most : z.value ≤ 1) :
    ∃ half, halfTangent z = .ok half ∧ Halves z half := by
  have bound : z.value * z.value ≤ 1 := mul_le_one₀ most nonneg most
  obtain ⟨square, squared⟩ := exists_mul z z (by rw [abs_of_nonneg (by positivity)]; linarith)
  have below : square.value ≤ (1 : ℚ) := by exact_mod_cast squared.rounds.le_intCast (n := 1) (by exact_mod_cast bound)
  obtain ⟨sum, root, divisor, added, found, total, two_le, le, tiny⟩ :=
    exists_divisor squared.wellFormed (squared.rounds.nonneg (by positivity)) below
  have ratio : |z.value / divisor.value| ≤ 7 := by
    rw [abs_of_nonneg (by positivity), div_le_iff₀ (by linarith)]
    linarith
  obtain ⟨half, divided⟩ := exists_div wellFormed (by linarith) ratio
  refine ⟨half, ?_, divided.wellFormed, divisor.value, two_le, le, fun small => ?_, divided.rounds⟩
  · rw [halfTangent, checked_bind squared.found, checked_bind added, ok_bind found, assumed_bind total, divided.found]
    rfl
  · exact tiny (square_eq_zero squared.rounds nonneg small)

namespace Halves
variable {v c : ℚ}

theorem nonneg (halves : Halves z half) (nonneg : 0 ≤ z.value) : 0 ≤ half.value := by
  obtain ⟨d, two_le, _, _, rounds⟩ := halves.quotient
  exact rounds.nonneg (by positivity)

/-- What twice the half cannot exceed, rounded, bounds the half. -/
theorem le (halves : Halves z half) (nonneg : 0 ≤ z.value) (rounds : Rounds v c) (most : z.value ≤ 2 * v) :
    half.value ≤ c := by
  obtain ⟨d, two_le, _, _, rounds'⟩ := halves.quotient
  refine rounds'.mono rounds (by positivity) ?_
  rw [div_le_iff₀ (by linarith)]
  nlinarith

/-- A number without a square is divided by two and rounded. -/
theorem ge (halves : Halves z half) (tiny : z.value ≤ 1 / 10 ^ 15) (nonneg : 0 ≤ v) (rounds : Rounds v c)
    (least : 2 * v ≤ z.value) : c ≤ half.value := by
  obtain ⟨d, _, _, two, rounds'⟩ := halves.quotient
  rw [two tiny] at rounds'
  exact rounds.mono rounds' nonneg (by linarith)

theorem le_half (halves : Halves z half) (nonneg : 0 ≤ z.value) (most : z.value ≤ 1) :
    2 / 5 * z.value - 1 / 2 / 10 ^ 28 ≤ half.value := by
  obtain ⟨d, two_le, le, _, rounds⟩ := halves.quotient
  have least : 2 / 5 * z.value ≤ z.value / d := by
    rw [le_div_iff₀ (by linarith)]
    nlinarith
  have bound : z.value / d ≤ 1 := by
    rw [div_le_iff₀ (by linarith)]
    linarith
  have near := (abs_le.mp (rounds.near_of_le (by rw [abs_of_nonneg (by positivity)]; linarith))).1
  linarith

end Halves

/-- The tangent of an eighth of the angle. -/
structure Eighth (z u : Decimal) : Prop where
  halved : ∃ h h', Halves z h ∧ Halves h h' ∧ Halves h' u

theorem halveAngle_succ {count : ℕ} {factor doubled : Decimal} (found : halfTangent z = .ok half)
    (twice : factor.mul? two = some doubled) : halveAngle (count + 1) z factor = halveAngle count half doubled := by
  rw [halveAngle, ok_bind found, assumed_bind twice]

theorem halveAngle_eighth (wellFormed : z.WellFormed) (nonneg : 0 ≤ z.value) (most : z.value ≤ 1) :
    ∃ u, halveAngle halvings z one = .ok (u, ofNat 8) ∧ Eighth z u ∧ u.WellFormed ∧ 0 ≤ u.value ∧
      u.value ≤ 1 / 8 := by
  obtain ⟨h, found, first⟩ := halfTangent_halves wellFormed nonneg most
  have above := first.nonneg nonneg
  have below := first.le nonneg (c := 1 / 2) (.exact (n := 5) (s := 1) (by decide) (by decide) (by norm_num)) (by linarith)
  obtain ⟨h', found', second⟩ := halfTangent_halves first.wellFormed above (by linarith)
  have above' := second.nonneg above
  have below' := second.le above (c := 1 / 4) (.exact (n := 25) (s := 2) (by decide) (by decide) (by norm_num)) (by linarith)
  obtain ⟨u, last, third⟩ := halfTangent_halves second.wellFormed above' (by linarith)
  refine ⟨u, ?_, ⟨h, h', first, second, third⟩, third.wellFormed, third.nonneg above', ?_⟩
  · have two : one.mul? two = some (ofNat 2) := by decide
    have four : (ofNat 2).mul? Decimal.two = some (ofNat 4) := by decide
    have eight : (ofNat 4).mul? Decimal.two = some (ofNat 8) := by decide
    rw [halvings, halveAngle_succ found two, halveAngle_succ found' four, halveAngle_succ last eight]
    rfl
  · exact third.le above' (.exact (n := 125) (s := 3) (by decide) (by decide) (by norm_num)) (by linarith)

/-- The negated product, the number it is divided by and the term that come after a power. -/
structure NextTerm (square power n product next term : Decimal) : Prop where
  multiplied : power.mul? square = some product
  counted : n.add? two = some next
  divided : product.neg.div? next = some term
  power_wellFormed : product.neg.WellFormed
  next_wellFormed : next.WellFormed
  term_wellFormed : term.WellFormed
  three_le : 3 ≤ next.value
  next_le : ∀ m : ℤ, n.value ≤ m → next.value ≤ (m + 2 : ℤ)
  power_le : |product.neg.value| ≤ |power.value| / 4 + 1 / 2 / 10 ^ 28
  term_le : |term.value| ≤ |power.value| / 12 + 2 / 3 / 10 ^ 28

theorem exists_nextTerm (least : 0 ≤ square.value) (most : square.value ≤ 1 / 4) (small : |power.value| ≤ 6)
    (wellFormed : n.WellFormed) (one_le : 1 ≤ n.value) (few : n.value ≤ 200) :
    ∃ product next term, NextTerm square power n product next term := by
  have part : |power.value * square.value| ≤ |power.value| / 4 := by
    rw [abs_mul, abs_of_nonneg least]
    nlinarith [abs_nonneg power.value]
  obtain ⟨product, multiplied⟩ := exists_mul power square (by linarith)
  have close := abs_sub_abs_le_abs_sub product.value (power.value * square.value)
  have near := multiplied.rounds.near_of_le (by linarith)
  have powerLe : |product.neg.value| ≤ |power.value| / 4 + 1 / 2 / 10 ^ 28 := by
    rw [value_neg, abs_neg]
    linarith
  have fits : two.WellFormed := wellFormed_ofNat (by decide)
  have sums := add?_computes wellFormed fits
  rw [value_two] at sums
  obtain ⟨next, counted, rounds⟩ := sums.exists_of_le (by linarith) (by rw [capacity_cast]; linarith)
  have three : (3 : ℚ) ≤ next.value := by exact_mod_cast rounds.intCast_le (n := 3) (by push_cast; linarith)
  have third : |product.neg.value / next.value| ≤ |product.neg.value| / 3 := by
    rw [abs_div, abs_of_pos (by linarith : 0 < next.value)]
    gcongr
  norm_num at powerLe
  obtain ⟨term, divided⟩ := exists_div multiplied.wellFormed.neg (by linarith : next.value ≠ 0) (by linarith)
  have close' := abs_sub_abs_le_abs_sub term.value (product.neg.value / next.value)
  have near' := divided.rounds.near_of_le (by linarith)
  norm_num at near'
  refine ⟨product, next, term, multiplied.found, counted, divided.found, multiplied.wellFormed.neg,
    add?_wellFormed wellFormed fits next counted, divided.wellFormed, three, ?_, ?_, ?_⟩
  · intro m bound
    exact rounds.le_intCast (by push_cast; linarith)
  · norm_num
    exact powerLe
  · norm_num
    linarith

theorem arctanSeries_succ {product next term : Decimal} (terms : NextTerm square power n product next term)
    (count : ℕ) (sum : Decimal) : arctanSeries square (count + 1) power n sum =
      if term.isZero then .ok sum
      else checked (sum.add? term) >>= fun sum => arctanSeries square count product.neg next sum := by
  rw [arctanSeries, checked_bind terms.multiplied, assumed_bind terms.counted, checked_bind terms.divided]
  rfl

/-- What is added is small against the first power and the last place. -/
theorem arctanSeries_near (least : 0 ≤ square.value) (most : square.value ≤ 1 / 4) (count : ℕ)
    (wellFormed : sum.WellFormed) (small : |sum.value| + |power.value| / 6 + 2 * count / 10 ^ 28 ≤ 1)
    (counter : n.WellFormed) (one_le : 1 ≤ n.value) (few : n.value ≤ (200 - 2 * count : ℤ)) :
    ∃ r, arctanSeries square count power n sum = .ok r ∧ r.WellFormed ∧
      |r.value - sum.value| ≤ |power.value| / 6 + 2 * count / 10 ^ 28 := by
  induction count generalizing power n sum with
  | zero =>
    refine ⟨sum, rfl, wellFormed, ?_⟩
    rw [sub_self, abs_zero]
    positivity
  | succ count ih =>
    push_cast at small few ⊢
    have nonneg := abs_nonneg sum.value
    have nonneg' := abs_nonneg power.value
    have positive : (0 : ℚ) ≤ count := Nat.cast_nonneg count
    norm_num at small ⊢
    obtain ⟨product, next, term, terms⟩ := exists_nextTerm least most (by linarith) counter one_le (by linarith)
    have powerLe := terms.power_le
    have termLe := terms.term_le
    norm_num at powerLe termLe
    rw [arctanSeries_succ terms]
    split
    · refine ⟨sum, rfl, wellFormed, ?_⟩
      rw [sub_self, abs_zero]
      positivity
    · have total := abs_add_le sum.value term.value
      obtain ⟨next', added⟩ := exists_add wellFormed terms.term_wellFormed (by linarith)
      have near := added.rounds.near_of_le (by linarith)
      have close := abs_sub_abs_le_abs_sub next'.value (sum.value + term.value)
      norm_num at near
      have few' : next.value ≤ (200 - 2 * count : ℤ) := by
        have step := terms.next_le (200 - 2 * (count + 1)) (by push_cast; linarith)
        rwa [show (200 - 2 * (count + 1) + 2 : ℤ) = 200 - 2 * count by ring] at step
      have small' : |next'.value| + |product.neg.value| / 6 + 2 * count / 10 ^ 28 ≤ 1 := by
        norm_num
        linarith
      obtain ⟨r, found, fits, bound⟩ := ih added.wellFormed small' terms.next_wellFormed (by linarith [terms.three_le]) few'
      norm_num at bound
      refine ⟨r, ?_, fits, ?_⟩
      · rw [checked_bind added.found, found]
      · have first := abs_sub_le r.value next'.value sum.value
        have second := abs_sub_le next'.value (sum.value + term.value) sum.value
        rw [add_sub_cancel_left] at second
        linarith

/-- Without a square the first term is zero. -/
theorem arctanSeries_of_isZero (zero : square.isZero = true) (count : ℕ) (power sum : Decimal) :
    arctanSeries square (count + 1) power one sum = .ok sum := by
  have product : power.mul? square = some .zero := by
    rw [mul?, zero, Bool.or_true]
    rfl
  have next : one.add? two = some (ofNat 3) := by decide +kernel
  have term : Decimal.zero.neg.div? (ofNat 3) = some .zero := by decide
  rw [arctanSeries, checked_bind product, assumed_bind next, checked_bind term]
  rfl

/-- The angle is about eight times the tangent of its eighth, and exactly that for a small one. -/
structure EightTimes (u r : Decimal) : Prop where
  least : 6 * u.value ≤ r.value
  most : r.value ≤ 10 * u.value
  exact : u.value ≤ 1 / 10 ^ 15 → r.value = 8 * u.value

/-- Eight times a few units are as many units. -/
theorem exists_eightfold {u : Decimal} (wellFormed : u.WellFormed) (nonneg : 0 ≤ u.value)
    (tiny : u.value ≤ 1 / 10 ^ 15) : ∃ r, u.mul? (ofNat 8) = some r ∧ r.WellFormed ∧ r.value = 8 * u.value := by
  have eight : (ofNat 8).value = 8 := value_ofNat 8
  obtain ⟨r, product⟩ := exists_mul u (ofNat 8) (by rw [eight, abs_of_nonneg (by positivity)]; linarith)
  obtain ⟨k, units⟩ := wellFormed.exists_units nonneg
  have fixed : Rounds (8 * u.value) (8 * u.value) := by
    have whole : 8 * u.value * 10 ^ 28 = (8 * k : ℤ) := by
      push_cast
      rw [mul_assoc, units]
    refine .exact (s := 28) ?_ le_rfl whole
    have bound : (8 * k : ℚ) < capacity := by
      rw [← units, capacity_cast]
      norm_num at tiny ⊢
      linarith
    exact_mod_cast bound
  have rounds := product.rounds
  rw [eight, mul_comm] at rounds
  exact ⟨r, product.found, product.wellFormed, rounds.unique fixed⟩

/-- Elsewhere the error of the sum is small against the tangent. -/
theorem exists_eightfold_near {u : Decimal} (large : 1 / 10 ^ 15 < u.value) (most : u.value ≤ 1 / 8)
    (near : |sum.value - u.value| ≤ u.value / 6 + 2 * seriesTerms / 10 ^ 28) :
    ∃ r, sum.mul? (ofNat 8) = some r ∧ r.WellFormed ∧ 6 * u.value ≤ r.value ∧ r.value ≤ 10 * u.value := by
  have eight : (ofNat 8).value = 8 := value_ofNat 8
  rw [seriesTerms] at near
  norm_num at near large
  obtain ⟨low, high⟩ := abs_le.mp near
  have bound : |sum.value * (ofNat 8).value| ≤ 7 := by
    rw [eight, abs_of_nonneg (by linarith)]
    linarith
  obtain ⟨r, product⟩ := exists_mul sum (ofNat 8) bound
  have close := abs_le.mp (product.rounds.near_of_le bound)
  rw [eight] at close
  norm_num at close
  exact ⟨r, product.found, product.wellFormed, by linarith, by linarith⟩

theorem exists_eightTimes {u : Decimal} (wellFormed : u.WellFormed) (nonneg : 0 ≤ u.value) (most : u.value ≤ 1 / 8) :
    ∃ square sum r, u.mul? u = some square ∧ arctanSeries square seriesTerms u one u = .ok sum ∧
      sum.mul? (ofNat 8) = some r ∧ r.WellFormed ∧ EightTimes u r := by
  have small : u.value * u.value ≤ 1 / 4 := by nlinarith
  obtain ⟨square, squared⟩ := exists_mul u u (by rw [abs_of_nonneg (by positivity)]; linarith)
  by_cases tiny : u.value ≤ 1 / 10 ^ 15
  · have zero := isZero_iff.mpr (square_eq_zero squared.rounds nonneg tiny)
    obtain ⟨r, product, fits, equal⟩ := exists_eightfold wellFormed nonneg tiny
    exact ⟨square, u, r, squared.found, arctanSeries_of_isZero zero 63 u u, product, fits,
      by linarith, by linarith, fun _ => equal⟩
  · have quarter : Rounds (1 / 4) (1 / 4) := .exact (n := 25) (s := 2) (by decide) (by decide) (by norm_num)
    have below := squared.rounds.mono quarter (by positivity) small
    have above := squared.rounds.nonneg (by positivity)
    have few : one.value ≤ (200 - 2 * seriesTerms : ℤ) := by
      rw [value_one, seriesTerms]
      norm_num
    have room : |u.value| + |u.value| / 6 + 2 * (seriesTerms : ℚ) / 10 ^ 28 ≤ 1 := by
      rw [abs_of_nonneg nonneg, seriesTerms]
      norm_num
      linarith
    obtain ⟨sum, found, _, near⟩ :=
      arctanSeries_near above below seriesTerms wellFormed room wellFormed_one value_one.ge few
    rw [abs_of_nonneg nonneg] at near
    obtain ⟨r, product, fits, least, most⟩ := exists_eightfold_near (not_le.mp tiny) most near
    exact ⟨square, sum, r, squared.found, found, product, fits, least, most, fun small => absurd small tiny⟩

/-- The angle that eight times the tangent of its eighth is close to. -/
structure ArcTangent (z r : Decimal) : Prop where
  eighth : ∃ u, Eighth z u ∧ 0 ≤ u.value ∧ u.value ≤ 1 / 8 ∧ EightTimes u r

/-- The arc tangent of a number from zero to one is there. -/
theorem arctanUnit_arcTangent (wellFormed : z.WellFormed) (nonneg : 0 ≤ z.value) (most : z.value ≤ 1) :
    ∃ r, arctanUnit z = .ok r ∧ r.WellFormed ∧ ArcTangent z r := by
  obtain ⟨u, halved, eighth, kept, above, below⟩ := halveAngle_eighth wellFormed nonneg most
  obtain ⟨square, sum, r, squared, summed, product, fits, times⟩ := exists_eightTimes kept above below
  refine ⟨r, ?_, fits, u, eighth, above, below, times⟩
  rw [arctanUnit, ok_bind halved]
  change (checked (u.mul? u) >>= _) = _
  rw [checked_bind squared, ok_bind summed, product]
  rfl

theorem ArcTangent.nonneg {r : Decimal} (tangent : ArcTangent z r) : 0 ≤ r.value := by
  obtain ⟨u, _, above, _, times⟩ := tangent.eighth
  have least := times.least
  linarith

theorem ArcTangent.le {r : Decimal} (tangent : ArcTangent z r) : r.value ≤ 5 / 4 := by
  obtain ⟨u, _, _, below, times⟩ := tangent.eighth
  have most := times.most
  linarith

end Angle
end StackCalculator

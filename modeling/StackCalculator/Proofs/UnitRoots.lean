import StackCalculator.Proofs.Roots
import StackCalculator.Proofs.RoundingOrder

/-! Roots of numbers from one to two. All places fit there, so an improvement is arithmetic on
integers, the numbers in units of the last place. Estimates that take turns would be neighbours,
and the number below them would solve an equation modulo twice the tenth power that has no
solution up to the root of two. So these roots are always found, and they are not below one. -/
namespace StackCalculator.Decimal

section Units
variable {a r q s h : ℚ} {R : ℤ}

/-- One improvement, in units. The sum is exact. -/
theorem Improves.units (improves : Improves a r q s h) (own : r * 10 ^ 28 = R) (small : |r| ≤ 3)
    (ratio : |a / r| ≤ 3) : ∃ Q H : ℤ, h * 10 ^ 28 = H ∧ NearestEven (a / r * 10 ^ 28) Q ∧
      NearestEven ((R + Q : ℤ) / 2) H := by
  obtain ⟨Q, quotient, nearest⟩ := improves.quotient.units (ratio.trans (by norm_num))
  have close := abs_le.mp (improves.quotient.near_of_le (ratio.trans (by norm_num)))
  obtain ⟨low, high⟩ := abs_le.mp ratio
  obtain ⟨low', high'⟩ := abs_le.mp small
  norm_num at close
  have total : |r + q| ≤ 7 := abs_le.mpr ⟨by linarith, by linarith⟩
  obtain ⟨S, sum, exact⟩ := improves.sum.units total
  have whole : (r + q) * 10 ^ 28 = (R + Q : ℤ) := by
    push_cast
    rw [add_mul, own, quotient]
  have equal : S = R + Q := exact.unique (whole ▸ NearestEven.intCast _)
  have same : s * 10 ^ 28 = (r + q) * 10 ^ 28 := by rw [sum, whole, equal]
  have same : s = r + q := mul_right_cancel₀ (by positivity) same
  have part : |s / 2| ≤ 7 := by
    rw [same, abs_div, abs_two]
    linarith [abs_nonneg (r + q)]
  obtain ⟨H, integer, half⟩ := improves.half.units part
  refine ⟨Q, H, integer, nearest, ?_⟩
  rwa [← whole, ← same, mul_div_right_comm]

theorem NearestEven.half_eq {S n : ℤ} (nearest : NearestEven ((S : ℚ) / 2) n) :
    S = 2 * n ∨ (S = 2 * n + 1 ∨ S = 2 * n - 1) ∧ Even n := by
  obtain ⟨low, high⟩ := abs_le.mp nearest.near
  have least : (2 * n - 1 : ℚ) ≤ S := by linarith
  have most : (S : ℚ) ≤ 2 * n + 1 := by linarith
  have least : 2 * n - 1 ≤ S := by exact_mod_cast least
  have most : S ≤ 2 * n + 1 := by exact_mod_cast most
  by_cases whole : S = 2 * n
  · exact .inl whole
  have tie : S = 2 * n + 1 ∨ S = 2 * n - 1 := by omega
  refine .inr ⟨tie, nearest.even ?_⟩
  rcases tie with rfl | rfl
  · push_cast
    rw [show ((2 * n + 1 : ℚ) / 2 - n) = 1 / 2 by ring, abs_of_pos one_half_pos]
  · push_cast
    rw [show ((2 * n - 1 : ℚ) / 2 - n) = -(1 / 2) by ring, abs_neg, abs_of_pos one_half_pos]

end Units

section Turns
variable {R R' Q Q' : ℤ} {A : ℚ}

/-- Two estimates that are each other's next one are neighbours, and only the quotient of the
lower one, an even number, was rounded up. -/
theorem turns_of_lt (first : NearestEven ((R + Q : ℤ) / 2) R') (second : NearestEven ((R' + Q' : ℤ) / 2) R)
    (close : |(R + Q) - (R' + Q')| ≤ 1) (less : R < R') :
    R' = R + 1 ∧ (R + Q = 2 * R + 1 ∧ R' + Q' = 2 * R ∨
      R + Q = 2 * R + 2 ∧ R' + Q' = 2 * R + 1 ∧ Even R) := by
  obtain ⟨low, high⟩ := abs_le.mp close
  have up := first.half_eq
  have down := second.half_eq
  rw [Int.even_iff] at up down ⊢
  omega

/-- Then twice the number is a product of the lower estimate. -/
theorem turns_product {K : ℤ} (positive : 0 < R) (first : NearestEven ((R + Q : ℤ) / 2) R')
    (second : NearestEven ((R' + Q' : ℤ) / 2) R) (quotient : NearestEven (K / R : ℚ) Q)
    (quotient' : NearestEven (K / R' : ℚ) Q') (close : |(R + Q) - (R' + Q')| ≤ 1) (less : R < R') :
    2 * K = R * (2 * R + 3) := by
  obtain ⟨rfl, cases⟩ := turns_of_lt first second close less
  have above : (0 : ℚ) < R := by exact_mod_cast positive
  have low := (abs_le.mp quotient.near).1
  have high := (abs_le.mp quotient'.near).2
  push_cast at high
  have least : (Q - 1 / 2 : ℚ) * R ≤ K := by
    rw [← le_div_iff₀ above]
    linarith
  have most : (K : ℚ) ≤ (Q' + 1 / 2) * (R + 1) := by
    rw [← div_le_iff₀ (by linarith)]
    linarith
  have least : (2 * Q - 1) * R ≤ 2 * K := by
    have : ((2 * Q - 1) * R : ℚ) ≤ 2 * K := by linarith
    exact_mod_cast this
  have most : 2 * K ≤ (2 * Q' + 1) * (R + 1) := by
    have : (2 * K : ℚ) ≤ (2 * Q' + 1) * (R + 1) := by linarith
    exact_mod_cast this
  rcases cases with ⟨up, down⟩ | ⟨up, down, even⟩
  · obtain rfl : Q = R + 1 := by omega
    obtain rfl : Q' = R - 1 := by omega
    exact absurd (least.trans most) (by linarith)
  · obtain rfl : Q = R + 2 := by omega
    obtain rfl : Q' = R := by omega
    obtain ⟨j, rfl⟩ := even
    -- Both bounds leave one even number.
    have parity : (j + j) * (2 * (j + j) + 3) = 2 * (j * (4 * j + 3)) := by ring
    have low : 2 * (j * (4 * j + 3)) ≤ 2 * K := by linarith
    have high : 2 * K ≤ 2 * (j * (4 * j + 3)) + 1 := by linarith
    omega

theorem two_pow_dvd {n R : ℕ} (divides : 2 ^ n ∣ R * (2 * R + 3)) : 2 ^ n ∣ R := by
  have odd : Odd (2 * R + 3) := ⟨R + 1, by ring⟩
  exact (odd.coprime_two_left.pow_left n).dvd_of_dvd_mul_right divides

theorem five_pow_dvd {n R : ℕ} (divides : 5 ^ n ∣ R * (2 * R + 3)) : 5 ^ n ∣ R ∨ 5 ^ n ∣ 2 * R + 3 := by
  have prime : Nat.Prime 5 := by norm_num
  by_cases five : 5 ∣ R
  · have other : ¬5 ∣ 2 * R + 3 := by omega
    have coprime := (prime.coprime_iff_not_dvd.mpr other).pow_left n
    exact .inl (coprime.dvd_of_dvd_mul_right divides)
  · have coprime := (prime.coprime_iff_not_dvd.mpr five).pow_left n
    exact .inr (coprime.dvd_of_dvd_mul_left divides)

theorem two_five_pow_le {R : ℕ} (twos : 2 ^ 29 ∣ R) (fives : 5 ^ 28 ∣ R) (positive : 0 < R) : 2 * 10 ^ 28 ≤ R := by
  have coprime : Nat.Coprime (2 ^ 29) (5 ^ 28) := by norm_num
  have both : 2 ^ 29 * 5 ^ 28 ∣ R := coprime.mul_dvd_of_dvd_of_dvd twos fives
  exact (by norm_num : 2 * 10 ^ 28 = 2 ^ 29 * 5 ^ 28).le.trans (Nat.le_of_dvd positive both)

/-- The solution of the second congruence that is next to zero. -/
def turningPoint : ℕ := 19929966088384389877319335936

/-- No number up to three halves solves the equation of estimates that take turns. -/
theorem not_turns {R K : ℕ} (equal : 2 * (10 ^ 28 * K) = R * (2 * R + 3)) (positive : 0 < R)
    (most : R ≤ 15 * 10 ^ 27) : False := by
  have twos : 2 ^ 29 ∣ R := two_pow_dvd ⟨5 ^ 28 * K, by rw [← equal]; ring⟩
  have fives : 5 ^ 28 ∣ R ∨ 5 ^ 28 ∣ 2 * R + 3 := five_pow_dvd ⟨2 ^ 29 * K, by rw [← equal]; ring⟩
  rcases fives with fives | fives
  · have large := two_five_pow_le twos fives positive
    norm_num at large most
    linarith
  · have less : R < turningPoint := most.trans_lt (by norm_num [turningPoint])
    have twos' : 2 ^ 29 ∣ turningPoint - R := Nat.dvd_sub (by norm_num [turningPoint]) twos
    have total : 2 * turningPoint + 3 - (2 * R + 3) = 2 * (turningPoint - R) := by
      rw [Nat.add_sub_add_right, Nat.mul_sub]
    have double : 5 ^ 28 ∣ 2 * (turningPoint - R) := by
      rw [← total]
      exact Nat.dvd_sub (by norm_num [turningPoint]) fives
    have coprime : Nat.Coprime (5 ^ 28) 2 := by norm_num
    have large := two_five_pow_le twos' (coprime.dvd_of_dvd_mul_left double) (Nat.sub_pos_of_lt less)
    have small : turningPoint < 2 * 10 ^ 28 := by norm_num [turningPoint]
    exact absurd (large.trans (Nat.sub_le _ _)) small.not_ge

end Turns

variable {a r r' : Decimal} {x : ℝ}

theorem WellFormed.exists_units (wellFormed : a.WellFormed) (nonneg : 0 ≤ a.value) :
    ∃ n : ℕ, a.value * 10 ^ 28 = n := by
  refine ⟨a.coefficient * 10 ^ (28 - a.scale), ?_⟩
  have places : a.scale + (28 - a.scale) = 28 := Nat.add_sub_cancel' wellFormed.scale_le
  rw [← abs_of_nonneg nonneg, abs_value, ← places, pow_add, places]
  push_cast
  rw [div_mul_eq_mul_div, mul_left_comm, mul_div_cancel_left₀ _ (by positivity)]

/-- The root of a number from one to two. -/
structure UnitRoot (a : Decimal) (x : ℝ) : Prop extends RootOf a x where
  one_le : 1 ≤ a.value
  le_two : a.value ≤ 2

namespace UnitRoot

theorem one_le_root (root : UnitRoot a x) : 1 ≤ x := by
  have least : (1 : ℝ) ≤ a.value := by exact_mod_cast root.one_le
  have positive := root.positive
  nlinarith [root.square]

theorem root_le (root : UnitRoot a x) : x ≤ 142 / 100 := by
  have most : (a.value : ℝ) ≤ 2 := by exact_mod_cast root.le_two
  have positive := root.positive
  nlinarith [root.square]

theorem places (root : UnitRoot a x) : Places x 28 := by
  refine ⟨le_rfl, ?_, .inl rfl⟩
  have most := root.root_le
  rw [capacity_cast]
  norm_num
  linarith

theorem late_bounds (root : UnitRoot a x) (late : Late x r) : 1 / 2 ≤ r.value ∧ r.value ≤ 3 / 2 := by
  have near := abs_le.mp late.near
  have least := root.one_le_root
  have most := root.root_le
  norm_num at near
  rw [← Rat.cast_le (K := ℝ), ← Rat.cast_le (K := ℝ)]
  push_cast
  constructor
  · linarith
  · linarith

end UnitRoot

/-- An estimate for the root of `A` and the next one, in units of the last place. Between them
are the quotient and an exact sum close to twice the root. -/
structure UnitStep (A : ℕ) (x : ℝ) (R H : ℕ) : Prop where
  positive : 0 < R
  most : R ≤ 15 * 10 ^ 27
  step : ∃ Q : ℤ, NearestEven (((10 ^ 28 * A : ℤ) : ℚ) / (R : ℤ)) Q ∧ NearestEven ((R + Q : ℤ) / 2) H ∧
    |((R + Q : ℤ) : ℝ) - 2 * (x * 10 ^ 28)| ≤ 3 / 4

theorem UnitRoot.unitStep (root : UnitRoot a x) (late : Late x r) {q s : ℚ}
    (improves : Improves a.value r.value q s r'.value) {A R H : ℕ} (number : a.value * 10 ^ 28 = A)
    (own : r.value * 10 ^ 28 = R) (next : r'.value * 10 ^ 28 = H) : UnitStep A x R H := by
  obtain ⟨least, most⟩ := root.late_bounds late
  have above : 0 < r.value := by linarith
  have nonneg : 0 ≤ a.value := zero_le_one.trans root.one_le
  have ratio : |a.value / r.value| ≤ 3 := by
    have bound := root.div_le late.half
    have twice := root.root_le
    rw [abs_of_nonneg (by positivity), ← Rat.cast_le (K := ℝ)]
    push_cast
    linarith
  obtain ⟨Q, H', integer, quotient, half⟩ :=
    improves.units (R := R) own (by rw [abs_of_pos above]; linarith) ratio
  obtain rfl : H' = H := by exact_mod_cast integer.symm.trans next
  have scaled : a.value / r.value * 10 ^ 28 = ((10 ^ 28 * A : ℤ) : ℚ) / (R : ℤ) := by
    rw [Int.cast_mul, Int.cast_pow, Int.cast_ofNat, Int.cast_natCast, Int.cast_natCast, ← number, ← own,
      ← mul_assoc, mul_div_mul_right _ _ (by positivity)]
    ring
  refine ⟨?_, ?_, Q, scaled ▸ quotient, half, ?_⟩
  · have some : (0 : ℚ) < R := by rw [← own]; positivity
    exact_mod_cast some
  · have bound : (R : ℚ) ≤ 15 * 10 ^ 27 := by
      rw [← own]
      linarith
    exact_mod_cast bound
  · obtain ⟨low, high⟩ := late.sum_le root.toRootOf root.places
    have near := (Rat.cast_le (K := ℝ)).mpr quotient.near
    have integer : (r.value * 10 ^ 28 : ℝ) = R := by exact_mod_cast own
    push_cast at near ⊢
    rw [add_mul, integer] at low high
    rw [abs_le] at near ⊢
    constructor
    · linarith
    · linarith

/-- Estimates do not take turns. -/
theorem UnitStep.not_lt {A R R' : ℕ} (first : UnitStep A x R R') (second : UnitStep A x R' R) : ¬R < R' := by
  intro less
  obtain ⟨Q, quotient, half, near⟩ := first.step
  obtain ⟨Q', quotient', half', near'⟩ := second.step
  have close : |((R : ℤ) + Q) - (R' + Q')| ≤ 1 := by
    obtain ⟨low, high⟩ := abs_le.mp near
    obtain ⟨low', high'⟩ := abs_le.mp near'
    have above : ((R + Q : ℤ) : ℝ) < (R' + Q' + 2 : ℤ) := by
      rw [Int.cast_add _ 2, Int.cast_ofNat]
      linarith
    have below : ((R' + Q' : ℤ) : ℝ) < (R + Q + 2 : ℤ) := by
      rw [Int.cast_add _ 2, Int.cast_ofNat]
      linarith
    rw [Int.cast_lt] at above below
    exact abs_le.mpr ⟨by omega, by omega⟩
  have product := turns_product (by exact_mod_cast first.positive) half half' quotient quotient' close
    (by exact_mod_cast less)
  exact not_turns (by exact_mod_cast product) first.positive first.most

/-- Late estimates in units, each with the next one. -/
theorem UnitRoot.estimates (root : UnitRoot a x) : ∃ (A : ℕ) (R : ℕ → ℕ), a.value * 10 ^ 28 = A ∧
    ∀ n, (estimate a (n + 501)).value * 10 ^ 28 = R n ∧ UnitStep A x (R n) (R (n + 1)) := by
  obtain ⟨A, number⟩ := root.wellFormed.exists_units (zero_le_one.trans root.one_le)
  have units : ∀ n, ∃ R : ℕ, (estimate a (n + 501)).value * 10 ^ 28 = R := by
    intro n
    have late := estimate_late root.toRootOf n
    exact late.wellFormed.exists_units (by linarith [(root.late_bounds late).1])
  choose R own using units
  refine ⟨A, R, number, fun n => ⟨own n, ?_⟩⟩
  obtain ⟨q, s, improves⟩ := estimate_improves root.toRootOf (n + 500)
  exact root.unitStep (estimate_late root.toRootOf n) improves number (own n) (own (n + 1))

theorem UnitRoot.not_alternates (root : UnitRoot a x) (n : ℕ) : ¬AlternatesFrom a n := by
  intro alternates
  obtain ⟨apart, again⟩ := alternates (n + 501) (Nat.le_add_right n 501)
  obtain ⟨A, R, _, units⟩ := root.estimates
  have same : R (n + 2) = R n := by
    have scaled := congrArg (· * (10 : ℚ) ^ 28) again
    simp only [(units n).1, (units (n + 2)).1] at scaled
    exact_mod_cast scaled
  have up := (units n).2
  have down := (units (n + 1)).2
  rw [same] at down
  have equal : R (n + 1) = R n := by
    have first := up.not_lt down
    have second := down.not_lt up
    omega
  have scaled : (estimate a (n + 1 + 501)).value * 10 ^ 28 = (estimate a (n + 501)).value * 10 ^ 28 := by
    rw [(units n).1, (units (n + 1)).1, equal]
  exact apart (mul_right_cancel₀ (by positivity) scaled)

/-- A number that is its own next estimate is not below one. -/
theorem UnitStep.one_le {A R : ℕ} (step : UnitStep A x R R) (least : 10 ^ 28 ≤ A) : 10 ^ 28 ≤ R := by
  by_contra below
  obtain ⟨Q, quotient, half, _⟩ := step.step
  have above : (0 : ℚ) < R := by exact_mod_cast step.positive
  have ratio : ((10 ^ 28 + 1 : ℤ) : ℚ) ≤ ((10 ^ 28 * A : ℤ) : ℚ) / (R : ℤ) := by
    rw [Int.cast_natCast, le_div_iff₀ above]
    have product : (10 ^ 28 + 1) * R ≤ 10 ^ 28 * A := by nlinarith
    exact_mod_cast product
  have large : 10 ^ 28 + 1 ≤ Q := (NearestEven.intCast _).mono ratio quotient
  have sum := half.half_eq
  omega

theorem UnitRoot.one_le_settled (root : UnitRoot a x) {n : ℕ} (settles : Settles a n) : 1 ≤ (estimate a (n + 1)).value := by
  obtain ⟨A, R, number, units⟩ := root.estimates
  have late : (estimate a (n + 501)).value = (estimate a (n + 1)).value := by
    rw [settles.eq_of_le root.toRootOf (Nat.le_add_right n 501), settles.eq_of_le root.toRootOf (Nat.le_succ n)]
  have next : (estimate a (n + 1 + 501)).value = (estimate a (n + 1)).value := by
    rw [settles.eq_of_le root.toRootOf (by omega : n ≤ n + 1 + 501), settles.eq_of_le root.toRootOf (Nat.le_succ n)]
  have own : (estimate a (n + 1)).value * 10 ^ 28 = R n := late ▸ (units n).1
  have same : R (n + 1) = R n := by
    have scaled := (units (n + 1)).1
    rw [next, own] at scaled
    exact_mod_cast scaled.symm
  have step := (units n).2
  rw [same] at step
  have least : 10 ^ 28 ≤ A := by
    have scaled : (10 ^ 28 : ℚ) ≤ A := by
      rw [← number]
      linarith [root.one_le]
    exact_mod_cast scaled
  have least : (10 ^ 28 : ℚ) ≤ R n := by exact_mod_cast step.one_le least
  rw [← own] at least
  exact le_of_mul_le_mul_right (by rwa [one_mul]) (by positivity : (0 : ℚ) < 10 ^ 28)

/-- The root of a number from one to two is found, from one to three halves. -/
theorem sqrt_of_unit (wellFormed : a.WellFormed) (least : 1 ≤ a.value) (most : a.value ≤ 2) :
    ∃ r, a.sqrt = .ok r ∧ r.WellFormed ∧ 1 ≤ r.value ∧ r.value ≤ 3 / 2 := by
  have root : UnitRoot a √(a.value : ℝ) := ⟨rootOf_sqrt wellFormed (by linarith), least, most⟩
  rcases settles_or_alternates root.toRootOf with ⟨n, early, settles⟩ | alternates
  · obtain ⟨m, le, first, found⟩ := sqrt_of_settles root.toRootOf settles (Nat.lt_of_le_of_lt early (by decide))
    refine ⟨_, found, estimate_wellFormed root.toRootOf (m + 1), root.one_le_settled first, ?_⟩
    have late := estimate_late root.toRootOf m
    rw [first.eq_of_le root.toRootOf (Nat.le_succ m), ← first.eq_of_le root.toRootOf (Nat.le_add_right m 501)]
    exact (root.late_bounds late).2
  · exact absurd alternates (root.not_alternates 503)

end StackCalculator.Decimal

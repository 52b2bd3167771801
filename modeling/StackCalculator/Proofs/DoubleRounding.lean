import StackCalculator.Proofs.Places
import StackCalculator.Proofs.Rules
import StackCalculator.Proofs.Significance

/-! Quotients are rounded twice: to the places of the format, and then to the digits that are
kept. The second rounding starts from a number on a finer grid, and finds what one rounding
of the exact quotient would have found, unless the first one ends halfway between two numbers
of the coarser grid and hides on which side of it the quotient is. -/
namespace StackCalculator
namespace Decimal
variable {v w q : ℚ} {e f : ℤ} {p t : ℕ}

/-- In the middle between two neighbours. -/
def Halfway (e : ℤ) (q : ℚ) : Prop := ∃ j : ℤ, q = (j + 1 / 2) * 10 ^ e

/-- The number `q` that stands for `v` is in the middle between two neighbours, and the even
one of them is not on the side where `v` is. -/
def Misleads (e : ℤ) (v q : ℚ) : Prop := Halfway e q ∧ v ≠ q ∧ ¬(roundAt e q < q ↔ v < q)

theorem roundAt_eq_of_lt {k : ℤ} (close : |v - k * 10 ^ e| < 1 / 2 * 10 ^ e) : roundAt e v = k * 10 ^ e := by
  rw [abs_sub_grid, mul_lt_mul_iff_left₀ (tenPow_pos e)] at close
  rw [roundAt, nearestInt_eq_of_lt close]

theorem OnGrid.sub (first : OnGrid e v) (second : OnGrid e w) : OnGrid e (v - w) := by
  obtain ⟨j, rfl⟩ := first
  obtain ⟨k, rfl⟩ := second
  refine ⟨j - k, ?_⟩
  push_cast
  ring

theorem OnGrid.abs (grid : OnGrid e v) : OnGrid e |v| := by
  obtain ⟨k, rfl⟩ := grid
  exact ⟨|k|, by rw [abs_mul, abs_of_pos (tenPow_pos e), Int.cast_abs]⟩

theorem OnGrid.of_abs (grid : OnGrid e |v|) : OnGrid e v := by
  rcases abs_choice v with same | same
  · exact same ▸ grid
  · obtain ⟨k, equal⟩ := grid
    exact ⟨-k, by rw [Int.cast_neg, neg_mul, ← equal, same, neg_neg]⟩

/-- Between two different numbers of a grid there is a unit at least. -/
theorem OnGrid.add_le (first : OnGrid e v) (second : OnGrid e w) (less : v < w) : v + 10 ^ e ≤ w := by
  obtain ⟨j, rfl⟩ := first
  obtain ⟨k, rfl⟩ := second
  rw [mul_lt_mul_iff_left₀ (tenPow_pos e)] at less
  have step : j + 1 ≤ k := by exact_mod_cast less
  have step : (j : ℚ) + 1 ≤ k := by exact_mod_cast step
  have power := tenPow_pos e
  calc (j : ℚ) * 10 ^ e + 10 ^ e = (j + 1) * 10 ^ e := by ring
    _ ≤ k * 10 ^ e := by gcongr

theorem onGrid_half (less : f < e) : OnGrid f (1 / 2 * 10 ^ e) := by
  refine OnGrid.of_le (e := e - 1) ⟨5, ?_⟩ (by omega)
  rw [zpow_sub_one₀ (by norm_num)]
  push_cast
  ring

theorem not_halfway_of_onGrid (grid : OnGrid e q) : ¬Halfway e q := by
  rintro ⟨j, middle⟩
  obtain ⟨k, rfl⟩ := grid
  rw [mul_left_inj' (tenPow_pos e).ne'] at middle
  have twice : (2 * k : ℚ) = 2 * j + 1 := by
    rw [middle]
    ring
  have twice : 2 * k = 2 * j + 1 := by exact_mod_cast twice
  omega

theorem lt_of_not_halfway (between : ¬Halfway e q) : |q - roundAt e q| < 1 / 2 * 10 ^ e := by
  refine lt_of_le_of_ne (roundAt_near e q) fun tie => between ?_
  rw [roundAt, abs_sub_grid, mul_left_inj' (tenPow_pos e).ne'] at tie
  have whole : q = q / 10 ^ e * 10 ^ e := (div_mul_cancel₀ q (tenPow_pos e).ne').symm
  rcases (abs_eq (by norm_num)).mp tie with above | below
  · refine ⟨nearestInt (q / 10 ^ e), whole.trans ?_⟩
    congr 1
    linarith
  · refine ⟨nearestInt (q / 10 ^ e) - 1, whole.trans ?_⟩
    congr 1
    push_cast
    linarith

/-- Away from the middle a number of the finer grid is a unit away from it, and what it stands
for is closer to it than that. -/
theorem roundAt_roundAt_of_not_halfway (le : f ≤ e) (between : ¬Halfway e (roundAt f v)) :
    roundAt e v = roundAt e (roundAt f v) := by
  rcases le.eq_or_lt with rfl | less
  · rw [roundAt_of_onGrid (onGrid_roundAt f v)]
  have fine := onGrid_roundAt f v
  have coarse := onGrid_roundAt e (roundAt f v)
  have apart := (fine.sub (coarse.of_le le)).abs.add_le (onGrid_half less) (lt_of_not_halfway between)
  have near := roundAt_near f v
  have triangle := abs_sub_le v (roundAt f v) (roundAt e (roundAt f v))
  have power := tenPow_pos f
  exact roundAt_eq_of_lt (by change |v - roundAt e (roundAt f v)| < _; linarith)

/-- The neighbours of a middle, and on which side of it the even one is. -/
theorem roundAt_middle (j e : ℤ) : let q : ℚ := (j + 1 / 2) * 10 ^ e
    (roundAt e q < q ∧ roundAt e q = j * 10 ^ e) ∨ (q < roundAt e q ∧ roundAt e q = (j + 1 : ℤ) * 10 ^ e) := by
  intro q
  have power := tenPow_pos e
  have middle : q / 10 ^ e = j + 1 / 2 := mul_div_cancel_right₀ _ power.ne'
  have near := abs_le.mp (nearestEven_nearestInt (q / 10 ^ e)).near
  rw [middle] at near
  have lower : (j : ℚ) ≤ nearestInt (j + 1 / 2) := by linarith
  have upper : (nearestInt (j + 1 / 2) : ℚ) ≤ j + 1 := by linarith
  have lower : j ≤ nearestInt (j + 1 / 2) := by exact_mod_cast lower
  have upper : nearestInt (j + 1 / 2) ≤ j + 1 := by exact_mod_cast upper
  simp only [roundAt, middle, q]
  rcases lower.eq_or_lt with equal | more
  · rw [← equal, mul_lt_mul_iff_left₀ power]
    exact .inl ⟨by linarith, rfl⟩
  · rw [show nearestInt ((j : ℚ) + 1 / 2) = j + 1 by omega, mul_lt_mul_iff_left₀ power]
    refine .inr ⟨?_, rfl⟩
    push_cast
    linarith

/-- Beside a middle the neighbour on the same side is nearest. -/
theorem roundAt_beside {j : ℤ} (close : |v - (j + 1 / 2) * 10 ^ e| < 1 / 2 * 10 ^ e) :
    (v < (j + 1 / 2) * 10 ^ e → roundAt e v = j * 10 ^ e) ∧
      ((j + 1 / 2) * 10 ^ e < v → roundAt e v = (j + 1 : ℤ) * 10 ^ e) := by
  have bounds := abs_lt.mp close
  constructor
  · intro below
    refine roundAt_eq_of_lt (abs_lt.mpr ⟨?_, ?_⟩)
    · linarith
    · linarith
  · intro above
    refine roundAt_eq_of_lt (abs_lt.mpr ⟨?_, ?_⟩)
    · push_cast
      linarith
    · push_cast
      linarith

theorem Halfway.lt_of_onGrid (halfway : Halfway e q) (grid : OnGrid f q) (le : f ≤ e) : f < e :=
  lt_of_le_of_ne le fun same => not_halfway_of_onGrid (same ▸ grid) halfway

theorem tenPow_le_tenth (less : f < e) : (10 : ℚ) ^ f ≤ 1 / 10 * 10 ^ e := by
  calc (10 : ℚ) ^ f ≤ 10 ^ (e - 1) := tenPow_le (by omega)
    _ = 1 / 10 * 10 ^ e := by
      rw [zpow_sub_one₀ (by norm_num)]
      ring

/-- Rounding twice is rounding once, unless the first rounding misleads the second. -/
theorem roundAt_roundAt_iff (le : f ≤ e) :
    roundAt e (roundAt f v) = roundAt e v ↔ ¬Misleads e v (roundAt f v) := by
  by_cases halfway : Halfway e (roundAt f v)
  · have tenth := tenPow_le_tenth (halfway.lt_of_onGrid (onGrid_roundAt f v) le)
    have near := roundAt_near f v
    have power := tenPow_pos e
    unfold Misleads
    rw [and_iff_right halfway, not_and, not_not]
    obtain ⟨j, middle⟩ := halfway
    rw [middle] at near ⊢
    obtain ⟨below, above⟩ := roundAt_beside (v := v) (j := j) (e := e) (by linarith)
    have step : (j : ℚ) * 10 ^ e < (j + 1 : ℤ) * 10 ^ e := by
      push_cast
      linarith
    rcases lt_trichotomy v ((j + 1 / 2) * 10 ^ e) with less | same | more
    · rw [below less]
      rcases roundAt_middle j e with ⟨side, equal⟩ | ⟨side, equal⟩
      · exact iff_of_true equal fun _ => iff_of_true side less
      · exact iff_of_false (equal ▸ step.ne') fun agree => side.not_gt ((agree less.ne).mpr less)
    · rw [← same]
      exact iff_of_true rfl fun apart => absurd rfl apart
    · rw [above more]
      rcases roundAt_middle j e with ⟨side, equal⟩ | ⟨side, equal⟩
      · exact iff_of_false (equal ▸ step.ne) fun agree => more.not_gt ((agree more.ne').mp side)
      · exact iff_of_true equal fun _ => iff_of_false side.not_gt more.not_gt
  · exact iff_of_true (roundAt_roundAt_of_not_halfway le halfway).symm fun misled => halfway misled.1

/-- Two roundings miss a number by little more than half a unit of the coarser grid. -/
theorem roundAt_roundAt_near (le : f ≤ e) (v : ℚ) : |roundAt e (roundAt f v) - v| ≤ 11 / 20 * 10 ^ e := by
  have power := tenPow_pos e
  by_cases halfway : Halfway e (roundAt f v)
  · have tenth := tenPow_le_tenth (halfway.lt_of_onGrid (onGrid_roundAt f v) le)
    have first := roundAt_near f v
    have second := roundAt_near e (roundAt f v)
    have triangle := abs_sub_le v (roundAt f v) (roundAt e (roundAt f v))
    rw [abs_sub_comm]
    linarith
  · have near := roundAt_near e v
    rw [← roundAt_roundAt_of_not_halfway le halfway, abs_sub_comm]
    linarith

/-- The power of ten at the `p`-th significant digit, or at the last place of the format. -/
def lastPlace (p : ℕ) (v : ℚ) : ℤ := max (place p v) (-maxScale)

theorem RoundsAt.eq_roundAt (rounds : RoundsAt v q t) : q = roundAt (-t) v := by
  have power : (10 : ℚ) ^ t ≠ 0 := by positivity
  rw [roundAt, zpow_neg, zpow_natCast, div_inv_eq_mul, ← rounds.nearest, mul_inv_cancel_right₀ power]

/-- The first rounding keeps every digit that the second one keeps. -/
theorem RoundsAt.neg_le_lastPlace (rounds : RoundsAt v q t) (few : p ≤ maxPrecision) : -(t : ℤ) ≤ lastPlace p v := by
  have most : maxPrecision = 28 := rfl
  rcases rounds.most with rfl | full
  · exact le_max_right _ _
  refine le_max_of_le_left ?_
  have full : ¬FitsAt |v| (t + 1) := fun fits => full (fits.of_abs_le (abs_abs v).ge)
  have large := lt_of_not_fitsAt (abs_nonneg v) full
  have power := tenPow_pos (t + 1 : ℕ)
  have least : (10 : ℚ) ^ ((28 : ℤ) - (t + 1 : ℕ)) < |v| := by
    rw [zpow_sub₀ (by norm_num), div_lt_iff₀ power, zpow_natCast, zpow_ofNat]
    refine lt_trans ?_ large
    rw [capacity_cast]
    norm_num
  have first := least.trans (lt_pow_place p v)
  rw [zpow_lt_zpow_iff_right₀ (by norm_num)] at first
  push_cast at first
  omega

/-- The second rounding finds the place of the digit in the number that the first one leaves,
and where that is another place, nothing is left to be rounded. -/
theorem RoundsAt.roundAt_place (rounds : RoundsAt v q t) (positive : 0 < p) (few : p ≤ maxPrecision) :
    roundAt (place p q) q = roundAt (lastPlace p v) q := by
  have le := rounds.neg_le_lastPlace few
  have le_scale := rounds.le
  have fine : OnGrid (-t) q := rounds.eq_roundAt ▸ onGrid_roundAt _ v
  have size : |q| = roundAt (-t) |v| := by rw [rounds.eq_roundAt, abs_roundAt]
  have most : |q| ≤ 10 ^ (lastPlace p v + p) := by
    rw [size, ← roundAt_of_onGrid (onGrid_pow (f := -t) (e := lastPlace p v + p) (by omega))]
    refine roundAt_mono ((lt_pow_place p v).le.trans (tenPow_le ?_))
    exact Int.add_le_add_right (le_max_left _ _) _
  by_cases grid : OnGrid (lastPlace p v) q
  · rw [(grid.hasDigits positive most).roundAt_place positive, roundAt_of_onGrid grid]
  have less : -(t : ℤ) < lastPlace p v := lt_of_le_of_ne le fun same => grid (same ▸ fine)
  have digit : lastPlace p v = place p v := max_eq_left (by unfold lastPlace at less; omega)
  have nonzero : v ≠ 0 := by
    rintro rfl
    refine grid ⟨0, ?_⟩
    rw [rounds.eq_roundAt, roundAt_zero, Int.cast_zero, zero_mul]
  rw [digit] at most grid less ⊢
  congr 1
  refine place_eq ?_ (lt_of_le_of_ne most fun same => grid ?_)
  · rw [size, ← roundAt_of_onGrid (onGrid_pow (f := -t) (e := place p v + p - 1) (by omega))]
    exact roundAt_mono (pow_place_le nonzero)
  · exact .of_abs (same ▸ onGrid_pow (by omega))

/-- The quotient `v` rounded to a number of the format, and that number to the digits kept; if
the format has no such number, the first one stays. -/
structure RoundsTwice (e : ℤ) (v q r : ℚ) : Prop where
  first : Rounds v q
  second : |roundAt e q| < 2 ^ 96 → r = roundAt e q
  otherwise : 2 ^ 96 ≤ |roundAt e q| → r = q

/-- The two roundings are one, unless the first misleads the second. -/
theorem RoundsTwice.eq_roundAt_iff (twice : RoundsTwice (lastPlace p v) v q w) (few : p ≤ maxPrecision)
    (small : |roundAt (lastPlace p v) v| < 2 ^ 96) :
    w = roundAt (lastPlace p v) v ↔ ¬Misleads (lastPlace p v) v q := by
  obtain ⟨t, rounds⟩ := twice.first
  have once := roundAt_roundAt_iff (v := v) (rounds.neg_le_lastPlace few)
  rw [← rounds.eq_roundAt] at once
  rcases lt_or_ge |roundAt (lastPlace p v) q| (2 ^ 96) with fits | large
  · rw [twice.second fits, once]
  · have apart : roundAt (lastPlace p v) q ≠ roundAt (lastPlace p v) v := fun same => (same ▸ large).not_gt small
    have misled := not_not.mp (mt once.mpr apart)
    refine iff_of_false (fun same => ?_) (not_not_intro misled)
    rw [twice.otherwise large] at same
    exact not_halfway_of_onGrid (same ▸ onGrid_roundAt _ v) misled.1

theorem RoundsTwice.near (twice : RoundsTwice (lastPlace p v) v q w) (few : p ≤ maxPrecision) :
    |w - v| ≤ 11 / 20 * 10 ^ lastPlace p v := by
  obtain ⟨t, rounds⟩ := twice.first
  have le := rounds.neg_le_lastPlace few
  rcases lt_or_ge |roundAt (lastPlace p v) q| (2 ^ 96) with fits | large
  · rw [twice.second fits, rounds.eq_roundAt]
    exact roundAt_roundAt_near le v
  · have near := roundAt_near (-t) v
    have coarser := tenPow_le le
    have power := tenPow_pos (lastPlace p v)
    rw [twice.otherwise large, rounds.eq_roundAt, abs_sub_comm]
    linarith

theorem lastPlace_of_lt (nonzero : v ≠ 0) (small : |v| < 10 ^ ((p : ℤ) - maxScale)) : lastPlace p v = -maxScale := by
  have first := (pow_place_le (p := p) nonzero).trans_lt small
  rw [zpow_lt_zpow_iff_right₀ (by norm_num)] at first
  exact max_eq_right (by omega)

/-- Where the digits that are kept go on to the last place of the format, nothing is left for
the second rounding. -/
theorem Rounds.not_misleads (rounds : Rounds v q) (small : |v| < 10 ^ ((p : ℤ) - maxScale)) :
    ¬Misleads (lastPlace p v) v q := by
  obtain ⟨t, rounds⟩ := rounds
  rintro ⟨halfway, apart, _⟩
  rcases eq_or_ne v 0 with rfl | nonzero
  · refine apart ?_
    rw [rounds.eq_roundAt, roundAt_zero]
  · refine not_halfway_of_onGrid ?_ halfway
    rw [lastPlace_of_lt nonzero small, rounds.eq_roundAt]
    exact (onGrid_roundAt _ v).of_le (by have := rounds.le; omega)

variable {a b r : Decimal} {precision : ℕ}

theorem roundTo_roundsTwice (quotient : Rounds v r.value) :
    RoundsTwice (lastPlace (digitsKept precision) v) v r.value (r.roundTo precision).value := by
  obtain ⟨t, rounds⟩ := quotient
  have rounded := value_roundTo precision r
  rw [rounds.roundAt_place (digitsKept_pos precision) (digitsKept_le precision), capacity_eq_pow] at rounded
  exact ⟨⟨t, rounds⟩, rounded.1, fun large => congrArg value (rounded.2 large)⟩

end Decimal

open Decimal
variable {a b : Decimal} {options : Options} {rest : Stack}

/-- Dividing by another number than zero either fails, because the quotient is out of range, or
it pushes the quotient rounded twice. That is the quotient rounded once, to the digits that are
kept or to the last place of the format, unless the first rounding misleads the second; and
then little more than half a unit of that place is missed. -/
theorem Operator.run_div (options : Options) (rest : Stack) (wellFormed : a.WellFormed) (nonzero : b.isZero = false)
    (room : rest.length < options.maxStackDepth) :
    let v := a.value / b.value
    let e := lastPlace (max 1 (min options.precision 28)) v
    let ran := run options (.binary (.arithmetic .div)) (.number b :: .number a :: rest)
    Decimal.Overflows v ∧ ran = .failed rest .rangeCheck ∨
      ∃ r q, ran = .done (.number r :: rest) ∧ RoundsTwice e v q r.value ∧ |r.value - v| ≤ 11 / 20 * 10 ^ e ∧
        (|roundAt e v| < 2 ^ 96 → (r.value = roundAt e v ↔ ¬Misleads e v q)) := by
  intro v e ran
  have computed := div?_computes wellFormed nonzero
  have opened : ran = Stack.pushResult options.maxStackDepth
      ((quotient a b).map (roundTo options.precision) >>= fun result => .ok (.number result)) rest := rfl
  rw [opened, quotient, nonzero]
  cases found : a.div? b with
  | none =>
    rw [found] at computed
    exact .inl ⟨computed, rfl⟩
  | some q =>
    rw [found] at computed
    have twice : RoundsTwice e v q.value (q.roundTo options.precision).value := roundTo_roundsTwice computed
    have few := digitsKept_le options.precision
    exact .inr ⟨q.roundTo options.precision, q.value, if_pos room, twice, twice.near few, twice.eq_roundAt_iff few⟩

/-- Quotients below one are rounded once, to the last place. -/
theorem Operator.run_div_two_thirds :
    let v := (ofNat 2).value / (ofNat 3).value
    let e := lastPlace 28 v
    (ofNat 2).WellFormed ∧ (ofNat 3).isZero = false ∧ ([] : Stack).length < Options.maxStackDepth {} ∧
      ∃ r q, run {} (.binary (.arithmetic .div)) [.number (ofNat 3), .number (ofNat 2)] = .done [.number r] ∧
        RoundsTwice e v q r.value ∧ |r.value - v| ≤ 11 / 20 * 10 ^ e ∧ |roundAt e v| < 2 ^ 96 ∧ r.value = roundAt e v := by
  intro v e
  have wellFormed : (ofNat 2).WellFormed := ⟨by decide, by decide⟩
  have nonzero : (ofNat 3).isZero = false := rfl
  have room : ([] : Stack).length < Options.maxStackDepth {} := by decide
  have exact : v = 2 / 3 := by
    simp only [v, value_eq]
    norm_num [ofNat, unit]
  refine ⟨wellFormed, nonzero, room, ?_⟩
  rcases run_div {} [] wellFormed nonzero room with ⟨_, failed⟩ | ⟨r, q, ran, twice, near, once⟩
  · have completed : (run {} (.binary (.arithmetic .div)) [.number (ofNat 3), .number (ofNat 2)]).result = .ok () := by
      decide +kernel
    rw [failed] at completed
    cases completed
  · have below : |v| < 10 ^ ((28 : ℤ) - 28) := by
      rw [exact]
      norm_num
    have last : e = -28 := lastPlace_of_lt (by rw [exact]; norm_num) below
    have small : |roundAt e v| < 2 ^ 96 := by
      rw [last, exact, roundAt_eq_of_lt (k := 6666666666666666666666666667)]
      · norm_num
      · norm_num [abs_lt]
    exact ⟨r, q, ran, twice, near, small, (once small).mpr (twice.first.not_misleads below)⟩

/-- The first rounding of this quotient ends in a middle below it, and the second goes down. -/
theorem Operator.run_div_misled :
    let v := (ofNat 16).value / (ofNat 11).value
    let r : Decimal := ⟨false, 1454545454545454545454545454, 27⟩
    run {} (.binary (.arithmetic .div)) [.number (ofNat 11), .number (ofNat 16)] = .done [.number r] ∧
      roundAt (lastPlace 28 v) v = 1454545454545454545454545455 / 10 ^ 27 ∧
      |roundAt (lastPlace 28 v) v| < 2 ^ 96 ∧ r.value ≠ roundAt (lastPlace 28 v) v := by
  intro v r
  have exact : v = 16 / 11 := by
    simp only [v, value_eq]
    norm_num [ofNat, unit]
  have digit : place 28 v = -27 := by
    rw [exact]
    apply place_eq
    · norm_num
    · norm_num
  have last : lastPlace 28 v = -27 := by
    rw [lastPlace, digit]
    rfl
  have once : roundAt (lastPlace 28 v) v = 1454545454545454545454545455 / 10 ^ 27 := by
    rw [last, exact, roundAt_eq_of_lt (k := 1454545454545454545454545455)]
    · norm_num
    · norm_num [abs_lt]
  rw [once, value_mk]
  refine ⟨congrArg₂ Outcome.mk (by decide +kernel) (by decide +kernel), rfl, ?_, ?_⟩
  · norm_num
  · norm_num [unit]

end StackCalculator

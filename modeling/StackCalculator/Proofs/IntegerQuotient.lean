import StackCalculator.Proofs.Literals
import StackCalculator.Proofs.QuotientError
import StackCalculator.Proofs.WordDivision

/-! The integer quotient is computed in three steps, each of which can go wrong by a little: the
remainder is taken off the dividend, the difference is divided, and the quotient is truncated.
The remainder is less than the divisor even where it is not exact, and the difference is rounded
by no more than the remainder, since the dividend is a number of the format. So the result is
off by two at most, by one where the remainder is exact, and exact where the multiple of the
divisor is a number of the format as well. -/
namespace StackCalculator
namespace Decimal
variable {u v w x y z q : ℚ} {t : ℕ}

theorem WellFormed.representable {d : Decimal} (wellFormed : d.WellFormed) : Representable d.value :=
  ⟨d.coefficient, d.scale, wellFormed.coefficient_lt, wellFormed.scale_le, abs_value d⟩

theorem Representable.abs (representable : Representable u) : Representable |u| := by
  obtain ⟨m, s, small, le, size⟩ := representable
  exact ⟨m, s, small, le, (abs_abs u).trans size⟩

/-- A number of the format keeps its places where what is rounded is not larger. -/
theorem RoundsAt.onGrid_of_abs_le (rounds : RoundsAt v w t) (representable : Representable u) (le : |v| ≤ |u|) :
    OnGrid (-t) u := by
  obtain ⟨m, s, small, bound, size⟩ := representable
  have scaled : |u| * 10 ^ s = (m : ℤ) := by
    rw [size, div_mul_cancel₀ _ (by positivity)]
    rfl
  have whole : FitsAt |u| s := by
    rwa [FitsAt, scaled, nearestInt_intCast, Int.natAbs_natCast]
  have fits : FitsAt v s := whole.of_abs_le (le.trans (abs_abs u).ge)
  have places : s ≤ t := by
    by_contra more
    rcases rounds.most with last | full
    · omega
    · exact full (fits.of_le (by omega))
  refine OnGrid.of_abs (OnGrid.of_le (e := -s) ⟨m, ?_⟩ (by omega))
  rw [size, zpow_neg, zpow_natCast]
  rfl

namespace Rounds

/-- No number of the format that is larger is nearer. -/
theorem abs_sub_le (rounds : Rounds v w) (representable : Representable u) (le : |v| ≤ |u|) : |w - v| ≤ |u - v| := by
  obtain ⟨t, rounds⟩ := rounds
  have nearest := roundAt_nearest (v := v) (rounds.onGrid_of_abs_le representable le)
  rwa [← rounds.eq_roundAt, abs_sub_comm, abs_sub_comm v] at nearest

theorem intCast_le {n : ℤ} (rounds : Rounds v w) (le : n ≤ v) : n ≤ w := by
  obtain ⟨t, rounds⟩ := rounds
  have grid : OnGrid (-t) n := OnGrid.of_le (e := 0) ⟨n, by rw [zpow_zero, mul_one]⟩ (by omega)
  rw [rounds.eq_roundAt, ← roundAt_of_onGrid grid]
  exact roundAt_mono le

theorem le_intCast {n : ℤ} (rounds : Rounds v w) (le : v ≤ n) : w ≤ n := by
  have mirrored := rounds.neg.intCast_le (n := -n) (by push_cast; exact neg_le_neg le)
  push_cast at mirrored
  exact neg_le_neg_iff.mp mirrored

/-- The sign of what is rounded is that of the result. -/
theorem abs_of_unit {negative : Bool} (rounds : Rounds (Decimal.unit negative * v) w) (nonneg : 0 ≤ v) :
    Rounds v |w| ∧ w = Decimal.unit negative * |w| := by
  have twice : ∀ z, Decimal.unit negative * (Decimal.unit negative * z) = z := fun z => by
    rw [← mul_assoc, ← unit_bne, bne_self_eq_false, unit_false, one_mul]
  have unsigned := rounds.unit negative
  rw [twice] at unsigned
  have size : |w| = Decimal.unit negative * w := by
    rw [← abs_of_nonneg (unsigned.nonneg nonneg), abs_mul, abs_unit, one_mul]
  rw [size, twice]
  exact ⟨unsigned, rfl⟩

end Rounds

/-- The difference is rounded to the dividend, or to something closer. -/
theorem Rounds.multiple_near (multiple : Rounds (x - z) w) (dividend : Representable x) (nonneg : 0 ≤ z) (le : z ≤ x) :
    x - z - z ≤ w ∧ w ≤ x := by
  have size : |x - z| ≤ |x| := by
    rw [abs_of_nonneg (sub_nonneg.mpr le), abs_of_nonneg (nonneg.trans le)]
    exact sub_le_self x nonneg
  have near := multiple.abs_sub_le dividend size
  rw [sub_sub_cancel, abs_of_nonneg nonneg] at near
  obtain ⟨lower, upper⟩ := abs_le.mp near
  exact ⟨by linarith, by linarith⟩

/-- A dividend of the format, a divisor, what was left of the dividend, the number that was found
for the multiple of the divisor, and the number that was found for the quotient. -/
structure Steps (x y z w q : ℚ) : Prop where
  dividend : Representable x
  divisor : 0 < y
  nonneg : 0 ≤ z
  lt : z < y
  le : z ≤ x
  multiple : Rounds (x - z) w
  quotient : Rounds (w / y) q

namespace Steps

theorem multiple_near (steps : Steps x y z w q) : x - z - z ≤ w ∧ w ≤ x :=
  steps.multiple.multiple_near steps.dividend steps.nonneg steps.le

theorem le_floor (steps : Steps x y z w q) {n : ℤ} (le : n * y ≤ w) : n ≤ ⌊q⌋ :=
  Int.le_floor.mpr (steps.quotient.intCast_le ((le_div_iff₀ steps.divisor).mpr le))

theorem floor_mul_le (steps : Steps x y z w q) : (⌊x / y⌋ : ℚ) * y ≤ x :=
  (le_div_iff₀ steps.divisor).mp (Int.floor_le (x / y))

theorem lt_floor_add_one_mul (steps : Steps x y z w q) : x < (⌊x / y⌋ + 1) * y :=
  (div_lt_iff₀ steps.divisor).mp (Int.lt_floor_add_one (x / y))

theorem floor_le_succ (steps : Steps x y z w q) : ⌊q⌋ ≤ ⌊x / y⌋ + 1 := by
  have above : w / y ≤ ((⌊x / y⌋ + 1 : ℤ) : ℚ) := by
    rw [div_le_iff₀ steps.divisor]
    push_cast
    exact steps.multiple_near.2.trans steps.lt_floor_add_one_mul.le
  exact_mod_cast (Int.floor_le q).trans (steps.quotient.le_intCast above)

theorem sub_two_le_floor (steps : Steps x y z w q) : ⌊x / y⌋ - 2 ≤ ⌊q⌋ := by
  apply steps.le_floor
  have least := steps.multiple_near.1
  have whole := steps.floor_mul_le
  have rest := steps.lt
  push_cast
  linarith

theorem sub_one_le_floor (steps : Steps x y z w q) (exact : x - z = ⌊x / y⌋ * y) : ⌊x / y⌋ - 1 ≤ ⌊q⌋ := by
  apply steps.le_floor
  have least := steps.multiple_near.1
  have rest := steps.lt
  push_cast
  linarith

/-- The multiples of an integer are never rounded past. -/
theorem sub_one_le_floor_of_intCast {n : ℤ} (steps : Steps x y z w q) (integer : y = n) : ⌊x / y⌋ - 1 ≤ ⌊q⌋ := by
  have least : (((⌊x / y⌋ - 1) * n : ℤ) : ℚ) ≤ w := by
    apply steps.multiple.intCast_le
    have whole := steps.floor_mul_le
    have rest := steps.lt
    push_cast
    rw [← integer]
    linarith
  refine steps.le_floor ?_
  rw [integer] at least ⊢
  exact_mod_cast least

theorem floor_eq (steps : Steps x y z w q) (exact : x - z = ⌊x / y⌋ * y) (representable : Representable (x - z)) :
    ⌊q⌋ = ⌊x / y⌋ := by
  have same : w = x - z := by
    have near := steps.multiple.abs_sub_le representable le_rfl
    rw [sub_self, abs_zero] at near
    exact sub_eq_zero.mp (abs_nonpos_iff.mp near)
  have quotient := steps.quotient
  rw [same, exact, mul_div_cancel_right₀ _ steps.divisor.ne'] at quotient
  have found : q = ⌊x / y⌋ := le_antisymm (quotient.le_intCast le_rfl) (quotient.intCast_le le_rfl)
  rw [found, Int.floor_intCast]

end Steps

/-- Both numbers have one sign, so their digits before the point are as far apart. -/
theorem abs_truncated_sub (negative : Bool) (first : 0 ≤ v) (second : 0 ≤ w) :
    |truncated (unit negative * v) - truncated (unit negative * w)| = |⌊v⌋ - ⌊w⌋| := by
  have cast : ((|truncated (unit negative * v) - truncated (unit negative * w)| : ℤ) : ℚ) = (|⌊v⌋ - ⌊w⌋| : ℤ) := by
    push_cast
    rw [truncated_unit negative first, truncated_unit negative second, ← mul_sub, abs_mul, abs_unit, one_mul]
  exact_mod_cast cast

variable {a b m rest : Decimal}

theorem Leaves.sub_eq (leaves : Leaves a b rest) :
    a.value - rest.value = unit a.negative * (|a.value| - |rest.value|) := by
  rw [mul_sub, ← value_eq_unit_mul, ← leaves.sign]

/-- The difference is no larger than the dividend, so it is never out of range. -/
theorem Leaves.sub?_eq_some (leaves : Leaves a b rest) (first : a.WellFormed) (fits : rest.WellFormed) :
    ∃ m, a.sub? rest = some m ∧ m.WellFormed ∧ Rounds (a.value - rest.value) m.value := by
  have computed := sub?_computes first fits
  cases found : a.sub? rest with
  | some m =>
    rw [found] at computed
    exact ⟨m, rfl, sub?_wellFormed first fits m found, computed⟩
  | none =>
    rw [found] at computed
    have size : |a.value - rest.value| ≤ |a.value| := by
      rw [leaves.sub_eq, abs_mul, abs_unit, one_mul, abs_of_nonneg (sub_nonneg.mpr leaves.le)]
      exact sub_le_self _ (abs_nonneg _)
    exact absurd ((not_not.mp first.rounds.not_overflows).of_abs_le size) computed

theorem Leaves.abs_of_multiple (leaves : Leaves a b rest) (multiple : Rounds (a.value - rest.value) m.value) :
    Rounds (|a.value| - |rest.value|) |m.value| ∧ m.value = unit a.negative * |m.value| := by
  rw [leaves.sub_eq] at multiple
  exact multiple.abs_of_unit (sub_nonneg.mpr leaves.le)

theorem Leaves.abs_multiple_le (leaves : Leaves a b rest) (first : a.WellFormed)
    (multiple : Rounds (a.value - rest.value) m.value) : |m.value| ≤ |a.value| :=
  ((leaves.abs_of_multiple multiple).1.multiple_near first.representable.abs (abs_nonneg _) leaves.le).2

theorem Leaves.steps (leaves : Leaves a b rest) (first : a.WellFormed) (nonzero : b.isZero = false)
    (multiple : Rounds (a.value - rest.value) m.value) (quotient : Rounds (m.value / b.value) q) :
    Steps |a.value| |b.value| |rest.value| |m.value| |q| ∧ q = unit (a.negative != b.negative) * |q| := by
  obtain ⟨difference, sign⟩ := leaves.abs_of_multiple multiple
  rw [sign, value_eq_unit_mul b, unit_mul_div] at quotient
  obtain ⟨ratio, sign⟩ := quotient.abs_of_unit (by positivity)
  exact ⟨⟨first.representable.abs, abs_pos.mpr (value_ne_zero nonzero), abs_nonneg _, leaves.lt, leaves.le, difference,
    ratio⟩, sign⟩

/-- What the integer that is found has to do with the quotient. -/
structure TruncatesNearly (a b : Decimal) (i : ℤ) : Prop where
  near : |i - truncated (a.value / b.value)| ≤ 2
  close : ¬HasLongDigit a b → |i - truncated (a.value / b.value)| ≤ 1
  integral : b.isIntegral = true → |i - truncated (a.value / b.value)| ≤ 1
  exact : ¬HasLongDigit a b → Representable (truncated (a.value / b.value) * b.value) →
    i = truncated (a.value / b.value)
  rounded : ¬HasLongDigit a b → ∃ w q, Rounds (truncated (a.value / b.value) * b.value) w ∧
    Rounds (w / b.value) q ∧ i = truncated q

/-- With an exact remainder taken off, the dividend is a multiple of the divisor. -/
theorem Leaves.sub_eq_multiple (leaves : Leaves a b rest) (remains : RemainderExact a b) :
    a.value - rest.value = truncated (a.value / b.value) * b.value := by
  rw [leaves.exact remains, remainder]
  ring

theorem Leaves.abs_sub_eq_multiple (leaves : Leaves a b rest) (remains : RemainderExact a b) :
    |a.value| - |rest.value| = ⌊|a.value| / |b.value|⌋ * |b.value| := by
  have signed := leaves.sub_eq_multiple remains
  rw [leaves.sub_eq, value_div_value, truncated_unit _ (by positivity), value_eq_unit_mul b, mul_assoc,
    mul_left_comm _ (unit _), ← mul_assoc, abs_mul, abs_unit, one_mul, abs_abs, unit_bne_mul] at signed
  exact mul_left_cancel₀ (unit_ne_zero _) signed

theorem Leaves.truncatesNearly (leaves : Leaves a b rest) (first : a.WellFormed) (second : b.WellFormed)
    (nonzero : b.isZero = false) (multiple : Rounds (a.value - rest.value) m.value)
    (quotient : Rounds (m.value / b.value) q) : TruncatesNearly a b (truncated q) := by
  obtain ⟨steps, sign⟩ := leaves.steps first nonzero multiple quotient
  have apart : |truncated q - truncated (a.value / b.value)| = |⌊|q|⌋ - ⌊|a.value| / |b.value|⌋| := by
    rw [value_div_value, ← abs_truncated_sub (a.negative != b.negative) (abs_nonneg q) (by positivity), ← sign]
  have remains : ¬HasLongDigit a b → RemainderExact a b := remainderExact_of_short first second
  have above := steps.floor_le_succ
  refine ⟨?_, fun short => ?_, fun integral => ?_, fun short representable => ?_, fun short => ?_⟩
  · rw [apart, abs_le]
    have below := steps.sub_two_le_floor
    omega
  · rw [apart, abs_le]
    have below := steps.sub_one_le_floor (leaves.abs_sub_eq_multiple (remains short))
    omega
  · obtain ⟨n, integer⟩ := isIntegral_iff.mp integral
    have below := steps.sub_one_le_floor_of_intCast (n := |n|) (by rw [integer, Int.cast_abs])
    rw [apart, abs_le]
    omega
  · rw [← leaves.sub_eq_multiple (remains short), leaves.sub_eq, representable_unit] at representable
    have same := steps.floor_eq (leaves.abs_sub_eq_multiple (remains short)) representable
    rw [same, sub_self, abs_zero, abs_eq_zero, sub_eq_zero] at apart
    exact apart
  · exact ⟨m.value, q, leaves.sub_eq_multiple (remains short) ▸ multiple, quotient, rfl⟩

end Decimal

open Decimal
variable {a b : Decimal}

/-- Neither the remainder nor the difference fails, and the quotient only where it is too large. -/
theorem integerQuotient_cases (first : a.WellFormed) (second : b.WellFormed) (nonzero : b.isZero = false) :
    integerQuotient a b = .error .rangeCheck ∧ 2 ^ 96 - 1 < |a.value / b.value| ∨
      ∃ (r : Decimal) (i : ℤ), integerQuotient a b = .ok r ∧ r.value = i ∧ TruncatesNearly a b i := by
  obtain ⟨left, found⟩ := Option.isSome_iff_exists.mp (rem?_isSome (a := a) nonzero)
  have leaves := rem?_leaves a b left found
  obtain ⟨m, subtracted, fits, multiple⟩ := leaves.sub?_eq_some first (rem?_wellFormed first second left found)
  have computed := div?_computes fits nonzero
  have opened : integerQuotient a b = inRange (m.div? b) >>= fun q => .ok q.trunc := by
    have unfolded : integerQuotient a b = inRange (a.rem? b) >>= fun rest => inRange (a.sub? rest) >>= fun multiple =>
        inRange (multiple.div? b) >>= fun q => .ok q.trunc := if_neg (by rw [nonzero]; exact Bool.false_ne_true)
    rw [unfolded, found]
    change inRange (a.sub? left) >>= _ = _
    rw [subtracted]
    rfl
  rw [opened]
  cases divided : m.div? b with
  | none =>
    rw [divided] at computed
    refine .inl ⟨rfl, computed.lt_abs.trans_le ?_⟩
    have size := leaves.abs_multiple_le first multiple
    rw [abs_div, abs_div]
    gcongr
  | some q =>
    rw [divided] at computed
    exact .inr ⟨q.trunc, truncated q.value, rfl, value_trunc q,
      leaves.truncatesNearly first second nonzero multiple computed⟩

/-- Where the operator pushes a number it is an integer, and off by two at most from the quotient
truncated toward zero. It is off by one at most unless an estimate of a digit is lost in the
remainder, and then what is truncated is the quotient of the rounded multiple of the divisor; a
multiple that is a number of the format gives the truncated quotient. Nothing is pushed only for
quotients out of range. -/
theorem Operator.run_idiv (options : Options) (rest : Stack) (first : a.WellFormed) (second : b.WellFormed)
    (nonzero : b.isZero = false) (room : rest.length < options.maxStackDepth) :
    let k := truncated (a.value / b.value)
    let ran := run options (.binary (.arithmetic .idiv)) (.number b :: .number a :: rest)
    ran = .failed rest .rangeCheck ∧ 2 ^ 96 - 1 < |a.value / b.value| ∨
      ∃ (r : Decimal) (i : ℤ), ran = .done (.number r :: rest) ∧ r.value = i ∧ |i - k| ≤ 2 ∧
        (¬HasLongDigit a b → |i - k| ≤ 1 ∧ (Representable (k * b.value) → i = k) ∧
          ∃ m q, Rounds (k * b.value) m ∧ Rounds (m / b.value) q ∧ i = truncated q) := by
  intro k ran
  have opened : ran = _ := run_arithmetic options .idiv a b rest
  rw [opened, BinaryArithmetic.eval]
  rcases integerQuotient_cases first second nonzero with ⟨refused, large⟩ | ⟨r, i, computed, integer, nearly⟩
  · rw [refused]
    exact .inl ⟨rfl, large⟩
  · rw [computed]
    exact .inr ⟨r, i, Stack.push_of_room room, integer, nearly.near, fun short =>
      ⟨nearly.close short, nearly.exact short, nearly.rounded short⟩⟩

/-- At the scale of the divisor this dividend is no coefficient, and still nothing is lost. -/
theorem Operator.run_idiv_long :
    let a : Decimal := ⟨true, 8000000000000000000000000001, 0⟩
    let b : Decimal := ⟨false, 25, 1⟩
    let k := truncated (a.value / b.value)
    a.WellFormed ∧ b.WellFormed ∧ b.isZero = false ∧ ([] : Stack).length < Options.maxStackDepth {} ∧
      k = -3200000000000000000000000000 ∧
      ∃ r : Decimal, run {} (.binary (.arithmetic .idiv)) [.number b, .number a] = .done [.number r] ∧ r.value = k := by
  intro a b k
  have first : a.WellFormed := ⟨by decide, by decide⟩
  have second : b.WellFormed := ⟨by decide, by decide⟩
  have nonzero : b.isZero = false := rfl
  have room : ([] : Stack).length < Options.maxStackDepth {} := by decide
  have quotient : a.value / b.value = ((-16000000000000000000000000002 : ℤ) : ℚ) / (5 : ℤ) := by
    rw [value_mk, value_mk]
    norm_num [unit]
  have whole : k = -3200000000000000000000000000 := by
    simp only [k, quotient, truncated_div]
    decide
  refine ⟨first, second, nonzero, room, whole, ?_⟩
  rcases run_idiv {} [] first second nonzero room with ⟨_, large⟩ | ⟨r, i, ran, integer, _, nearly⟩
  · rw [quotient] at large
    norm_num [abs_of_neg] at large
  · have short : ¬HasLongDigit a b := fun digit => absurd digit.2.1 (by decide)
    have multiple : Representable (k * b.value) := by
      refine ⟨8000000000000000000000000000, 0, by decide, by decide, ?_⟩
      rw [whole, value_mk]
      norm_num [unit]
    exact ⟨r, ran, by rw [integer, (nearly short).2.1 multiple]⟩

/-- Without the remainder, six hundredths, this dividend is rounded to itself, and its quotient is
rounded to the next integer. -/
theorem Operator.run_idiv_rounded_up :
    let a := ofNat 8300000000000000000000000000
    let b : Decimal := ⟨false, 11, 2⟩
    let r := ofNat 75454545454545454545454545455
    a.WellFormed ∧ b.WellFormed ∧ b.isZero = false ∧ ¬HasLongDigit a b ∧
      run {} (.binary (.arithmetic .idiv)) [.number b, .number a] = .done [.number r] ∧
      truncated (a.value / b.value) = 75454545454545454545454545454 ∧ r.value ≠ truncated (a.value / b.value) := by
  intro a b r
  have quotient : a.value / b.value = ((830000000000000000000000000000 : ℤ) : ℚ) / (11 : ℤ) := by
    rw [value_ofNat, value_mk]
    norm_num [unit]
  have whole : truncated (a.value / b.value) = 75454545454545454545454545454 := by
    have digits : (830000000000000000000000000000 : ℤ).tdiv 11 = 75454545454545454545454545454 := by decide
    rw [quotient, truncated_div, digits]
  have computed : integerQuotient a b = .ok r := by decide +kernel
  have ran : run {} (.binary (.arithmetic .idiv)) [.number b, .number a] = .done [.number r] := by
    rw [run_arithmetic, BinaryArithmetic.eval, computed]
    rfl
  refine ⟨⟨by decide, by decide⟩, ⟨by decide, by decide⟩, rfl, fun digit => absurd digit.2.1 (by decide), ran,
    whole, ?_⟩
  rw [whole, value_ofNat]
  norm_num

end StackCalculator

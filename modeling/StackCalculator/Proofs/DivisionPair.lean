import StackCalculator.Proofs.IntegerQuotient

/-! The integer quotient and the remainder take two routes. The remainder is that of the whole
parts, which have no places, so it is exact and never out of range. The quotient of integers goes
through the remainder at their common scale: it is found wherever that one is exact, also for
integers that are written with places, and is off by one at most where it is not. -/
namespace StackCalculator
namespace Decimal
variable {a b d : Decimal} {u : ℚ} {i m n : ℤ}

theorem Representable.abs_le (representable : Representable u) : |u| ≤ 2 ^ 96 - 1 := by
  obtain ⟨coefficient, s, small, _, size⟩ := representable
  have bound : (coefficient : ℚ) + 1 ≤ capacity := by exact_mod_cast small
  rw [size, ← capacity_eq_pow]
  exact (div_le_self (by positivity) (one_le_pow₀ (by norm_num))).trans (le_sub_iff_add_le.mpr bound)

theorem representable_intCast (le : |(i : ℚ)| ≤ 2 ^ 96 - 1) : Representable i := by
  refine ⟨i.natAbs, 0, ?_, Nat.zero_le _, by rw [pow_zero, div_one, Nat.cast_natAbs, Int.cast_abs]⟩
  have small : ((i.natAbs : ℕ) : ℚ) < capacity := by
    rw [Nat.cast_natAbs, Int.cast_abs, capacity_eq_pow]
    exact le.trans_lt (sub_one_lt _)
  exact_mod_cast small

/-- Taking `n` off as often as it goes does not pass `m`. -/
theorem abs_tdiv_mul_le (m n : ℤ) : |m.tdiv n * n| ≤ |m| := by
  rw [Int.abs_eq_natAbs, Int.abs_eq_natAbs, Int.natAbs_mul, Int.natAbs_tdiv]
  exact_mod_cast Nat.div_mul_le_self _ _

theorem tmod_parts (m : ℤ) (nonzero : n ≠ 0) :
    m = m.tdiv n * n + m.tmod n ∧ |m.tmod n| < |n| ∧ (m.tmod n = 0 ∨ (m.tmod n).sign = m.sign) := by
  refine ⟨(Int.tdiv_mul_add_tmod m n).symm, ?_, ?_⟩
  · rw [Int.abs_eq_natAbs, Int.abs_eq_natAbs, Int.natAbs_tmod]
    exact_mod_cast Nat.mod_lt _ (Int.natAbs_pos.mpr nonzero)
  · rw [Int.sign_tmod, ← Int.sign_eq_zero_iff_zero, Int.sign_tmod]
    split
    · exact .inl rfl
    · exact .inr rfl

theorem trunc_trunc (d : Decimal) : d.trunc.trunc = d.trunc :=
  congrArg (fun n => (⟨d.negative, n, 0⟩ : Decimal)) (Nat.div_one d.whole)

theorem trunc_isZero_iff : d.trunc.isZero = true ↔ |d.value| < 1 := by
  have whole : d.trunc.isZero = true ↔ d.whole = 0 := beq_iff_eq
  have floor := floor_abs d
  rw [whole, ← Nat.cast_eq_zero (R := ℤ), ← floor, Int.floor_eq_zero_iff, Set.mem_Ico]
  exact and_iff_right (abs_nonneg _)

end Decimal

open Decimal
variable {a b : Decimal} {m n : ℤ}

/-- A quotient of integers is never out of range. The multiple of the divisor that is next to the
dividend is an integer in range, so it is not rounded. -/
theorem integerQuotient_integers (first : a.WellFormed) (second : b.WellFormed) (dividend : a.value = m)
    (divisor : b.value = n) (nonzero : n ≠ 0) :
    ∃ (q : Decimal) (i : ℤ), integerQuotient a b = .ok q ∧ q.value = i ∧ |i - m.tdiv n| ≤ 1 ∧
      (i ≠ m.tdiv n → HasLongDigit a b) := by
  have quotient : truncated (a.value / b.value) = m.tdiv n := by rw [dividend, divisor, truncated_div]
  have proper : b.value ≠ 0 := divisor ▸ Int.cast_ne_zero.mpr nonzero
  have bound : |(m : ℚ)| ≤ 2 ^ 96 - 1 := dividend ▸ first.representable.abs_le
  rcases integerQuotient_cases first second (isZero_eq_false proper) with ⟨_, large⟩ | ⟨q, i, computed, integer, nearly⟩
  · have least : (1 : ℚ) ≤ |(n : ℚ)| := by exact_mod_cast Int.one_le_abs nonzero
    have small : |a.value / b.value| ≤ 2 ^ 96 - 1 := by
      rw [dividend, divisor, abs_div]
      exact (div_le_self (abs_nonneg _) least).trans bound
    exact absurd large small.not_gt
  · refine ⟨q, i, computed, integer, quotient ▸ nearly.integral (isIntegral_iff.mpr ⟨n, divisor⟩), fun apart => ?_⟩
    by_contra short
    have multiple : Representable (truncated (a.value / b.value) * b.value) := by
      rw [quotient, divisor, ← Int.cast_mul]
      refine representable_intCast (le_trans ?_ bound)
      exact_mod_cast abs_tdiv_mul_le m n
    exact apart (quotient ▸ nearly.exact short multiple)

theorem modulus_of_lt_one (small : |b.value| < 1) : modulus a b = .error .divisionByZero :=
  if_pos (trunc_isZero_iff.mpr small)

/-- Whole parts have one scale, so their remainder is exact. -/
theorem modulus_of_one_le (first : a.WellFormed) (large : 1 ≤ |b.value|) :
    ∃ r : Decimal, modulus a b = .ok r ∧ r.value = ((truncated a.value).tmod (truncated b.value) : ℤ) := by
  have nonzero : b.trunc.isZero = false := Bool.eq_false_iff.mpr fun zero => (trunc_isZero_iff.mp zero).not_ge large
  obtain ⟨r, found⟩ := Option.isSome_iff_exists.mp (rem?_isSome (a := a.trunc) nonzero)
  have exact := value_rem? (remainderExact_of_scale_le (b := b.trunc) first.trunc le_rfl) r found
  rw [value_trunc, value_trunc, remainder_intCast] at exact
  refine ⟨r, ?_, exact⟩
  rw [modulus, if_neg (ne_true_of_eq_false nonzero), found]
  rfl

theorem modulus_trunc (a b : Decimal) : modulus a.trunc b.trunc = modulus a b := by
  rw [modulus, modulus, trunc_trunc, trunc_trunc]

/-- The remainder is that of the whole parts, and is refused where the divisor has none. For
integers it goes with their truncated quotient, and the quotient that is found is this one, or one
more or less where an estimate of a digit is lost, which takes a divisor with more places than the
dividend. -/
theorem Operator.run_idiv_mod (options : Options) (rest : Stack) (first : a.WellFormed) (second : b.WellFormed)
    (room : rest.length < options.maxStackDepth) :
    let ran (op : BinaryArithmetic) (a b : Decimal) :=
      run options (.binary (.arithmetic op)) (.number b :: .number a :: rest)
    (∀ m n : ℤ, a.value = m → b.value = n → n ≠ 0 → ∃ (q r : Decimal) (i j : ℤ),
      (ran .idiv a b = .done (.number q :: rest) ∧ q.value = i) ∧
      (ran .mod a b = .done (.number r :: rest) ∧ r.value = j) ∧
      (m = m.tdiv n * n + j ∧ |j| < |n| ∧ (j = 0 ∨ j.sign = m.sign)) ∧
      |i - m.tdiv n| ≤ 1 ∧ (i ≠ m.tdiv n → HasLongDigit a b ∧ a.scale < b.scale)) ∧
    (ran .mod a b = .failed rest .divisionByZero ↔ |b.value| < 1) ∧
    (1 ≤ |b.value| → ∃ r : Decimal, ran .mod a b = .done (.number r :: rest) ∧
      ran .mod a.trunc b.trunc = .done (.number r :: rest)) := by
  intro ran
  have opened : ∀ op a b, ran op a b =
      Stack.pushResult options.maxStackDepth ((op.eval options.precision a b).map .number) rest :=
    fun op a b => run_arithmetic options op a b rest
  have pushed : ∀ {op a b r}, op.eval options.precision a b = .ok r → ran op a b = .done (.number r :: rest) := by
    intro op a b r computed
    rw [opened, computed]
    exact Stack.push_of_room room
  have whole : 1 ≤ |b.value| → ∃ r : Decimal, ran .mod a b = .done (.number r :: rest) ∧
      ran .mod a.trunc b.trunc = .done (.number r :: rest) ∧
        r.value = ((truncated a.value).tmod (truncated b.value) : ℤ) := by
    intro large
    obtain ⟨r, computed, value⟩ := modulus_of_one_le first large
    exact ⟨r, pushed computed, pushed ((modulus_trunc a b).trans computed), value⟩
  refine ⟨fun m n dividend divisor nonzero => ?_, ⟨fun refused => ?_, fun small => ?_⟩, fun large => ?_⟩
  · have least : 1 ≤ |b.value| := by
      rw [divisor]
      exact_mod_cast Int.one_le_abs nonzero
    obtain ⟨q, i, divided, quotient, near, exact⟩ := integerQuotient_integers first second dividend divisor nonzero
    obtain ⟨r, left, _, remainder⟩ := whole least
    rw [dividend, divisor, truncated_intCast, truncated_intCast] at remainder
    exact ⟨q, r, i, m.tmod n, ⟨pushed divided, quotient⟩, ⟨left, remainder⟩, tmod_parts m nonzero, near,
      fun apart => ⟨exact apart, (exact apart).scale_lt first⟩⟩
  · by_contra large
    obtain ⟨r, left, _⟩ := whole (not_lt.mp large)
    exact nomatch congrArg Outcome.result (refused.symm.trans left)
  · rw [opened, BinaryArithmetic.eval, modulus_of_lt_one small]
    rfl
  · obtain ⟨r, left, same, _⟩ := whole large
    exact ⟨r, left, same⟩

/-- At the scale of the divisor this dividend takes more than three words. -/
theorem Operator.run_idiv_mod_long :
    let a : Decimal := ⟨true, 79228162514264337593543950335, 0⟩
    let b : Decimal := ⟨false, 100, 1⟩
    a.WellFormed ∧ b.WellFormed ∧ ([] : Stack).length < Options.maxStackDepth {} ∧
      ∃ q r : Decimal, run {} (.binary (.arithmetic .idiv)) [.number b, .number a] = .done [.number q] ∧
        run {} (.binary (.arithmetic .mod)) [.number b, .number a] = .done [.number r] ∧
        q.value = -7922816251426433759354395033 ∧ a.value = q.value * b.value + r.value := by
  intro a b
  have first : a.WellFormed := ⟨by decide, by decide⟩
  have second : b.WellFormed := ⟨by decide, by decide⟩
  have room : ([] : Stack).length < Options.maxStackDepth {} := by decide
  have dividend : a.value = (-79228162514264337593543950335 : ℤ) := by
    rw [value_mk]
    norm_num [unit]
  have divisor : b.value = (10 : ℤ) := by
    rw [value_mk]
    norm_num [unit]
  have short : ¬HasLongDigit a b := fun digit => absurd digit.2.1 (by decide)
  obtain ⟨q, r, i, j, ⟨divided, quotient⟩, ⟨left, remainder⟩, ⟨parts, _⟩, _, exact⟩ :=
    (run_idiv_mod {} [] first second room).1 _ _ dividend divisor (by decide)
  have same : i = Int.tdiv (-79228162514264337593543950335) 10 := by
    by_contra apart
    exact short (exact apart).1
  have digits : Int.tdiv (-79228162514264337593543950335) 10 = -7922816251426433759354395033 := by decide
  refine ⟨first, second, room, q, r, divided, left, ?_, ?_⟩
  · rw [quotient, same, digits]
    norm_num
  · rw [← same] at parts
    rw [quotient, remainder, dividend, divisor]
    exact_mod_cast parts

/-- An estimate of a digit is lost in the remainder of these integers, and the quotient that is
found is one too small. -/
theorem Operator.run_idiv_mod_apart :
    let a : Decimal := ⟨true, 300647710650000000000000, 11⟩
    let b : Decimal := ⟨true, 7000000000000000000000000, 22⟩
    let q := ofNat 4294967294
    a.WellFormed ∧ b.WellFormed ∧ a.value = (-3006477106500 : ℤ) ∧ b.value = (-700 : ℤ) ∧
      run {} (.binary (.arithmetic .idiv)) [.number b, .number a] = .done [.number q] ∧
      run {} (.binary (.arithmetic .mod)) [.number b, .number a] = .done [.number zero] ∧
      a.value ≠ q.value * b.value + zero.value := by
  intro a b q
  have dividend : a.value = (-3006477106500 : ℤ) := by
    rw [value_mk]
    norm_num [unit]
  have divisor : b.value = (-700 : ℤ) := by
    rw [value_mk]
    norm_num [unit]
  have divided : integerQuotient a b = .ok q := by decide +kernel
  have left : modulus a b = .ok zero := by decide +kernel
  refine ⟨⟨by decide, by decide⟩, ⟨by decide, by decide⟩, dividend, divisor, ?_, ?_, ?_⟩
  · rw [run_arithmetic, BinaryArithmetic.eval, divided]
    rfl
  · rw [run_arithmetic, BinaryArithmetic.eval, left]
    rfl
  · rw [dividend, divisor, value_ofNat, value_zero]
    norm_num

end StackCalculator

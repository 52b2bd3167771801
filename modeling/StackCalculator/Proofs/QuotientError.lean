import StackCalculator.Proofs.DoubleRounding

/-! How far a quotient, multiplied by the divisor again, is from the dividend. The last place that
is kept is a small part of the quotient where all digits that are kept are there, and the last
place of the format where they are not, so what two roundings leave is bounded by the sum. -/
namespace StackCalculator
namespace Decimal
variable {v q w : ℚ} {p : ℕ}

theorem Overflows.lt_abs (overflows : Overflows v) : 2 ^ 96 - 1 < |v| := by
  have large : ¬FitsAt |v| 0 := fun fits => overflows (fits.of_abs_le (abs_abs v).ge)
  have least := lt_of_not_fitsAt (abs_nonneg v) large
  rwa [pow_zero, mul_one, capacity_eq_pow] at least

theorem Rounds.eq_zero (rounds : Rounds 0 w) : w = 0 :=
  rounds.unique (.exact (n := 0) (s := 0) (by decide) (Nat.zero_le _) (by norm_num))

theorem RoundsTwice.eq_zero {e : ℤ} (twice : RoundsTwice e 0 q w) : w = 0 := by
  have none : roundAt e q = 0 := by rw [twice.first.eq_zero, roundAt_zero]
  rw [twice.second (by rw [none]; norm_num), none]

/-- The last place is a part of the number that the digits tell, or that of the format. -/
theorem tenPow_lastPlace_le (p : ℕ) (nonzero : v ≠ 0) :
    (10 : ℚ) ^ lastPlace p v ≤ 10 ^ (1 - p : ℤ) * |v| + 10 ^ (-28 : ℤ) := by
  have whole := tenPow_pos (1 - p)
  have last := tenPow_pos (-28)
  unfold lastPlace
  rcases max_choice (place p v) (-maxScale) with digit | least
  · have first := pow_place_le (p := p) nonzero
    have part : (10 : ℚ) ^ place p v = 10 ^ (1 - p : ℤ) * 10 ^ (place p v + p - 1) := by
      rw [← zpow_add₀ (by norm_num)]
      congr 1
      ring
    rw [digit, part]
    have bound : (10 : ℚ) ^ (1 - p : ℤ) * 10 ^ (place p v + p - 1) ≤ 10 ^ (1 - p : ℤ) * |v| := by gcongr
    linarith
  · have some : 0 ≤ 10 ^ (1 - p : ℤ) * |v| := by positivity
    rw [least]
    exact le_add_of_nonneg_left some

theorem RoundsTwice.near_parts (twice : RoundsTwice (lastPlace p v) v q w) (few : p ≤ maxPrecision) :
    |w - v| ≤ 10 ^ (1 - p : ℤ) * |v| + 10 ^ (-28 : ℤ) := by
  rcases eq_or_ne v 0 with rfl | nonzero
  · rw [twice.eq_zero, sub_zero, abs_zero]
    positivity
  · have power := tenPow_pos (lastPlace p v)
    have parts := tenPow_lastPlace_le p nonzero
    linarith [twice.near few]

end Decimal

open Decimal
variable {options : Options} {rest : Stack} {a b : Decimal}

/-- An operator on two numbers adds what it computes, or fails as the computation does. -/
theorem Operator.run_arithmetic (options : Options) (op : BinaryArithmetic) (a b : Decimal) (rest : Stack) :
    run options (.binary (.arithmetic op)) (.number b :: .number a :: rest) =
      Stack.pushResult options.maxStackDepth ((op.eval options.precision a b).map .number) rest := by
  change Stack.pushResult _ (op.eval options.precision a b >>= fun result => .ok (.number result)) rest = _
  cases op.eval options.precision a b with
  | error fault => rfl
  | ok result => rfl

theorem quotient_cases (precision : ℕ) (wellFormed : a.WellFormed) (nonzero : b.isZero = false) :
    Decimal.Overflows (a.value / b.value) ∧ BinaryArithmetic.eval precision .div a b = .error .rangeCheck ∨
      ∃ q : Decimal, Rounds (a.value / b.value) q.value ∧
        BinaryArithmetic.eval precision .div a b = .ok (q.roundTo precision) := by
  have computed := div?_computes wellFormed nonzero
  simp only [BinaryArithmetic.eval, quotient, nonzero, Bool.false_eq_true, if_false]
  cases found : a.div? b with
  | none =>
    rw [found] at computed
    exact .inl ⟨computed, rfl⟩
  | some q =>
    rw [found] at computed
    exact .inr ⟨q, computed, rfl⟩

/-- A quotient that is pushed misses the dividend, once it is multiplied by the divisor, by at most a
unit of the last digit kept and a unit of the last place of the format. Dividing by another number
than zero fails only on quotients that are too large. -/
theorem Operator.run_div_mul_near (options : Options) (rest : Stack) (wellFormed : a.WellFormed)
    (nonzero : b.isZero = false) :
    let p : ℕ := max 1 (min options.precision 28)
    let ran := run options (.binary (.arithmetic .div)) (.number b :: .number a :: rest)
    (∀ r : Decimal, ran = .done (.number r :: rest) →
        |r.value * b.value - a.value| ≤ 10 ^ (1 - p : ℤ) * |a.value| + 10 ^ (-28 : ℤ) * |b.value|) ∧
      (ran.result = .error .rangeCheck → 2 ^ 96 - 1 < |a.value / b.value|) ∧
      (rest.length < options.maxStackDepth →
        ran = .failed rest .rangeCheck ∨ ∃ r, ran = .done (.number r :: rest)) := by
  intro p ran
  have divisor : b.value ≠ 0 := value_ne_zero nonzero
  have opened : ran = _ := run_arithmetic options .div a b rest
  rw [opened]
  rcases quotient_cases options.precision wellFormed nonzero with ⟨large, refused⟩ | ⟨q, rounds, computed⟩
  · rw [refused]
    exact ⟨fun r completed => (nomatch congrArg Outcome.result completed), fun _ => large.lt_abs, fun _ => .inl rfl⟩
  · rw [computed]
    refine ⟨fun r completed => ?_, fun failed => ?_, fun room => .inr ⟨_, Stack.push_of_room room⟩⟩
    · obtain ⟨_, same⟩ := Stack.push_eq_done completed
      obtain ⟨⟨rfl⟩, _⟩ := List.cons_eq_cons.mp same
      have twice : RoundsTwice (lastPlace p (a.value / b.value)) (a.value / b.value) q.value
        (q.roundTo options.precision).value := roundTo_roundsTwice rounds
      have near := twice.near_parts (digitsKept_le options.precision)
      have missed : (q.roundTo options.precision).value * b.value - a.value =
          ((q.roundTo options.precision).value - a.value / b.value) * b.value := by
        rw [sub_mul, div_mul_cancel₀ _ divisor]
      have parts : |a.value| = |a.value / b.value| * |b.value| := by rw [← abs_mul, div_mul_cancel₀ _ divisor]
      rw [missed, abs_mul, parts, ← mul_assoc, ← add_mul]
      exact mul_le_mul_of_nonneg_right near (abs_nonneg _)
    · -- A quotient that was found can only be too much for the stack.
      have pushed : (Stack.push options.maxStackDepth (.number (q.roundTo options.precision)) rest).result =
        .error .rangeCheck := failed
      unfold Stack.push at pushed
      split at pushed
      · cases pushed
      · cases pushed

/-- This quotient is half of the last place, and zero is pushed for it. -/
theorem Operator.run_div_mul_near_half :
    let a : Decimal := ⟨true, 1, 20⟩
    let b := ofNat 200000000
    let r := zero
    a.WellFormed ∧ b.isZero = false ∧
      run {} (.binary (.arithmetic .div)) [.number b, .number a] = .done [.number r] ∧
      |r.value * b.value - a.value| ≤ 10 ^ (-27 : ℤ) * |a.value| + 10 ^ (-28 : ℤ) * |b.value| := by
  intro a b r
  have wellFormed : a.WellFormed := ⟨by decide, by decide⟩
  have nonzero : b.isZero = false := rfl
  have ran : run {} (.binary (.arithmetic .div)) [.number b, .number a] = .done [.number r] :=
    congrArg₂ Outcome.mk (by decide +kernel) (by decide +kernel)
  exact ⟨wellFormed, nonzero, ran, (run_div_mul_near {} [] wellFormed nonzero).1 r ran⟩

end StackCalculator

import StackCalculator.Proofs.Integers

/-! What a remainder stands for. It is exact wherever the division of the aligned
coefficients is, and that is so whenever the dividend has as many places as the divisor. -/
namespace StackCalculator.Decimal

/-- What is left of `v` when `w` is taken from it as often as it goes, with the sign of `v`. -/
def remainder (v w : ℚ) : ℚ := v - w * truncated (v / w)

/-- The coefficient at a scale that is not smaller. -/
def coefficientAt (d : Decimal) (scale : ℕ) : ℕ := d.coefficient * pow10 (scale - d.scale)

/-- At the common scale division by words leaves what division leaves. -/
def RemainderExact (a b : Decimal) : Prop :=
  remainderOf (a.coefficientAt (max a.scale b.scale)) (b.coefficientAt (max a.scale b.scale)) =
    a.coefficientAt (max a.scale b.scale) % b.coefficientAt (max a.scale b.scale)

instance (a b : Decimal) : Decidable (RemainderExact a b) := inferInstanceAs (Decidable (_ = _))

variable {a b d : Decimal} {scale : ℕ}

theorem abs_value_eq_coefficientAt (le : d.scale ≤ scale) :
    |d.value| = d.coefficientAt scale / 10 ^ scale := by
  rw [abs_value, coefficientAt, Nat.cast_mul, pow10_cast, div_eq_div_iff (by positivity) (by positivity),
    mul_assoc, ← pow_add, Nat.sub_add_cancel le]

theorem remainder_eq (first : a.scale ≤ scale) (second : b.scale ≤ scale) :
    remainder a.value b.value =
      unit a.negative * ((a.coefficientAt scale % b.coefficientAt scale : ℕ) / 10 ^ scale) := by
  have dividend := abs_value_eq_coefficientAt first
  have divisor := abs_value_eq_coefficientAt second
  have quotient : |a.value| / |b.value| = a.coefficientAt scale / b.coefficientAt scale := by
    rw [dividend, divisor, div_div_div_cancel_right₀ (by positivity)]
  have whole : (truncated (a.value / b.value) : ℚ) =
      unit (a.negative != b.negative) * (a.coefficientAt scale / b.coefficientAt scale : ℕ) := by
    rw [value_div_value, truncated_unit _ (by positivity), quotient, Rat.floor_natCast_div_natCast]
    rfl
  have parts : (a.coefficientAt scale : ℚ) = b.coefficientAt scale *
      (a.coefficientAt scale / b.coefficientAt scale : ℕ) +
        (a.coefficientAt scale % b.coefficientAt scale : ℕ) := by
    exact_mod_cast (Nat.div_add_mod _ _).symm
  have square : unit b.negative * unit b.negative = 1 := by
    rw [← unit_bne, bne_self_eq_false, unit_false]
  rw [remainder, whole, value_eq_unit_mul a, value_eq_unit_mul b, dividend, divisor, unit_bne, parts]
  generalize (a.coefficientAt scale / b.coefficientAt scale : ℕ) = q
  -- The sign of the divisor comes twice.
  linear_combination -(unit a.negative * (b.coefficientAt scale / 10 ^ scale * q)) * square

theorem remainder_intCast (m n : ℤ) : remainder m n = (m.tmod n : ℤ) := by
  rw [remainder, truncated_div, Int.tmod_def]
  push_cast
  rfl

theorem coefficientAt_of_scale_le (le : b.scale ≤ a.scale) :
    a.coefficientAt (max a.scale b.scale) = a.coefficient := by
  rw [max_eq_left le, coefficientAt, Nat.sub_self]
  exact Nat.mul_one _

theorem remainderExact_of_scale_le (wellFormed : a.WellFormed) (le : b.scale ≤ a.scale) :
    RemainderExact a b := by
  rw [RemainderExact, coefficientAt_of_scale_le le]
  exact if_pos (.inl wellFormed.coefficient_lt)

/-- Only division by zero has no remainder. -/
theorem rem?_isSome (nonzero : b.isZero = false) : (a.rem? b).isSome = true := by
  simp only [rem?, nonzero, Bool.false_eq_true, if_false]
  split
  · rfl
  · split
    · rfl
    · split <;> rfl

/-- What a remainder is, and what it is in any case. -/
structure Leaves (a b rest : Decimal) : Prop where
  sign : rest.value = unit a.negative * |rest.value|
  lt : |rest.value| < |b.value|
  le : |rest.value| ≤ |a.value|
  exact : RemainderExact a b → rest.value = remainder a.value b.value

theorem Leaves.of_parts {rest : Decimal} {n : ℕ} (first : a.scale ≤ scale) (second : b.scale ≤ scale)
    (parts : rest.value = unit a.negative * (n / 10 ^ scale)) (lt : n < b.coefficientAt scale)
    (le : n ≤ a.coefficientAt scale)
    (exact : RemainderExact a b → n = a.coefficientAt scale % b.coefficientAt scale) : Leaves a b rest := by
  have power : (0 : ℚ) < 10 ^ scale := by positivity
  have size : |rest.value| = n / 10 ^ scale := by
    rw [parts, abs_mul, abs_unit, one_mul, abs_of_nonneg (by positivity)]
  refine ⟨by rw [size, parts], ?_, ?_, fun remains => ?_⟩
  · rw [size, abs_value_eq_coefficientAt second, div_lt_div_iff_of_pos_right power]
    exact_mod_cast lt
  · rw [size, abs_value_eq_coefficientAt first, div_le_div_iff_of_pos_right power]
    exact_mod_cast le
  · rw [parts, remainder_eq first second, exact remains]

theorem rem?_leaves (a b : Decimal) : Gives (Leaves a b) (a.rem? b) := by
  have first := le_max_left a.scale b.scale
  have second := le_max_right a.scale b.scale
  have dividend := abs_value_eq_coefficientAt first
  have aligned : RemainderExact a b → remainderOf (a.coefficientAt (max a.scale b.scale))
      (b.coefficientAt (max a.scale b.scale)) =
        a.coefficientAt (max a.scale b.scale) % b.coefficientAt (max a.scale b.scale) := id
  change Gives _ (if b.isZero then none else if a.isZero then some zero
    else if a.coefficientAt (max a.scale b.scale) = b.coefficientAt (max a.scale b.scale) then some zero
    else if a.coefficientAt (max a.scale b.scale) < b.coefficientAt (max a.scale b.scale) then some a
    else some (ofParts a.negative (remainderOf (a.coefficientAt (max a.scale b.scale))
      (b.coefficientAt (max a.scale b.scale))) (max a.scale b.scale)))
  generalize max a.scale b.scale = scale at *
  have nothing : zero.value = unit a.negative * ((0 : ℕ) / 10 ^ scale) := by
    rw [value_zero, Nat.cast_zero, zero_div, mul_zero]
  split
  · next undefined => exact .none
  · next defined =>
    have positive : 0 < b.coefficientAt scale :=
      Nat.mul_pos (coefficient_pos (Bool.eq_false_of_not_eq_true defined)) (pow10_pos _)
    split
    · next none =>
      have none : a.coefficientAt scale = 0 := by
        rw [coefficientAt, beq_iff_eq.mp none, Nat.zero_mul]
      exact .some (.of_parts first second nothing positive (Nat.zero_le _) fun _ => by rw [none, Nat.zero_mod])
    · split
      · next equal =>
        exact .some (.of_parts first second nothing positive (Nat.zero_le _) fun _ => by rw [equal, Nat.mod_self])
      · split
        · next less =>
          refine .some (.of_parts first second ?_ less le_rfl fun _ => (Nat.mod_eq_of_lt less).symm)
          rw [← dividend, ← value_eq_unit_mul]
        · next more =>
          have left := remainderOf_lt positive (a.coefficientAt scale)
          have below := left.le.trans (Nat.le_of_not_lt more)
          exact .some (.of_parts first second (value_ofParts _ _ _) left below aligned)

theorem value_rem? (exact : RemainderExact a b) :
    Gives (fun rest => rest.value = remainder a.value b.value) (a.rem? b) :=
  fun rest found => (rem?_leaves a b rest found).exact exact

end StackCalculator.Decimal

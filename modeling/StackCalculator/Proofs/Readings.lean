import StackCalculator.Value

/-! What the readings of a value accept. A value denotes an integer if it is a number and
that integer is its value, however it is encoded; the readings as integers and counts are
told by the integer that is denoted. -/
namespace StackCalculator
namespace Decimal
variable {d : Decimal} {i : Int}

theorem value_eq_intCast_iff : d.value = i ↔ d.signed = i * (pow10 d.scale : Int) := by
  rw [value, ← Rat.mkRat_one, Rat.mkRat_eq_iff (Nat.ne_of_gt (pow10_pos d.scale)) Nat.one_ne_zero]
  simp only [Int.natCast_one, Int.mul_one]

/-- An integral number is the integer that is left of it without its fraction. -/
theorem value_eq_toInt (integral : d.isIntegral = true) : d.value = d.toInt := by
  have exact : d.whole * pow10 d.scale = d.coefficient :=
    Nat.div_mul_cancel (Nat.dvd_of_mod_eq_zero (beq_iff_eq.mp integral))
  have magnitude : (d.whole : Int) * (pow10 d.scale : Int) = d.coefficient := by
    rw [← Int.natCast_mul, exact]
  rw [value_eq_intCast_iff, signed, toInt]
  split
  · rw [Int.neg_mul, magnitude]
  · exact magnitude.symm

theorem isIntegral_of_value (equal : d.value = i) : d.isIntegral = true := by
  have signed : d.signed = i * (pow10 d.scale : Int) := value_eq_intCast_iff.mp equal
  have magnitude : d.signed.natAbs = d.coefficient := by
    unfold Decimal.signed
    split <;> simp
  rw [signed, Int.natAbs_mul, Int.natAbs_natCast] at magnitude
  rw [isIntegral, ← magnitude, Nat.mul_mod_left]
  rfl

theorem toInt_of_value (equal : d.value = i) : d.toInt = i :=
  Rat.intCast_inj.mp ((value_eq_toInt (isIntegral_of_value equal)).symm.trans equal)

theorem isNegative_iff (equal : d.value = i) : d.isNegative = true ↔ i < 0 := by
  have signed : d.signed = i * (pow10 d.scale : Int) := value_eq_intCast_iff.mp equal
  have scaled : (0 : Int) < pow10 d.scale := Int.natCast_pos.mpr (pow10_pos d.scale)
  have below : d.isNegative = true ↔ d.signed < 0 := by
    cases negative : d.negative with
    | true =>
      simp only [isNegative, isZero, Decimal.signed, negative, Bool.true_and, Bool.not_eq_true',
        beq_eq_false_iff_ne, if_true]
      omega
    | false => simp [isNegative, Decimal.signed, negative]
  rw [below, signed]
  constructor
  · intro product
    exact Int.neg_of_mul_neg_left product scaled
  · intro factor
    exact Int.mul_neg_of_neg_of_pos factor scaled

end Decimal

/-- The integers of a word, from its negative bound on and below its positive one. -/
def Within (bound i : Int) : Prop := -bound ≤ i ∧ i < bound

instance (bound i : Int) : Decidable (Within bound i) := inferInstanceAs (Decidable (_ ∧ _))

namespace Value
variable {v : Value} {d : Decimal} {i : Int}

/-- The value is a number, and that number is the integer. -/
def Denotes (v : Value) (i : Int) : Prop := ∃ d, v = .number d ∧ d.value = i

theorem denotes_toInt (integral : d.isIntegral = true) : (number d).Denotes d.toInt :=
  ⟨d, rfl, Decimal.value_eq_toInt integral⟩

theorem not_denotes_boolean (b : Bool) : ¬(boolean b).Denotes i := by
  rintro ⟨d, kind, _⟩
  cases kind

theorem denotes_inj {j : Int} (first : v.Denotes i) (second : v.Denotes j) : i = j := by
  obtain ⟨d, rfl, equal⟩ := first
  obtain ⟨_, ⟨⟩, equal'⟩ := second
  exact Rat.intCast_inj.mp (equal.symm.trans equal')

theorem toInt_of_denotes (k : Nat) (denotes : v.Denotes i) :
    v.toInt k = if Within intBound i then .ok i else .error .rangeCheck := by
  obtain ⟨d, rfl, equal⟩ := denotes
  have passed : ¬(!d.isIntegral) = true := by simp [Decimal.isIntegral_of_value equal]
  rw [← Decimal.toInt_of_value equal]
  exact if_neg passed

theorem toInt_of_not_integer (k : Nat) (other : ∀ i, ¬v.Denotes i) :
    v.toInt k = .error (.typeMismatch k) := by
  cases v with
  | boolean b => rfl
  | number d =>
    have refused : (!d.isIntegral) = true := by
      rw [Bool.not_eq_true', ← Bool.not_eq_true]
      intro integral
      exact other d.toInt (denotes_toInt integral)
    exact if_pos refused

theorem toInt32_of_denotes (k : Nat) (denotes : v.Denotes i) :
    v.toInt32 k = if Within intBound i then
        if Within int32Bound i then .ok i else .error (.typeMismatch k)
      else .error .rangeCheck := by
  unfold toInt32
  rw [toInt_of_denotes k denotes]
  split <;> rfl

theorem toInt32_of_not_integer (k : Nat) (other : ∀ i, ¬v.Denotes i) :
    v.toInt32 k = .error (.typeMismatch k) := by
  unfold toInt32
  rw [toInt_of_not_integer k other]
  rfl

/-- Every integer from zero on is a count, also one beyond the largest and a zero with a
minus sign. -/
theorem toCount_of_denotes (k : Nat) (denotes : v.Denotes i) (nonneg : 0 ≤ i) :
    ∃ n, v.toCount k = .ok n := by
  obtain ⟨d, rfl, equal⟩ := denotes
  have positive : d.isNegative = false := by
    rw [← Bool.not_eq_true, Decimal.isNegative_iff equal]
    omega
  have passed : ¬(!d.isIntegral || d.isNegative) = true := by
    simp [Decimal.isIntegral_of_value equal, positive]
  exact ⟨_, if_neg passed⟩

theorem toCount_of_not_count (k : Nat) (other : ∀ i, v.Denotes i → i < 0) :
    v.toCount k = .error (.typeMismatch k) := by
  cases v with
  | boolean b => rfl
  | number d =>
    have refused : (!d.isIntegral || d.isNegative) = true := by
      cases integral : d.isIntegral with
      | false => rfl
      | true =>
        have below : d.toInt < 0 := other d.toInt (denotes_toInt integral)
        exact (Decimal.isNegative_iff (Decimal.value_eq_toInt integral)).mpr below
    exact if_pos refused

end Value
end StackCalculator

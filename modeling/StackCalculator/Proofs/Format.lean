import StackCalculator.Operator.Arithmetic
import Mathlib.Data.Nat.Basic

/-! Arithmetic stays in the format. Products, quotients and conversions from wide numbers
fit it whatever they are computed from; sums and remainders do if their operands do, which
come back unchanged next to a zero. The elementary functions end in one of these. -/
namespace StackCalculator

/-- Every result has the property. -/
def Gives (P : α → Prop) (result : Option α) : Prop := ∀ a, result = some a → P a

namespace Gives
variable {P : α → Prop} {Q : β → Prop}

theorem none : Gives P .none := nofun

theorem some (given : P a) : Gives P (.some a) := by
  rintro _ ⟨⟩
  exact given

theorem bind {result : Option α} {next : α → Option β} (first : Gives P result)
    (rest : ∀ a, P a → Gives Q (next a)) : Gives Q (result >>= next) := by
  cases result with
  | none => exact none
  | some a => exact rest a (first a rfl)

theorem map {result : Option α} {f : α → β} (first : Gives P result) (kept : ∀ a, P a → Q (f a)) :
    Gives Q (result.map f) := by
  cases result with
  | none => exact none
  | some a => exact some (kept a (first a rfl))

theorem trivial (result : Option α) : Gives (fun _ => True) result := fun _ _ => True.intro

end Gives

/-- Every result has the property; faults are not looked at. -/
def Yields (P : α → Prop) (result : Except ε α) : Prop := ∀ a, result = .ok a → P a

namespace Yields
variable {P : α → Prop} {Q : β → Prop} {ε : Type}

theorem error (e : ε) : Yields P (.error e) := nofun

theorem ok (given : P a) : Yields P (.ok a : Except ε α) := by
  rintro _ ⟨⟩
  exact given

theorem bind {result : Except ε α} {next : α → Except ε β} (first : Yields P result)
    (rest : ∀ a, P a → Yields Q (next a)) : Yields Q (result >>= next) := by
  cases result with
  | error e => exact error e
  | ok a => exact rest a (first a rfl)

theorem map {result : Except ε α} {f : α → β} (first : Yields P result) (kept : ∀ a, P a → Q (f a)) :
    Yields Q (result.map f) := by
  cases result with
  | error e => exact error e
  | ok a => exact ok (kept a (first a rfl))

theorem trivial (result : Except ε α) : Yields (fun _ => True) result := fun _ _ => True.intro

theorem checked {result : Option α} (given : Gives P result) : Yields P (checked result) := by
  cases result with
  | none => exact error _
  | some a => exact ok (given a rfl)

theorem assumed {result : Option α} (given : Gives P result) : Yields P (assumed result) := by
  cases result with
  | none => exact error _
  | some a => exact ok (given a rfl)

theorem inRange {result : Option α} (given : Gives P result) : Yields P (inRange result) := by
  cases result with
  | none => exact error _
  | some a => exact ok (given a rfl)

theorem faulting {result : Except Failure α} (outside : Fault) (given : Yields P result) :
    Yields P (faulting outside result) := by
  cases result with
  | error failure => exact error _
  | ok a => exact ok (given a rfl)

end Yields

namespace Decimal

/-- A coefficient and a scale of the format. -/
def Fits (parts : Nat × Nat) : Prop := parts.1 < capacity ∧ parts.2 ≤ maxScale

variable {a b d : Decimal} {n s : Nat}

theorem wellFormed_ofParts {negative : Bool} (fits : Fits (n, s)) : (ofParts negative n s).WellFormed :=
  ⟨fits.1, fits.2⟩

theorem wellFormed_mk {negative : Bool} (fits : Fits (n, s)) : WellFormed ⟨negative, n, s⟩ :=
  ⟨fits.1, fits.2⟩

theorem WellFormed.fits (wellFormed : d.WellFormed) : Fits (d.coefficient, d.scale) :=
  ⟨wellFormed.coefficient_lt, wellFormed.scale_le⟩

theorem wellFormed_ofNat (small : n < capacity) : (ofNat n).WellFormed := ⟨small, Nat.zero_le _⟩

theorem wellFormed_ofInt {i : Int} (small : i.natAbs < capacity) : (ofInt i).WellFormed :=
  ⟨small, Nat.zero_le _⟩

theorem wellFormed_zero : zero.WellFormed := wellFormed_ofNat (by decide)

theorem wellFormed_one : one.WellFormed := wellFormed_ofNat (by decide)

theorem WellFormed.neg (wellFormed : d.WellFormed) : d.neg.WellFormed :=
  ⟨wellFormed.coefficient_lt, wellFormed.scale_le⟩

theorem WellFormed.abs (wellFormed : d.WellFormed) : d.abs.WellFormed :=
  ⟨wellFormed.coefficient_lt, wellFormed.scale_le⟩

theorem halfEven_le_succ (num den : Nat) : halfEven num den ≤ num / den + 1 := by
  unfold halfEven
  split
  · exact Nat.le_refl _
  · exact Nat.le_succ _

/-- Something is left over where the quotient is rounded up. -/
theorem succ_div_le {num den : Nat} (rest : 0 < num % den) : num / den + 1 ≤ num := by
  rcases Nat.eq_zero_or_pos den with rfl | positive
  · rw [Nat.mod_zero] at rest
    rw [Nat.div_zero]
    omega
  · have whole : num / den ≤ den * (num / den) := Nat.le_mul_of_pos_left _ positive
    have parts : den * (num / den) + num % den = num := Nat.div_add_mod num den
    omega

theorem halfEven_le {num den : Nat} (positive : 0 < den) : halfEven num den ≤ num := by
  unfold halfEven
  split
  · exact succ_div_le (by omega)
  · exact Nat.div_le_self num den

theorem halfUp_le {num den : Nat} (positive : 0 < den) : halfUp num den ≤ num := by
  unfold halfUp
  split
  · exact succ_div_le (by omega)
  · exact Nat.div_le_self num den

theorem pow10_succ (n : Nat) : pow10 (n + 1) = 10 * pow10 n := Nat.pow_succ'

theorem pow10_add (m n : Nat) : pow10 (m + n) = pow10 m * pow10 n := Nat.pow_add 10 m n

theorem div_excessDigits_lt (n : Nat) : n / pow10 (excessDigits n) < capacity := by
  induction n using excessDigits.induct with
  | case1 n small =>
    rw [excessDigits, if_pos small]
    exact Nat.lt_of_le_of_lt (Nat.div_le_self n _) small
  | case2 n large ih =>
    rwa [excessDigits, if_neg large, pow10_succ, ← Nat.div_div_eq_div_mul]

/-- A carry reaches the capacity exactly, and then gives up a digit. -/
theorem fit?_fits (n s : Nat) : Gives Fits (fit? n s) := by
  have below : n / pow10 ((s - maxScale) + excessDigits (n / pow10 (s - maxScale))) < capacity := by
    rw [pow10_add, ← Nat.div_div_eq_div_mul]
    exact div_excessDigits_lt _
  have carried : ∀ drop, n / pow10 drop < capacity →
      halfEven (halfEven n (pow10 drop)) 10 < capacity := by
    intro drop small
    have rounded : halfEven n (pow10 drop) ≤ n / pow10 drop + 1 := halfEven_le_succ _ _
    have shorter : halfEven (halfEven n (pow10 drop)) 10 ≤ halfEven n (pow10 drop) / 10 + 1 :=
      halfEven_le_succ _ _
    have large : capacity = 79228162514264337593543950336 := rfl
    omega
  unfold fit?
  extract_lets drop rounded
  split
  · next overflows => exact .none
  · split
    · next small =>
      refine .some ⟨small, ?_⟩
      show s - drop ≤ maxScale
      omega
    · split
      · next whole => exact .none
      · next fractional =>
        refine .some ⟨carried drop below, ?_⟩
        show s - drop - 1 ≤ maxScale
        omega

theorem stripZeros_le (n s : Nat) : (stripZeros n s).1 ≤ n ∧ (stripZeros n s).2 ≤ s := by
  induction s generalizing n with
  | zero => exact ⟨Nat.le_refl n, Nat.le_refl 0⟩
  | succ s ih =>
    unfold stripZeros
    split
    · obtain ⟨first, second⟩ := ih (n / 10)
      exact ⟨Nat.le_trans first (Nat.div_le_self n 10), Nat.le_trans second (Nat.le_succ s)⟩
    · exact ⟨Nat.le_refl n, Nat.le_refl _⟩

theorem Fits.mono {parts shorter : Nat × Nat} (fits : Fits parts) (first : shorter.1 ≤ parts.1)
    (second : shorter.2 ≤ parts.2) : Fits shorter :=
  ⟨Nat.lt_of_le_of_lt first fits.1, Nat.le_trans second fits.2⟩

theorem WellFormed.normalize (wellFormed : d.WellFormed) : d.normalize.WellFormed := by
  unfold Decimal.normalize
  split
  · exact wellFormed_zero
  · obtain ⟨first, second⟩ := stripZeros_le d.coefficient d.scale
    exact wellFormed_mk (wellFormed.fits.mono first second)

/-- Rounding only takes digits away; where it puts zeros in their place it checks them. -/
theorem WellFormed.roundTo (wellFormed : d.WellFormed) (precision : Nat) :
    (d.roundTo precision).WellFormed := by
  have rounded (drop : Nat) : halfEven d.coefficient (pow10 drop) ≤ d.coefficient :=
    halfEven_le (pow10_pos drop)
  simp only [Decimal.roundTo]
  split
  · exact wellFormed
  · split
    · exact wellFormed_mk (wellFormed.fits.mono (rounded _) (Nat.sub_le _ _))
    · split
      · next small => exact wellFormed_mk ⟨small, Nat.zero_le _⟩
      · exact wellFormed

theorem whole_le (d : Decimal) : d.whole ≤ d.coefficient := Nat.div_le_self _ _

theorem whole_lt (fractional : d.isIntegral = false) : d.whole < d.coefficient := by
  have rest : 0 < d.coefficient % pow10 d.scale :=
    Nat.pos_of_ne_zero (beq_eq_false_iff_ne.mp fractional)
  exact succ_div_le rest

theorem WellFormed.trunc (wellFormed : d.WellFormed) : d.trunc.WellFormed :=
  wellFormed_mk (wellFormed.fits.mono (whole_le d) (Nat.zero_le _))

theorem WellFormed.floor (wellFormed : d.WellFormed) : d.floor.WellFormed := by
  unfold Decimal.floor
  split
  · next below =>
    have fractional : d.isIntegral = false := by simpa using (Bool.and_eq_true_iff.mp below).2
    exact wellFormed_mk (wellFormed.fits.mono (whole_lt fractional) (Nat.zero_le _))
  · exact wellFormed.trunc

theorem WellFormed.ceil (wellFormed : d.WellFormed) : d.ceil.WellFormed := by
  unfold Decimal.ceil
  split
  · next above =>
    have fractional : d.isIntegral = false := by simpa using (Bool.and_eq_true_iff.mp above).2
    exact wellFormed_mk (wellFormed.fits.mono (whole_lt fractional) (Nat.zero_le _))
  · exact wellFormed.trunc

theorem WellFormed.round (wellFormed : d.WellFormed) : d.round.WellFormed := by
  unfold Decimal.round
  split
  · exact wellFormed_mk (wellFormed.fits.mono (Nat.le_refl _) (Nat.zero_le _))
  · exact wellFormed_ofParts (wellFormed.fits.mono (halfUp_le (pow10_pos _)) (Nat.zero_le _))

theorem add?_wellFormed (first : a.WellFormed) (second : b.WellFormed) :
    Gives WellFormed (a.add? b) := by
  unfold add?
  split
  · next zero => exact .some second
  · split
    · next zero => exact .some first
    · next nonzero => exact .map (fit?_fits _ _) fun _ => wellFormed_ofParts

theorem sub?_wellFormed (first : a.WellFormed) (second : b.WellFormed) :
    Gives WellFormed (a.sub? b) := by
  unfold sub?
  split
  · exact add?_wellFormed first second
  · exact add?_wellFormed first second.neg

theorem mul?_wellFormed (a b : Decimal) : Gives WellFormed (a.mul? b) := by
  have words : a.coefficient < wordCapacity ∧ b.coefficient < wordCapacity →
      a.coefficient * b.coefficient < capacity := by
    rintro ⟨first, second⟩
    calc a.coefficient * b.coefficient
      _ ≤ wordCapacity * wordCapacity := Nat.mul_le_mul (Nat.le_of_lt first) (Nat.le_of_lt second)
      _ < capacity := by decide
  unfold mul?
  extract_lets negative product scale
  split
  · next zero => exact .some wellFormed_zero
  · split
    · next small =>
      have fits : product < capacity := words small
      split
      · next vanishes => exact .some wellFormed_zero
      · split
        · next rounded =>
          have shortened := Nat.lt_of_le_of_lt (halfEven_le (pow10_pos (scale - maxScale))) fits
          exact .some (wellFormed_ofParts ⟨shortened, Nat.le_refl _⟩)
        · next inside => exact .some (wellFormed_ofParts ⟨fits, Nat.le_of_not_lt inside⟩)
    · next large => exact .map (fit?_fits _ _) fun _ => wellFormed_mk

theorem mul_pow10_room_lt {q : Nat} (small : q < capacity) (limit : Nat) :
    q * pow10 (room q limit) < capacity := by
  induction limit with
  | zero => exact (Nat.mul_one q).symm ▸ small
  | succ limit ih =>
    unfold room
    split
    · next fits => exact fits
    · exact ih

/-- What gives up its last digit was at most one digit too long. -/
theorem giveBack_fits {q : Nat} {scale : Int} (small : q < 2 * capacity) (bound : scale ≤ maxScale + 1)
    (inexact : Bool) : Gives Fits (giveBack q scale inexact) := by
  have large : capacity = 79228162514264337593543950336 := rfl
  have shorter : q / 10 + 1 < capacity := by omega
  simp only [giveBack]
  split
  · next whole => exact .none
  · next fractional =>
    refine .some ⟨?_, ?_⟩
    · split
      · exact shorter
      · exact Nat.lt_of_succ_lt shorter
    · show (scale - 1).toNat ≤ maxScale
      omega

theorem roundLast_fits {q : Nat} {scale : Int} (den r : Nat) (small : q < capacity)
    (bound : scale ≤ maxScale) : Gives Fits (roundLast den q r scale) := by
  have large : capacity = 79228162514264337593543950336 := rfl
  have rounded : (if den < 2 * r ∨ 2 * r = den ∧ q % 2 = 1 then q + 1 else q) < 2 * capacity := by
    split <;> omega
  unfold roundLast
  extract_lets last
  split
  · next fits =>
    refine .some ⟨fits, ?_⟩
    show scale.toNat ≤ maxScale
    omega
  · next long => exact giveBack_fits rounded (by omega) true

theorem longDivision_fits {den q r : Nat} {scale : Int} (small : q < capacity) (rest : r < den)
    (bound : scale ≤ maxScale) : Gives Fits (longDivision den q r scale) := by
  have places : (maxScale : Int) = 28 := rfl
  have large : capacity = 79228162514264337593543950336 := rfl
  fun_induction longDivision den q r scale with
  | case1 q scale nonneg => exact .some ⟨small, by show scale.toNat ≤ maxScale; omega⟩
  | case2 q scale negative step fits ih => exact ih fits rest (by omega)
  | case3 => exact .none
  | case4 => exact .none
  | case5 => exact roundLast_fits _ _ small bound
  | case6 q r scale _ step _ _ extended left fits ih =>
    have within : step ≤ _ := room_le q (min 9 (maxScale - scale).toNat)
    exact ih fits (Nat.mod_lt _ (Nat.lt_of_le_of_lt (Nat.zero_le r) rest)) (by omega)
  | case7 q r scale _ step _ _ extended left _ =>
    have within : step ≤ _ := room_le q (min 9 (maxScale - scale).toNat)
    have kept : q * pow10 step < capacity := mul_pow10_room_lt small _
    have added : r * pow10 step / den ≤ pow10 step := by
      apply Nat.div_le_of_le_mul
      exact Nat.mul_le_mul_right _ (Nat.le_of_lt rest)
    have short : pow10 step ≤ pow10 9 := Nat.pow_le_pow_right (by decide) (by omega)
    have nine : pow10 9 = 1000000000 := rfl
    exact giveBack_fits (by omega) (by omega) _

theorem Fits.dropZeros {count : Nat} (fits : Fits (n, s)) : Fits (dropZeros count n s) := by
  unfold Decimal.dropZeros
  split
  · exact fits.mono (Nat.div_le_self _ _) (Nat.sub_le _ _)
  · exact fits

theorem Fits.dropBlocks (fits : Fits (n, s)) : Fits (dropBlocks n s) := by
  fun_induction Decimal.dropBlocks n s with
  | case1 n s _ ih => exact ih (fits.mono (Nat.div_le_self _ _) (Nat.sub_le _ _))
  | case2 => exact fits

theorem Fits.trimQuotient (fits : Fits (n, s)) : Fits (trimQuotient n s) :=
  fits.dropBlocks.dropZeros.dropZeros.dropZeros

theorem div?_wellFormed (first : a.WellFormed) (b : Decimal) : Gives WellFormed (a.div? b) := by
  unfold div?
  split
  · next undefined => exact .none
  · next defined =>
    have positive : 0 < b.coefficient := Nat.pos_of_ne_zero fun zero => defined (beq_iff_eq.mpr zero)
    split
    · next zero => exact .some wellFormed_zero
    · next nonzero =>
      have small : a.coefficient / b.coefficient < capacity :=
        Nat.lt_of_le_of_lt (Nat.div_le_self _ _) first.coefficient_lt
      have places : a.scale ≤ maxScale := first.scale_le
      refine .map (longDivision_fits small (Nat.mod_lt _ positive) (by omega)) ?_
      rintro ⟨n, s⟩ fits
      have trimmed : Fits (if a.coefficient % b.coefficient = 0 then (n, s) else trimQuotient n s) := by
        split
        · exact fits
        · exact fits.trimQuotient
      exact wellFormed_ofParts trimmed

/-- However wrong the digit is, adding the divisor back leaves less than the divisor. -/
theorem reduceDigit_lt {divisor : Nat} (long : twoWordCapacity ≤ divisor) (window : Nat) :
    reduceDigit divisor window < divisor := by
  have words : 0 < twoWordCapacity := by decide
  have leading : 0 < divisor / twoWordCapacity := Nat.div_pos long words
  have rest : window / twoWordCapacity % (divisor / twoWordCapacity) * twoWordCapacity +
      window % twoWordCapacity < divisor := by
    calc window / twoWordCapacity % (divisor / twoWordCapacity) * twoWordCapacity +
          window % twoWordCapacity
      _ < (window / twoWordCapacity % (divisor / twoWordCapacity) + 1) * twoWordCapacity := by
        rw [Nat.add_one_mul]
        exact Nat.add_lt_add_left (Nat.mod_lt _ words) _
      _ ≤ divisor / twoWordCapacity * twoWordCapacity :=
        Nat.mul_le_mul_right _ (Nat.mod_lt _ leading)
      _ ≤ divisor := Nat.div_mul_le_self _ _
  simp only [reduceDigit]
  split
  · omega
  · split <;> omega

theorem reduceWords_lt {divisor : Nat} (long : twoWordCapacity ≤ divisor) (n : Nat) :
    reduceWords divisor n < divisor := by
  unfold reduceWords
  split
  · exact Nat.lt_of_lt_of_le (by decide) long
  · exact reduceDigit_lt long _

theorem longRemainder_lt {divisor : Nat} (long : twoWordCapacity ≤ divisor) (dividend : Nat) :
    longRemainder dividend divisor < divisor := by
  -- The divisor is moved up before the division and what is left is moved down after it.
  have moved : divisor ≤ divisor <<< (95 - divisor.log2) := by
    rw [Nat.shiftLeft_eq]
    exact Nat.le_mul_of_pos_right _ (Nat.two_pow_pos _)
  have left := reduceWords_lt (Nat.le_trans long moved) (dividend <<< (95 - divisor.log2))
  rw [Nat.shiftLeft_eq divisor] at left
  simp only [longRemainder]
  rw [Nat.shiftLeft_eq divisor, Nat.shiftRight_eq_div_pow]
  exact (Nat.div_lt_iff_lt_mul (Nat.two_pow_pos _)).mpr left

theorem remainderOf_lt {divisor : Nat} (positive : 0 < divisor) (dividend : Nat) :
    remainderOf dividend divisor < divisor := by
  unfold remainderOf
  split
  · exact Nat.mod_lt _ positive
  · next long =>
    rw [not_or, Nat.not_lt, Nat.not_lt] at long
    exact longRemainder_lt long.2 dividend

theorem remainderOf_lt_capacity {dividend divisor : Nat} (positive : 0 < divisor)
    (bound : dividend < capacity ∨ divisor < capacity) : remainderOf dividend divisor < capacity := by
  rcases bound with small | small
  · rw [remainderOf, if_pos (.inl small)]
    exact Nat.lt_of_le_of_lt (Nat.mod_le _ _) small
  · exact Nat.lt_trans (remainderOf_lt positive dividend) small

theorem rem?_wellFormed (first : a.WellFormed) (second : b.WellFormed) :
    Gives WellFormed (a.rem? b) := by
  have reduced (positive : 0 < b.coefficient) : remainderOf (a.coefficient * pow10 (max a.scale b.scale - a.scale))
      (b.coefficient * pow10 (max a.scale b.scale - b.scale)) < capacity := by
    apply remainderOf_lt_capacity (Nat.mul_pos positive (pow10_pos _))
    -- Only the number at the lower scale is scaled up.
    rcases Nat.le_total a.scale b.scale with lower | lower
    · right
      rw [Nat.max_eq_right lower, Nat.sub_self]
      exact (Nat.mul_one b.coefficient).symm ▸ second.coefficient_lt
    · left
      rw [Nat.max_eq_left lower, Nat.sub_self]
      exact (Nat.mul_one a.coefficient).symm ▸ first.coefficient_lt
  unfold rem?
  extract_lets scale dividend divisor
  split
  · next undefined => exact .none
  · next defined =>
    have positive : 0 < b.coefficient := Nat.pos_of_ne_zero fun zero => defined (beq_iff_eq.mpr zero)
    split
    · next zero => exact .some wellFormed_zero
    · split
      · next equal => exact .some wellFormed_zero
      · split
        · next less => exact .some first
        · next more =>
          have places : scale ≤ maxScale := Nat.max_le.mpr ⟨first.scale_le, second.scale_le⟩
          exact .some (wellFormed_ofParts ⟨reduced positive, places⟩)

end Decimal
end StackCalculator

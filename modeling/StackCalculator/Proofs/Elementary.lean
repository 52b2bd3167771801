import StackCalculator.Proofs.Encodings

/-! Powers, logarithms and angles on two encodings of the same numbers. Powers with a small
exponent multiply numbers and come out alike. The logarithms and the functions of angles
multiply by a constant that takes all places before they go over to wide numbers, so there
the two computations run into one. -/
namespace StackCalculator

theorem squarePower_rel {R : α → α → Prop} {mul? : α → α → Option α}
    (closed : ∀ a a' b b', R a a' → R b b' → Option.Rel R (mul? a b) (mul? a' b'))
    {product product' square square' : α} (products : R product product') (squares : R square square')
    (e : ℕ) : Option.Rel R (squarePower mul? product square e) (squarePower mul? product' square' e) := by
  induction e using Nat.strong_induction_on generalizing product product' square square' with
  | _ e ih =>
    have rest : ∀ next next', R next next' → Option.Rel R
        (if _ : e / 2 = 0 then pure next
          else do
            let doubled ← mul? square square
            squarePower mul? next doubled (e / 2))
        (if _ : e / 2 = 0 then pure next'
          else do
            let doubled ← mul? square' square'
            squarePower mul? next' doubled (e / 2)) := by
      intro next next' related
      split
      · exact .some related
      · exact rel_bind (closed _ _ _ _ squares squares) fun _ _ doubled =>
          ih (e / 2) (by omega) related doubled
    rw [squarePower, squarePower]
    split
    · next odd => exact rel_bind (closed _ _ _ _ products squares) rest
    · next even => exact rest _ _ products

/-- One result twice. -/
theorem Agree.self {ε : Type} {P : α → Prop} {R : α → α → Prop} (reflexive : ∀ a, P a → R a a)
    {result : Except ε α} (given : Yields P result) : Agree R result result := by
  cases result with
  | error e => exact .error e
  | ok a => exact .ok (reflexive a (given a rfl))

namespace Decimal
variable {a b x x' v v' : Decimal}

/-- A power whose factors are numbers and not wide numbers. -/
def Narrow (b : Decimal) (e : ℤ) : Prop :=
  e.natAbs < wideExponent ∨ b.isZero = true ∨ b.same one = true

instance (b : Decimal) (e : ℤ) : Decidable (Narrow b e) := inferInstanceAs (Decidable (_ ∨ _ ∨ _))

theorem Alike.powNat? (alike : Alike a b) {e : ℕ} (narrow : Narrow a e) :
    Option.Rel Alike (a.powNat? e) (b.powNat? e) := by
  rw [Decimal.powNat?, Decimal.powNat?, ← alike.isZero, ← alike.same alike_one]
  split
  · next nothing => exact .some alike_one
  · split
    · next zero => exact .some (.refl wellFormed_zero)
    · next nonzero =>
      split
      · next one => exact .some alike_one
      · next other =>
        split
        · next once => exact .some alike
        · split
          · next twice => exact alike.mul? alike
          · split
            · next small =>
              have powers := squarePower_rel (fun _ _ _ _ => Alike.mul?) alike_one alike e
              exact rel_map powers fun _ _ => .normalize
            · next large =>
              rcases narrow with small | zero | one'
              · exact absurd small large
              · exact absurd zero nonzero
              · exact absurd one' other

theorem Alike.powInt? (alike : Alike a b) {e : ℤ} (narrow : Narrow a e) :
    Option.Rel Alike (a.powInt? e) (b.powInt? e) := by
  have power : Option.Rel Alike (a.powNat? e.natAbs) (b.powNat? e.natAbs) := alike.powNat? narrow
  unfold Decimal.powInt?
  split
  · next below => exact rel_bind power fun _ _ powers => alike_one.div? powers
  · next above => exact power

theorem exists_of_computes {v : ℚ} {result : Option Decimal} (computed : Computes v (result.map value))
    (exact : Rounds v v) : ∃ d, result = some d ∧ d.value = v := by
  have found : result.map value = some v := computed.unique exact
  exact Option.map_eq_some_iff.mp found

theorem scaleWhile?_of_stop {more : Decimal → Bool} {step? : Decimal → Option Decimal} {change : ℤ}
    (done : more x = false) (count : ℕ) (k : ℤ) :
    scaleWhile? more step? change count (x, k) = some (x, k) := by
  cases count with
  | zero => rfl
  | succ count => exact if_neg (Bool.eq_false_iff.mp done)

/-- Loops that stop before their counts run out do not depend on the counts. What `enough`
says of a number and the steps left is kept by each step and ends the loop in time. -/
theorem scaleWhile?_alike (more : Decimal → Bool) (step? : Decimal → Option Decimal) (change : ℤ)
    (enough : ℕ → ℚ → Prop) (same : ∀ x x', Alike x x' → more x = more x')
    (stop : ∀ x : Decimal, enough 0 x.value → more x = false)
    (step : ∀ x x' count, Alike x x' → more x = true → enough (count + 1) x.value →
      ∃ next next', step? x = some next ∧ step? x' = some next' ∧ Alike next next' ∧
        ∀ count, enough (count + 1) x.value → enough count next.value)
    {count count' : ℕ} (alike : Alike x x') (first : enough count x.value)
    (second : enough count' x.value) (k : ℤ) :
    Option.Rel (fun r r' => Alike r.1 r'.1 ∧ r.2 = r'.2 ∧ more r.1 = false ∧ ∃ c, enough c r.1.value)
      (scaleWhile? more step? change count (x, k)) (scaleWhile? more step? change count' (x', k)) := by
  induction count generalizing count' x x' k with
  | zero =>
    have done : more x = false := stop x first
    rw [scaleWhile?_of_stop done, scaleWhile?_of_stop (same x x' alike ▸ done)]
    exact .some ⟨alike, rfl, done, 0, first⟩
  | succ count ih =>
    cases going : more x with
    | false =>
      rw [scaleWhile?_of_stop going, scaleWhile?_of_stop (same x x' alike ▸ going)]
      exact .some ⟨alike, rfl, going, _, first⟩
    | true =>
      cases count' with
      | zero =>
        rw [stop x second] at going
        contradiction
      | succ count' =>
        obtain ⟨next, next', found, found', nexts, kept⟩ := step x x' count alike going first
        have stepped := ih nexts (kept count first) (kept count' second) (k + change)
        have going' : more x' = true := same x x' alike ▸ going
        simp only [scaleWhile?, going, going', if_true, found, found']
        exact stepped

/-- A number below one has a place to give. -/
theorem mul?_ten (wellFormed : x.WellFormed) (positive : 0 < x.value) (below : x.value < 1) :
    ∃ next, x.mul? ten = some next ∧ next.value = x.value * 10 := by
  refine exists_of_computes (value_ten ▸ mul?_computes x ten) ?_
  obtain ⟨s, places⟩ : ∃ s, x.scale = s + 1 := by
    refine Nat.exists_eq_add_one.mpr (Nat.pos_of_ne_zero fun units => ?_)
    have whole : |x.value| = x.coefficient := by rw [abs_value, units, pow_zero, div_one]
    rw [abs_of_pos positive] at whole
    rw [whole] at positive below
    have least : 0 < x.coefficient := by exact_mod_cast positive
    have most : x.coefficient < 1 := by exact_mod_cast below
    omega
  have exact : x.value * 10 = unit x.negative * magnitude (x.coefficient, s) := by
    rw [value_eq, magnitude, places, pow_succ]
    field_simp
  have least : s ≤ maxScale := by
    have bound : x.scale ≤ maxScale := wellFormed.scale_le
    omega
  rw [exact]
  exact (rounds_of_exact (div_mul_cancel₀ _ (by positivity)) wellFormed.coefficient_lt least).unit _

/-- A number from ten on can take another place. -/
theorem div?_ten (wellFormed : x.WellFormed) (above : 10 ≤ x.value) :
    ∃ next, x.div? ten = some next ∧ next.value = x.value / 10 := by
  refine exists_of_computes (value_ten ▸ div?_computes wellFormed rfl) ?_
  have small : x.coefficient < capacity := wellFormed.coefficient_lt
  have room : x.scale + 1 ≤ maxScale := by
    have whole : 10 * 10 ^ x.scale ≤ (x.coefficient : ℚ) := by
      have magnitude := abs_value x
      rw [abs_of_pos (by linarith), eq_div_iff (by positivity)] at magnitude
      rw [← magnitude]
      gcongr
    have least : pow10 (x.scale + 1) ≤ x.coefficient := by
      rw [← Nat.cast_le (α := ℚ), pow10_cast, pow_succ, mul_comm]
      exact whole
    by_contra full
    have power : pow10 29 ≤ pow10 (x.scale + 1) :=
      Nat.pow_le_pow_right (by decide) (by have : maxScale = 28 := rfl; omega)
    have large : capacity < pow10 29 := by decide
    omega
  have exact : x.value / 10 = unit x.negative * magnitude (x.coefficient, x.scale + 1) := by
    rw [value_eq, magnitude, pow_succ]
    field_simp
  rw [exact]
  exact (rounds_of_exact (div_mul_cancel₀ _ (by positivity)) small room).unit _

theorem alike_ten : Alike ten ten := .refl (wellFormed_ofNat (by decide))

/-- Multiplied by ten until a digit stands before the point. -/
theorem raise_alike (alike : Alike x x') (positive : 0 < x.value) {bound : ℚ} (small : x.value ≤ bound)
    (ten_le : 10 ≤ bound) {count count' : ℕ} (first : 1 ≤ x.value * 10 ^ count)
    (second : 1 ≤ x.value * 10 ^ count') (k : ℤ) :
    Option.Rel (fun r r' => Alike r.1 r'.1 ∧ r.2 = r'.2 ∧ r.1.lt one = false ∧
        ∃ c, 0 < r.1.value ∧ r.1.value ≤ bound ∧ 1 ≤ r.1.value * 10 ^ c)
      (scaleWhile? (·.lt one) (·.mul? ten) (-1) count (x, k))
      (scaleWhile? (·.lt one) (·.mul? ten) (-1) count' (x', k)) := by
  refine scaleWhile?_alike (·.lt one) (·.mul? ten) (-1)
    (fun c v => 0 < v ∧ v ≤ bound ∧ 1 ≤ v * 10 ^ c) (fun _ _ alike => alike.lt alike_one) ?_ ?_
    alike ⟨positive, small, first⟩ ⟨positive, small, second⟩ k
  · rintro x ⟨_, _, last⟩
    rw [pow_zero, mul_one] at last
    rw [← Bool.not_eq_true, lt_iff, value_one]
    exact not_lt.mpr last
  · rintro x x' count alike going ⟨positive, small, _⟩
    have below : x.value < 1 := value_one ▸ lt_iff.mp going
    obtain ⟨next, found, equal⟩ := mul?_ten alike.left positive below
    obtain ⟨next', found', equal'⟩ := mul?_ten alike.right (alike.value ▸ positive) (alike.value ▸ below)
    refine ⟨next, next', found, found', ⟨mul?_wellFormed _ _ next found, mul?_wellFormed _ _ next' found',
      by rw [equal, equal', alike.value]⟩, ?_⟩
    rintro count ⟨_, _, enough⟩
    rw [equal]
    refine ⟨by linarith, by linarith, ?_⟩
    rwa [mul_assoc, ← pow_succ']

/-- Divided by ten until a single digit stands before the point. -/
theorem lower_alike (alike : Alike x x') (above : 1 ≤ x.value) {count count' : ℕ}
    (first : x.value < 10 ^ (count + 1)) (second : x.value < 10 ^ (count' + 1)) (k : ℤ) :
    Option.Rel (fun r r' => Alike r.1 r'.1 ∧ r.2 = r'.2 ∧ ten.le r.1 = false ∧
        ∃ c, 1 ≤ r.1.value ∧ r.1.value < 10 ^ (c + 1))
      (scaleWhile? (ten.le ·) (·.div? ten) 1 count (x, k))
      (scaleWhile? (ten.le ·) (·.div? ten) 1 count' (x', k)) := by
  refine scaleWhile?_alike (ten.le ·) (·.div? ten) 1
    (fun c v => 1 ≤ v ∧ v < 10 ^ (c + 1)) (fun _ _ alike => alike_ten.le alike) ?_ ?_
    alike ⟨above, first⟩ ⟨above, second⟩ k
  · rintro x ⟨_, last⟩
    rw [zero_add, pow_one] at last
    rw [← Bool.not_eq_true, le_iff, value_ten]
    exact not_le.mpr last
  · rintro x x' count alike going ⟨above, _⟩
    have large : 10 ≤ x.value := value_ten ▸ le_iff.mp going
    obtain ⟨next, found, equal⟩ := div?_ten alike.left large
    obtain ⟨next', found', equal'⟩ := div?_ten alike.right (alike.value ▸ large)
    refine ⟨next, next', found, found', ⟨div?_wellFormed alike.left _ next found,
      div?_wellFormed alike.right _ next' found', by rw [equal, equal', alike.value]⟩, ?_⟩
    rintro count ⟨_, enough⟩
    rw [equal, div_lt_iff₀ (by norm_num), ← pow_succ]
    exact ⟨by linarith, enough⟩

/-- Neither loop runs out of steps: there are as many as places to give and digits to take. -/
theorem takeTens?_alike (alike : Alike v v') (positive : 0 < v.value) :
    Option.Rel (fun r r' => Alike r.1 r'.1 ∧ r.2 = r'.2 ∧ 1 ≤ r.1.value) (takeTens? v) (takeTens? v') := by
  have counted : ∀ d : Decimal, 0 < d.value → 1 ≤ d.value * 10 ^ d.scale ∧
      max d.value 10 < 10 ^ (digitCount d.coefficient + 1) := by
    intro d positive
    have magnitude := abs_value d
    rw [abs_of_pos positive] at magnitude
    have nonzero : d.isZero = false := isZero_eq_false positive.ne'
    have some : digitCount d.coefficient ≠ 0 := by
      rw [digitCount, if_neg (coefficient_pos nonzero).ne']
      exact Nat.succ_ne_zero _
    have small : (d.coefficient : ℚ) < 10 ^ digitCount d.coefficient := by
      rw [← pow10_cast]
      exact_mod_cast lt_pow10_digitCount d.coefficient
    refine ⟨?_, max_lt ?_ ?_⟩
    · rw [magnitude, div_mul_cancel₀ _ (by positivity)]
      exact_mod_cast coefficient_pos nonzero
    · calc d.value = d.coefficient / 10 ^ d.scale := magnitude
        _ ≤ d.coefficient := div_le_self (by positivity) (one_le_pow₀ (by norm_num))
        _ < 10 ^ digitCount d.coefficient := small
        _ ≤ 10 ^ (digitCount d.coefficient + 1) := pow_le_pow_right₀ (by norm_num) (Nat.le_succ _)
    · exact lt_self_pow₀ (by norm_num) (by omega)
  obtain ⟨places, digits⟩ := counted v positive
  obtain ⟨places', digits'⟩ := counted v' (alike.value ▸ positive)
  rw [← alike.value] at places' digits'
  refine rel_bind (raise_alike alike positive (le_max_left _ _) (le_max_right _ _) places places' 0) ?_
  rintro ⟨x, k⟩ ⟨x', _⟩ ⟨alike, rfl, done, _, _, small, _⟩
  have above : 1 ≤ x.value := by
    rw [← Bool.not_eq_true, lt_iff, value_one] at done
    exact not_lt.mp done
  refine rel_mono (lower_alike alike above (small.trans_lt digits) (small.trans_lt digits') k) ?_
  rintro r r' ⟨alike, equal, -, -, above, -⟩
  exact ⟨alike, equal, above⟩

/-- The first factor has all places, so that both computations go on from one number. -/
theorem takeEs?_eq (alike : Alike x x') (above : 1 ≤ x.value) : takeEs? x = takeEs? x' := by
  have going : one.le x = true := le_iff.mpr (value_one.symm ▸ above)
  have going' : one.le x' = true := alike_one.le alike ▸ going
  have next : x.mul? eInverse = x'.mul? eInverse := alike.mul?_eq rfl (by decide)
  have first : scaleWhile? (one.le ·) (·.mul? eInverse) 1 eulerSteps (x, 0) =
      scaleWhile? (one.le ·) (·.mul? eInverse) 1 eulerSteps (x', 0) := by
    simp only [eulerSteps, scaleWhile?, going, going', if_true, next]
  rw [takeEs?, takeEs?, first]

theorem ln?_eq (alike : Alike v v') (positive : 0 < v.value) : v.ln? = v'.ln? := by
  unfold ln?
  rw [alike.same alike_one]
  split
  · rfl
  refine rel_bind_eq (takeTens?_alike alike positive) ?_
  rintro ⟨x, k⟩ ⟨x', _⟩ ⟨alike, rfl, above⟩
  simp only [alike.same alike_one, takeEs?_eq alike above]

theorem tenExponent?_pad {n : ℕ} (positive : 0 < n) (k : ℕ) :
    tenExponent? (n * pow10 k) = (tenExponent? n).map (· + k) := by
  induction k with
  | zero =>
    rw [show n * pow10 0 = n from Nat.mul_one n]
    cases tenExponent? n <;> rfl
  | succ k ih =>
    have some : 0 < n * pow10 k := Nat.mul_pos positive (pow10_pos k)
    obtain ⟨m, longer⟩ : ∃ m, n * pow10 (k + 1) = m + 2 :=
      ⟨n * pow10 (k + 1) - 2, by rw [pow10_succ, Nat.mul_left_comm]; omega⟩
    have tenfold : m + 2 = n * pow10 k * 10 := by rw [← longer, pow10_succ]; ring
    rw [longer, tenExponent?, tenfold, Nat.mul_mod_left, if_pos rfl, Nat.mul_div_cancel _ (by decide), ih,
      Option.map_map]
    rfl

theorem log10?_eq_elim (v : Decimal) : v.log10? =
    if v.same one then some zero
    else (tenExponent? v.coefficient).elim (v.ln?.bind ln10Inverse.mul?) fun k => some (ofInt (k - v.scale)) := by
  unfold log10?
  cases tenExponent? v.coefficient <;> rfl

theorem log10?_eq (alike : Alike v v') (positive : 0 < v.value) : v.log10? = v'.log10? := by
  have nonzero : v.isZero = false := isZero_eq_false positive.ne'
  rw [log10?_eq_elim, log10?_eq_elim, alike.same alike_one, ln?_eq alike positive]
  split
  · rfl
  generalize v'.ln?.bind ln10Inverse.mul? = otherwise
  refine alike.of_pad (P := fun a b =>
    (tenExponent? a.coefficient).elim otherwise (fun k => some (ofInt (k - a.scale))) =
      (tenExponent? b.coefficient).elim otherwise fun k => some (ofInt (k - b.scale))) nonzero ?_
    fun _ _ => Eq.symm
  intro d k nonzero
  rw [show (d.pad k).coefficient = d.coefficient * pow10 k from rfl, tenExponent?_pad (coefficient_pos nonzero)]
  cases tenExponent? d.coefficient with
  | none => rfl
  | some exponent =>
    simp only [Option.map_some, Option.elim_some, pad]
    congr 2
    push_cast
    omega

theorem powDecimal?_eq (first : Alike a b) (positive : 0 < a.value) (second : Alike x x') :
    a.powDecimal? x = b.powDecimal? x' := by
  simp only [powDecimal?, first.same alike_one, ln?_eq first positive, second.normalize_eq]

end Decimal

namespace Angle
open Decimal
variable {x x' : Decimal}

theorem reduce_alike (alike : Alike x x') : Agree Alike (reduce x) (reduce x') := by
  have exact : ∀ d : Decimal, d.WellFormed → RemainderExact d fullTurn := fun d wellFormed =>
    remainderExact_of_scale_le wellFormed (Nat.zero_le _)
  have turn : Alike fullTurn fullTurn := .refl fullTurn_wellFormed
  refine .bind (.checked (alike.rem? turn (exact x alike.left) (exact x' alike.right))) fun _ _ rests => ?_
  rw [← rests.isNegative]
  split
  · next below => exact .assumed (rests.add? turn)
  · next above => exact .ok rests

theorem recenter_alike (alike : Alike x x') : Agree Alike (recenter x) (recenter x') := by
  have turn : Alike fullTurn fullTurn := .refl fullTurn_wellFormed
  have half : Alike halfTurn halfTurn := .refl halfTurn_wellFormed
  rw [recenter, recenter, ← half.lt alike]
  split
  · next beyond => exact .assumed (alike.sub? turn)
  · next within => exact .ok alike

/-- The angle is multiplied by a number with all places. -/
theorem toRadians_eq (alike : Alike x x') : toRadians x = toRadians x' := by
  rw [toRadians, toRadians, alike.mul?_eq (c := Decimal.pi) rfl (by decide)]

theorem inRadians_alike {f? : Decimal → Option Decimal} (closed : ∀ v, Gives WellFormed (f? v))
    (alike : Alike x x') : Agree Alike (inRadians f? x) (inRadians f? x') := by
  refine .bind (recenter_alike alike) fun centered centered' alike => ?_
  rw [toRadians_eq alike]
  exact .self (fun _ => .refl) (.bind (.trivial _) fun radians _ => .checked (closed radians))

theorem sin_alike (alike : Alike x x') : Agree Alike (sin x) (sin x') := by
  refine .bind (reduce_alike alike) fun angle angle' alike => ?_
  have turn : ∀ n ≤ 360, angle.same (ofNat n) = angle'.same (ofNat n) :=
    fun n small => alike.same (alike_turn small)
  rw [alike.isZero, halfTurn, turn 180 (by decide), rightAngle, turn 90 (by decide), threeQuarterTurn,
    turn 270 (by decide)]
  split
  · next straight => exact .ok (.refl wellFormed_zero)
  · split
    · next up => exact .ok alike_one
    · split
      · next down => exact .ok alike_one.neg
      · next inclined => exact inRadians_alike sin?_wellFormed alike

theorem cos_alike (alike : Alike x x') : Agree Alike (cos x) (cos x') := by
  refine .bind (reduce_alike alike) fun angle angle' alike => ?_
  have turn : ∀ n ≤ 360, angle.same (ofNat n) = angle'.same (ofNat n) :=
    fun n small => alike.same (alike_turn small)
  rw [alike.isZero, halfTurn, turn 180 (by decide), rightAngle, turn 90 (by decide), threeQuarterTurn,
    turn 270 (by decide)]
  split
  · next right => exact .ok alike_one
  · split
    · next left => exact .ok alike_one.neg
    · split
      · next upright => exact .ok (.refl wellFormed_zero)
      · next inclined => exact inRadians_alike cos?_wellFormed alike

end Angle
end StackCalculator

import StackCalculator.Proofs.Quotients
import StackCalculator.Proofs.Remainders
import StackCalculator.Proofs.WellFormed

/-! Computations on two encodings of the same numbers. What is compared, rounded or chosen by
the numbers alone comes out alike, and one number after the other, so do loops of such steps. -/
namespace StackCalculator

section Results
variable {R : α → α' → Prop} {Q : β → β' → Prop}

theorem rel_bind {result : Option α} {result' : Option α'} {next : α → Option β}
    {next' : α' → Option β'} (first : Option.Rel R result result')
    (rest : ∀ a a', R a a' → Option.Rel Q (next a) (next' a')) :
    Option.Rel Q (result >>= next) (result' >>= next') := by
  cases first with
  | none => exact .none
  | some related => exact rest _ _ related

/-- Two computations that go on in the same way. -/
theorem rel_bind_eq {result : Option α} {result' : Option α'} {next : α → Option β}
    {next' : α' → Option β} (first : Option.Rel R result result')
    (rest : ∀ a a', R a a' → next a = next' a') : (result >>= next) = (result' >>= next') := by
  cases first with
  | none => rfl
  | some related => exact rest _ _ related

theorem rel_map {result : Option α} {result' : Option α'} {f : α → β} {f' : α' → β'}
    (first : Option.Rel R result result') (kept : ∀ a a', R a a' → Q (f a) (f' a')) :
    Option.Rel Q (result.map f) (result'.map f') := by
  cases first with
  | none => exact .none
  | some related => exact .some (kept _ _ related)

theorem rel_mono {S : α → α' → Prop} {result : Option α} {result' : Option α'}
    (related : Option.Rel R result result') (weaker : ∀ a a', R a a' → S a a') :
    Option.Rel S result result' := by
  cases related with
  | none => exact .none
  | some related => exact .some (weaker _ _ related)

theorem rel_and {P : α → Prop} {P' : α' → Prop} {result : Option α} {result' : Option α'}
    (related : Option.Rel R result result') (first : Gives P result) (second : Gives P' result') :
    Option.Rel (fun a a' => R a a' ∧ P a ∧ P' a') result result' := by
  cases related with
  | none => exact .none
  | some related => exact .some ⟨related, first _ rfl, second _ rfl⟩

/-- Both results are related, or both are the same fault. -/
inductive Agree (R : α → α' → Prop) : Except ε α → Except ε α' → Prop where
  | ok (related : R a a') : Agree R (.ok a) (.ok a')
  | error (e : ε) : Agree R (.error e) (.error e)

namespace Agree
variable {ε : Type}

theorem bind {result : Except ε α} {result' : Except ε α'} {next : α → Except ε β}
    {next' : α' → Except ε β'} (first : Agree R result result')
    (rest : ∀ a a', R a a' → Agree Q (next a) (next' a')) :
    Agree Q (result >>= next) (result' >>= next') := by
  cases first with
  | error e => exact .error e
  | ok related => exact rest _ _ related

theorem bind_eq {result : Except ε α} {result' : Except ε α'} {next : α → Except ε β}
    {next' : α' → Except ε β} (first : Agree R result result')
    (rest : ∀ a a', R a a' → next a = next' a') : (result >>= next) = (result' >>= next') := by
  cases first with
  | error e => rfl
  | ok related => exact rest _ _ related

theorem map {result : Except ε α} {result' : Except ε α'} {f : α → β} {f' : α' → β'}
    (first : Agree R result result') (kept : ∀ a a', R a a' → Q (f a) (f' a')) :
    Agree Q (result.map f) (result'.map f') := by
  cases first with
  | error e => exact .error e
  | ok related => exact .ok (kept _ _ related)

theorem checked {result : Option α} {result' : Option α'} (related : Option.Rel R result result') :
    Agree R (checked result) (checked result') := by
  cases related with
  | none => exact .error _
  | some related => exact .ok related

theorem assumed {result : Option α} {result' : Option α'} (related : Option.Rel R result result') :
    Agree R (assumed result) (assumed result') := by
  cases related with
  | none => exact .error _
  | some related => exact .ok related

theorem inRange {result : Option α} {result' : Option α'} (related : Option.Rel R result result') :
    Agree R (inRange result) (inRange result') := by
  cases related with
  | none => exact .error _
  | some related => exact .ok related

theorem faulting {result : Except Failure α} {result' : Except Failure α'} (outside : Fault)
    (related : Agree R result result') : Agree R (faulting outside result) (faulting outside result') := by
  cases related with
  | error failure => exact .error _
  | ok related => exact .ok related

end Agree
end Results

namespace Decimal

/-- Two numbers of the format that are the same number. -/
structure Alike (a b : Decimal) : Prop where
  left : a.WellFormed
  right : b.WellFormed
  value : a.value = b.value

variable {a a' b b' : Decimal}

namespace Alike

theorem refl (wellFormed : a.WellFormed) : Alike a a := ⟨wellFormed, wellFormed, rfl⟩

theorem isZero (alike : Alike a a') : a.isZero = a'.isZero := by
  rw [Bool.eq_iff_iff, isZero_iff, isZero_iff, alike.value]

theorem same (first : Alike a a') (second : Alike b b') : a.same b = a'.same b' := by
  rw [Bool.eq_iff_iff, same_iff, same_iff, first.value, second.value]

theorem lt (first : Alike a a') (second : Alike b b') : a.lt b = a'.lt b' := by
  rw [Bool.eq_iff_iff, lt_iff, lt_iff, first.value, second.value]

theorem le (first : Alike a a') (second : Alike b b') : a.le b = a'.le b' := by
  rw [Bool.eq_iff_iff, le_iff, le_iff, first.value, second.value]

theorem isIntegral (alike : Alike a a') : a.isIntegral = a'.isIntegral := by
  rw [Bool.eq_iff_iff, isIntegral_iff, isIntegral_iff, alike.value]

theorem toInt (alike : Alike a a') : a.toInt = a'.toInt := by
  rw [toInt_eq_truncated, toInt_eq_truncated, alike.value]

theorem negative (alike : Alike a a') (nonzero : a.isZero = false) : a.negative = a'.negative := by
  rw [Bool.eq_iff_iff, negative_iff nonzero, negative_iff (alike.isZero ▸ nonzero), alike.value]

theorem isNegative (alike : Alike a a') : a.isNegative = a'.isNegative := by
  cases zero : a.isZero with
  | true => simp only [Decimal.isNegative, ← alike.isZero, zero, Bool.not_true, Bool.and_false]
  | false => simp only [Decimal.isNegative, ← alike.isZero, ← alike.negative zero]

theorem neg (alike : Alike a a') : Alike a.neg a'.neg :=
  ⟨alike.left.neg, alike.right.neg, by rw [value_neg, value_neg, alike.value]⟩

theorem abs (alike : Alike a a') : Alike a.abs a'.abs :=
  ⟨alike.left.abs, alike.right.abs, by rw [value_abs, value_abs, alike.value]⟩

theorem trunc (alike : Alike a a') : Alike a.trunc a'.trunc :=
  ⟨alike.left.trunc, alike.right.trunc, by rw [value_trunc, value_trunc, alike.value]⟩

theorem floor (alike : Alike a a') : Alike a.floor a'.floor :=
  ⟨alike.left.floor, alike.right.floor, by rw [value_floor, value_floor, alike.value]⟩

theorem ceil (alike : Alike a a') : Alike a.ceil a'.ceil :=
  ⟨alike.left.ceil, alike.right.ceil, by rw [value_ceil, value_ceil, alike.value]⟩

theorem round (alike : Alike a a') : Alike a.round a'.round :=
  ⟨alike.left.round, alike.right.round, by rw [value_round, value_round, alike.value]⟩

end Alike

theorem rel_of_computes {v : ℚ} {result result' : Option Decimal}
    (first : Computes v (result.map value)) (second : Computes v (result'.map value))
    (left : Gives WellFormed result) (right : Gives WellFormed result') :
    Option.Rel Alike result result' := by
  have equal := first.unique second
  cases result with
  | none =>
    cases result' with
    | none => exact .none
    | some b => cases equal
  | some a =>
    cases result' with
    | none => cases equal
    | some b => exact .some ⟨left a rfl, right b rfl, Option.some.inj equal⟩

theorem Alike.add? (first : Alike a a') (second : Alike b b') :
    Option.Rel Alike (a.add? b) (a'.add? b') := by
  have computed := add?_computes first.right second.right
  rw [← first.value, ← second.value] at computed
  exact rel_of_computes (add?_computes first.left second.left) computed
    (add?_wellFormed first.left second.left) (add?_wellFormed first.right second.right)

theorem Alike.sub? (first : Alike a a') (second : Alike b b') :
    Option.Rel Alike (a.sub? b) (a'.sub? b') := by
  have computed := sub?_computes first.right second.right
  rw [← first.value, ← second.value] at computed
  exact rel_of_computes (sub?_computes first.left second.left) computed
    (sub?_wellFormed first.left second.left) (sub?_wellFormed first.right second.right)

theorem Alike.mul? (first : Alike a a') (second : Alike b b') :
    Option.Rel Alike (a.mul? b) (a'.mul? b') := by
  have computed := mul?_computes a' b'
  rw [← first.value, ← second.value] at computed
  exact rel_of_computes (mul?_computes a b) computed (mul?_wellFormed a b) (mul?_wellFormed a' b')

theorem Alike.div? (first : Alike a a') (second : Alike b b') :
    Option.Rel Alike (a.div? b) (a'.div? b') := by
  cases zero : b.isZero with
  | true =>
    have zero' : b'.isZero = true := second.isZero ▸ zero
    rw [Decimal.div?, if_pos zero, Decimal.div?, if_pos zero']
    exact .none
  | false =>
    have computed := div?_computes first.right (second.isZero ▸ zero)
    rw [← first.value, ← second.value] at computed
    exact rel_of_computes (div?_computes first.left zero) computed
      (div?_wellFormed first.left b) (div?_wellFormed first.right b')

theorem Alike.rem? (first : Alike a a') (second : Alike b b') (exact : RemainderExact a b)
    (exact' : RemainderExact a' b') : Option.Rel Alike (a.rem? b) (a'.rem? b') := by
  cases zero : b.isZero with
  | true =>
    have zero' : b'.isZero = true := second.isZero ▸ zero
    rw [Decimal.rem?, if_pos zero, Decimal.rem?, if_pos zero']
    exact .none
  | false =>
    obtain ⟨rest, found⟩ := Option.isSome_iff_exists.mp (rem?_isSome (a := a) zero)
    obtain ⟨rest', found'⟩ := Option.isSome_iff_exists.mp (rem?_isSome (a := a') (second.isZero ▸ zero))
    have equal : rest.value = rest'.value := by
      rw [value_rem? exact rest found, value_rem? exact' rest' found', first.value, second.value]
    rw [found, found']
    exact .some ⟨rem?_wellFormed first.left second.left rest found,
      rem?_wellFormed first.right second.right rest' found', equal⟩

variable {r r' : Decimal}

theorem alike_two : Alike two two := .refl (wellFormed_ofNat (by decide))

theorem alike_one : Alike one one := .refl wellFormed_one

theorem Alike.improveRoot? (first : Alike a a') (second : Alike r r') :
    Option.Rel Alike (improveRoot? a r) (improveRoot? a' r') := by
  refine rel_bind (first.div? second) fun _ _ quotients => ?_
  exact rel_bind (second.add? quotients) fun _ _ sums => sums.div? alike_two

theorem Alike.settleRoot? (first : Alike a a') (count : ℕ) (second : Alike r r') :
    Option.Rel Alike (settleRoot? a count r) (settleRoot? a' count r') := by
  induction count generalizing r r' with
  | zero => exact .none
  | succ count ih =>
    refine rel_bind (first.improveRoot? second) fun estimate estimate' alike => ?_
    rw [← alike.same second]
    split
    · next settled => exact .some alike
    · next moved => exact ih alike

theorem Alike.rootEstimate? (alike : Alike a a') :
    Option.Rel Alike (rootEstimate? a) (rootEstimate? a') := by
  refine rel_bind (alike.div? alike_two) fun half half' halves => .some ?_
  rw [← halves.isZero]
  split
  · exact alike
  · exact halves

/-- A sign is seen before zero is. -/
theorem Alike.sqrt (alike : Alike a a') (sign : a.negative = a'.negative) :
    Agree Alike a.sqrt a'.sqrt := by
  rw [Decimal.sqrt, Decimal.sqrt, ← sign, ← alike.isZero]
  split
  · next negative => exact .error _
  · split
    · next zero => exact .ok (.refl wellFormed_zero)
    · next positive =>
      exact .assumed (rel_bind alike.rootEstimate? fun _ _ halves => alike.settleRoot? rootSteps halves)

end Decimal

namespace Angle
open Decimal
variable {x x' y y' z z' : Decimal}

theorem alike_pi : Alike Decimal.pi .pi := .refl ⟨by decide, by decide⟩

theorem alike_quarterPi : Alike Decimal.quarterPi .quarterPi := .refl ⟨by decide, by decide⟩

theorem alike_halfPi : Alike Decimal.halfPi .halfPi := .refl ⟨by decide, by decide⟩

theorem alike_turn {n : ℕ} (small : n ≤ 360) : Alike (ofNat n) (ofNat n) := .refl (turn_wellFormed small)

theorem toDegrees_alike (alike : Alike x x') : Agree Alike (toDegrees x) (toDegrees x') :=
  .bind (.checked (alike.mul? (alike_turn (by decide)))) fun _ _ products =>
    .checked (products.div? alike_pi)

/-- No minus sign comes from numbers without one. -/
theorem add?_positive (first : x.negative = false) (second : y.negative = false) :
    Gives (fun sum => sum.negative = false) (x.add? y) := by
  have nonneg : ∀ d : Decimal, d.negative = false → 0 ≤ d.signed := by
    intro d positive
    simp [Decimal.signed, positive]
  unfold Decimal.add?
  extract_lets scale sum
  split
  · next zero => exact .some second
  · split
    · next zero => exact .some first
    · next both =>
      refine .map (.trivial _) fun parts _ => ?_
      have total : ¬sum < 0 := by
        have left := nonneg x first
        have right := nonneg y second
        exact not_lt.mpr (by positivity)
      simp only [ofParts, decide_eq_false total, Bool.false_and]

theorem mul?_self_positive (z : Decimal) : Gives (fun square => square.negative = false) (z.mul? z) := by
  simp only [Decimal.mul?, bne_self_eq_false]
  split
  · next zero => exact .some rfl
  · split
    · next small =>
      split
      · next vanishes => exact .some rfl
      · split
        · next rounded => exact .some rfl
        · next inside => exact .some rfl
    · next large => exact .map (.trivial _) fun _ _ => rfl

/-- The root is that of a sum of squares, which has no minus sign. -/
theorem halfTangent_alike (alike : Alike z z') : Agree Alike (halfTangent z) (halfTangent z') := by
  have squares : Option.Rel (fun a a' => Alike a a' ∧ a.negative = false ∧ a'.negative = false)
      (z.mul? z) (z'.mul? z') :=
    rel_and (alike.mul? alike) (mul?_self_positive z) (mul?_self_positive z')
  refine .bind (.checked squares) fun square square' ⟨squares, positive, positive'⟩ => ?_
  have sums : Option.Rel (fun a a' => Alike a a' ∧ a.negative = false ∧ a'.negative = false)
      (one.add? square) (one.add? square') :=
    rel_and (alike_one.add? squares) (add?_positive rfl positive) (add?_positive rfl positive')
  refine .bind (.checked sums) fun sum sum' ⟨sums, positive, positive'⟩ => ?_
  refine .bind (sums.sqrt (positive.trans positive'.symm)) fun _ _ roots => ?_
  exact .bind (.assumed (alike_one.add? roots)) fun _ _ divisors => .checked (alike.div? divisors)

theorem halveAngle_alike (count : ℕ) (first : Alike z z') (second : Alike y y') :
    Agree (fun p p' => Alike p.1 p'.1 ∧ Alike p.2 p'.2) (halveAngle count z y) (halveAngle count z' y') := by
  induction count generalizing z z' y y' with
  | zero => exact .ok ⟨first, second⟩
  | succ count ih =>
    refine .bind (halfTangent_alike first) fun _ _ halves => ?_
    exact .bind (.assumed (second.mul? alike_two)) fun _ _ doubled => ih halves doubled

theorem arctanSeries_alike {square square' power power' n n' sum sum' : Decimal} (count : ℕ)
    (squares : Alike square square') (powers : Alike power power') (places : Alike n n')
    (sums : Alike sum sum') :
    Agree Alike (arctanSeries square count power n sum) (arctanSeries square' count power' n' sum') := by
  induction count generalizing power power' n n' sum sum' with
  | zero => exact .ok sums
  | succ count ih =>
    refine .bind (.checked (powers.mul? squares)) fun _ _ products => ?_
    refine .bind (.assumed (places.add? alike_two)) fun _ _ places => ?_
    refine .bind (.checked (products.neg.div? places)) fun _ _ terms => ?_
    rw [← terms.isZero]
    split
    · next vanishes => exact .ok sums
    · next remains => exact .bind (.checked (sums.add? terms)) fun _ _ sums => ih products.neg places sums

theorem arctanUnit_alike (alike : Alike z z') : Agree Alike (arctanUnit z) (arctanUnit z') := by
  refine .bind (halveAngle_alike halvings alike alike_one) fun p p' ⟨halves, factors⟩ => ?_
  refine .bind (.checked (halves.mul? halves)) fun _ _ squares => ?_
  refine .bind (arctanSeries_alike seriesTerms squares halves alike_one halves) fun _ _ sums => ?_
  exact .checked (sums.mul? factors)

theorem arctanQuotient_alike (first : Alike y y') (second : Alike x x') :
    Agree Alike (arctanQuotient y x) (arctanQuotient y' x') := by
  rw [arctanQuotient, arctanQuotient, ← first.same second, ← first.lt second]
  split
  · next diagonal => exact .ok alike_quarterPi
  · split
    · next flat => exact .bind (.checked (first.div? second)) fun _ _ ratios => arctanUnit_alike ratios
    · next steep =>
      refine .bind (.checked (second.div? first)) fun _ _ ratios => ?_
      exact .bind (arctanUnit_alike ratios) fun _ _ angles => .assumed (alike_halfPi.sub? angles)

theorem direction_alike (first : Alike y y') (second : Alike x x') :
    Agree Alike (direction y x) (direction y' x') := by
  unfold direction
  rw [← first.isZero, ← second.isZero]
  cases zero : y.isZero with
  | true =>
    cases zero' : x.isZero with
    | true => exact .error _
    | false =>
      rw [← second.negative zero']
      refine .ok ?_
      split
      · exact alike_turn (by decide)
      · exact .refl wellFormed_zero
  | false =>
    rw [← first.negative zero]
    cases zero' : x.isZero with
    | true =>
      refine .ok ?_
      split
      · exact alike_turn (by decide)
      · exact alike_turn (by decide)
    | false =>
      rw [← second.negative zero']
      refine .bind (arctanQuotient_alike first.abs second.abs) fun _ _ radians => ?_
      refine .bind (toDegrees_alike radians) fun degrees degrees' alike => ?_
      cases y.negative <;> cases x.negative
      · exact .ok alike
      · exact .assumed ((alike_turn (by decide)).sub? alike)
      · exact .assumed ((alike_turn (by decide)).sub? alike)
      · exact .assumed ((alike_turn (by decide)).add? alike)

end Angle
end StackCalculator

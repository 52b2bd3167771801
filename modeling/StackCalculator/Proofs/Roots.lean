import StackCalculator.Proofs.Agreement
import StackCalculator.Proofs.Alternation
import StackCalculator.Proofs.Runs

/-! When a square root is found. Five hundred improvements bring any first estimate so close
to the root that of the next few estimates two are the same. If they are neighbours the
estimates have settled and the operator pushes the root; otherwise two different numbers
take turns for ever, and the operator fails after its last improvement. -/
namespace StackCalculator
namespace Decimal
variable {a r : Decimal} {x : ℝ} {n t : ℕ}

/-- No further from the root than the roundings of a few improvements. -/
structure Late (x : ℝ) (r : Decimal) : Prop where
  wellFormed : r.WellFormed
  half : x / 2 ≤ r.value
  near : |(r.value : ℝ) - x| ≤ 9 * (1 + 2 * x) / 10 ^ 28

theorem Approximates.late (approximates : Approximates x n r) (many : 500 ≤ n) (positive : 0 < x) : Late x r := by
  refine ⟨approximates.wellFormed, approximates.half, approximates.near.trans ?_⟩
  have power : (3 / 4 : ℝ) ^ n ≤ (1 / 4) ^ 100 := by
    calc (3 / 4 : ℝ) ^ n ≤ (3 / 4) ^ 500 := pow_le_pow_of_le_one (by norm_num) (by norm_num) many
      _ = ((3 / 4) ^ 5) ^ 100 := by rw [← pow_mul]
      _ ≤ (1 / 4) ^ 100 := pow_le_pow_left₀ (by norm_num) (by norm_num) 100
  norm_num at power ⊢
  linarith

/-- Twice as far at most, as are the quotients of late estimates. -/
def Beside (x : ℝ) (v : ℚ) : Prop := |(v : ℝ) - x| ≤ 18 * (1 + 2 * x) / 10 ^ 28

namespace Late

theorem beside (late : Late x r) (positive : 0 < x) : Beside x r.value := by
  refine late.near.trans ?_
  gcongr
  norm_num

theorem quotient_beside (late : Late x r) (root : RootOf a x) : Beside x (a.value / r.value) := by
  have positive := root.positive
  have half := late.half
  have above : (0 : ℝ) < r.value := by linarith
  have ratio : x / r.value ≤ 2 := by
    rw [div_le_iff₀ above]
    linarith
  have apart : (a.value : ℝ) / r.value - x = -(r.value - x) * (x / r.value) := by
    rw [← root.square]
    field_simp
    ring
  unfold Beside
  push_cast
  rw [apart, abs_mul, abs_neg, abs_of_pos (by positivity : 0 < x / r.value)]
  calc |(r.value : ℝ) - x| * (x / r.value) ≤ 9 * (1 + 2 * x) / 10 ^ 28 * 2 := by
        have := late.near
        gcongr
    _ = 18 * (1 + 2 * x) / 10 ^ 28 := by ring

end Late

/-- The places of the root, less one where numbers beside it may not have as many. -/
structure Places (x : ℝ) (t : ℕ) : Prop where
  le : t ≤ maxScale
  less : x * 10 ^ t < capacity + 1000
  most : t = maxScale ∨ (capacity : ℝ) + 1000 ≤ x * 10 ^ (t + 1)

theorem exists_places (most : x ≤ 10 ^ 15) : ∃ t, Places x t := by
  classical
  have start : x * 10 ^ 0 < capacity + 1000 := by
    rw [pow_zero, mul_one, capacity_cast]
    norm_num at most ⊢
    linarith
  have found := Nat.findGreatest_spec (P := fun t => x * 10 ^ t < capacity + 1000) (Nat.zero_le maxScale) start
  have bound := Nat.findGreatest_le (P := fun t => x * 10 ^ t < capacity + 1000) maxScale
  refine ⟨_, bound, found, ?_⟩
  rcases bound.eq_or_lt with last | before
  · exact .inl last
  · exact .inr (not_lt.mp (Nat.findGreatest_is_greatest (Nat.lt_succ_self _) before))

theorem scaled_beside {v : ℚ} (beside : Beside x v) (le : t ≤ maxScale) :
    |v * 10 ^ t - x * 10 ^ t| ≤ 18 * (1 + 2 * (x * 10 ^ t) / 10 ^ 28) := by
  have scale : (10 : ℝ) ^ t / 10 ^ 28 ≤ 1 := by
    rw [div_le_one (by positivity)]
    exact pow_le_pow_right₀ (by norm_num) le
  rw [← sub_mul, abs_mul, abs_of_pos (by positivity : (0 : ℝ) < 10 ^ t)]
  calc |(v : ℝ) - x| * 10 ^ t ≤ 18 * (1 + 2 * x) / 10 ^ 28 * 10 ^ t := by
        have := beside
        unfold Beside at this
        gcongr
    _ = 18 * (10 ^ t / 10 ^ 28 + 2 * (x * 10 ^ t) / 10 ^ 28) := by ring
    _ ≤ 18 * (1 + 2 * (x * 10 ^ t) / 10 ^ 28) := by gcongr

namespace Places
variable {v : ℚ} {u : ℕ}

theorem least (places : Places x t) (least : 1 / 10 ^ 14 ≤ x) : 10 ^ 14 ≤ x * 10 ^ t := by
  rcases places.most with rfl | full
  · change (10 : ℝ) ^ 14 ≤ x * 10 ^ 28
    norm_num at least ⊢
    linarith
  · rw [pow_succ, ← mul_assoc, capacity_cast] at full
    norm_num at full ⊢
    linarith

theorem near (places : Places x t) (beside : Beside x v) : |v * 10 ^ t - x * 10 ^ t| ≤ 306 := by
  have scaled := scaled_beside beside places.le
  have less := places.less
  rw [capacity_cast] at less
  norm_num at scaled less ⊢
  linarith

theorem not_fitsAt (places : Places x t) (beside : Beside x v) : t = maxScale ∨ ¬FitsAt v (t + 1) := by
  rcases places.le.eq_or_lt with last | before
  · exact .inl last
  refine .inr (not_fitsAt_of_le ?_)
  have full := places.most.resolve_left before.ne
  have scaled := (abs_le.mp (scaled_beside beside before)).1
  rw [capacity_cast] at full
  have large : (79228162514264337593543950336 : ℝ) ≤ v * 10 ^ (t + 1) := by
    norm_num at scaled full ⊢
    linarith
  rw [capacity_cast]
  exact_mod_cast large

theorem hasPlaces (places : Places x t) (least : 1 / 10 ^ 14 ≤ x) (below : x * 10 ^ t < capacity - 1000)
    (beside : Beside x v) : HasPlaces v t := by
  have near := abs_le.mp (places.near beside)
  have large := places.least least
  have nonneg : 0 ≤ (v * 10 ^ t : ℝ) := by
    norm_num at large
    linarith
  have small : (v * 10 ^ t : ℝ) ≤ capacity - 1 := by linarith
  refine ⟨places.le, fitsAt_of_lt ?_ (by exact_mod_cast small), places.not_fitsAt beside⟩
  have nonneg : 0 ≤ v * 10 ^ t := by exact_mod_cast nonneg
  exact nonneg_of_mul_nonneg_left nonneg (by positivity)

theorem borders (places : Places x (u + 1)) (above : capacity - 1000 ≤ x * 10 ^ (u + 1))
    (beside : Beside x v) : Borders u v := by
  have near := abs_le.mp (places.near beside)
  have less := places.less
  have apart : |(v * 10 ^ (u + 1) : ℝ) - capacity| ≤ 10 ^ 4 := by
    rw [abs_le]
    norm_num
    constructor
    · linarith
    · linarith
  unfold Borders
  exact_mod_cast apart

end Places

/-- Sums of late estimates and their quotients are twice the root but for a quarter of a place. -/
theorem Late.sum_le (late : Late x r) (root : RootOf a x) (places : Places x t) :
    2 * (x * 10 ^ t) ≤ (r.value + a.value / r.value) * 10 ^ t ∧
      (r.value + a.value / r.value : ℝ) * 10 ^ t ≤ 2 * (x * 10 ^ t) + 1 / 4 := by
  have positive := root.positive
  have half := late.half
  have above : (0 : ℝ) < r.value := by linarith
  have power : (0 : ℝ) < 10 ^ t := by positivity
  have mean := le_mean (x := x) above
  rw [root.square] at mean
  constructor
  · nlinarith
  have near := places.near (late.beside positive)
  have large := places.least root.least
  have excess : (r.value + a.value / r.value : ℝ) * 10 ^ t - 2 * (x * 10 ^ t) =
      (r.value * 10 ^ t - x * 10 ^ t) ^ 2 / (r.value * 10 ^ t) := by
    rw [← root.square]
    field_simp
    ring
  have below : (r.value * 10 ^ t - x * 10 ^ t : ℝ) ^ 2 ≤ 306 ^ 2 := by
    rw [← sq_abs]
    gcongr
  have scaled : x / 2 * 10 ^ t ≤ r.value * 10 ^ t := by gcongr
  have part : (r.value * 10 ^ t - x * 10 ^ t : ℝ) ^ 2 / (r.value * 10 ^ t) ≤ 1 / 4 := by
    rw [div_le_iff₀ (by positivity)]
    norm_num at below large
    linarith
  linarith

theorem estimate_late (root : RootOf a x) (n : ℕ) : Late x (estimate a (n + 501)) :=
  (estimate_approximates root (n + 500)).2.late (Nat.le_add_left _ _) root.positive

theorem estimate_close (root : RootOf a x) (places : Places x t) {lo : ℚ} (least : 2 * (x * 10 ^ t) - 1 / 2 ≤ lo)
    (most : lo ≤ 2 * (x * 10 ^ t)) (n : ℕ) : Close a.value lo t (estimate a (n + 501)).value := by
  have late := estimate_late root n
  have positive := root.positive
  have above : (0 : ℝ) < (estimate a (n + 501)).value := by linarith [late.half]
  obtain ⟨low, high⟩ := late.sum_le root places
  have least : (lo : ℝ) ≤ ((estimate a (n + 501)).value + a.value / (estimate a (n + 501)).value) * 10 ^ t := by
    linarith
  have less : ((estimate a (n + 501)).value + a.value / (estimate a (n + 501)).value : ℝ) * 10 ^ t < lo + 1 := by
    linarith
  exact ⟨late.wellFormed.rounds, by exact_mod_cast above, by exact_mod_cast least, by exact_mod_cast less⟩

/-- Two of three late estimates are the same number. -/
theorem estimates_meet (root : RootOf a x) :
    (estimate a 503).value = (estimate a 504).value ∨ (estimate a 504).value = (estimate a 505).value ∨
      (estimate a 503).value = (estimate a 505).value := by
  obtain ⟨t, places⟩ := exists_places root.most
  obtain ⟨lo, least, most⟩ := exists_rat_btwn (show 2 * (x * 10 ^ t) - 1 / 2 < 2 * (x * 10 ^ t) by linarith)
  choose q s improves using fun n => estimate_improves root (n + 500)
  have close := fun n => estimate_close root places least.le most.le n
  have own := fun n => (estimate_late root n).beside root.positive
  have quotient := fun n => (estimate_late root n).quotient_beside root
  rcases lt_or_ge (x * 10 ^ t) (capacity - 1000) with below | above
  · exact meet_of_hasPlaces (r := fun n => (estimate a (n + 502)).value) (fun n => improves (n + 1))
      (fun n => close (n + 1)) (fun n => places.hasPlaces root.least below (own (n + 1)))
      fun n => places.hasPlaces root.least below (quotient (n + 1))
  · cases t with
    | zero =>
      have large := root.most
      rw [pow_zero, mul_one, capacity_cast] at above
      norm_num at above large
      linarith
    | succ u =>
      have crosses : ∀ n, Crosses a.value u (estimate a (n + 501)).value := fun n =>
        ⟨places.le, places.borders above (own n), places.borders above (quotient n)⟩
      obtain ⟨c, fives⟩ := (improves 0).fives (crosses 0)
      exact meet_of_crosses (r := fun n => (estimate a (n + 502)).value) root.value_pos.le
        (fun n => improves (n + 1)) (fun n => close (n + 1)) (fun n => crosses (n + 1)) fives

/-- The estimate is the number that the next one is. -/
def Settles (a : Decimal) (n : ℕ) : Prop := (estimate a (n + 1)).value = (estimate a n).value

/-- From the `n`th on, every estimate differs from the next one and is the one after that. -/
def AlternatesFrom (a : Decimal) (n : ℕ) : Prop :=
  ∀ k ≥ n, (estimate a (k + 1)).value ≠ (estimate a k).value ∧
    (estimate a (k + 2)).value = (estimate a k).value

/-- The next estimate depends on the number alone. -/
theorem estimate_succ_eq (root : RootOf a x) {m n : ℕ} (equal : (estimate a m).value = (estimate a n).value) :
    (estimate a (m + 1)).value = (estimate a (n + 1)).value := by
  have alike : Alike (estimate a m) (estimate a n) :=
    ⟨estimate_wellFormed root m, estimate_wellFormed root n, equal⟩
  have next := (Alike.refl root.wellFormed).improveRoot? alike
  rw [improveRoot?_estimate root, improveRoot?_estimate root] at next
  cases next with
  | some alike => exact alike.value

theorem Settles.eq_of_le (root : RootOf a x) (settles : Settles a n) {k : ℕ} (le : n ≤ k) :
    (estimate a k).value = (estimate a n).value := by
  induction k, le using Nat.le_induction with
  | base => rfl
  | succ k _ ih => exact (estimate_succ_eq root ih).trans settles

theorem alternatesFrom_of_first (root : RootOf a x) (apart : (estimate a (n + 1)).value ≠ (estimate a n).value)
    (meets : (estimate a (n + 2)).value = (estimate a n).value) : AlternatesFrom a n := by
  intro k late
  induction k, late using Nat.le_induction with
  | base => exact ⟨apart, meets⟩
  | succ k _ ih => exact ⟨ih.2 ▸ ih.1.symm, estimate_succ_eq root ih.2⟩

theorem settles_or_alternates (root : RootOf a x) : (∃ n ≤ 504, Settles a n) ∨ AlternatesFrom a 503 := by
  by_cases settles : ∃ n ≤ 504, Settles a n
  · exact .inl settles
  have apart : (estimate a 504).value ≠ (estimate a 503).value := fun equal => settles ⟨503, by decide, equal⟩
  have apart' : (estimate a 505).value ≠ (estimate a 504).value := fun equal => settles ⟨504, by decide, equal⟩
  rcases estimates_meet root with equal | equal | equal
  · exact absurd equal.symm apart
  · exact absurd equal.symm apart'
  · exact .inr (alternatesFrom_of_first root apart equal.symm)

/-- Estimates that alternate have never settled before. -/
theorem AlternatesFrom.not_settles (root : RootOf a x) (alternates : AlternatesFrom a n) (k : ℕ) :
    ¬Settles a k := by
  intro settles
  refine (alternates (max n k) (le_max_left n k)).1 ?_
  rw [settles.eq_of_le root (le_max_right n k), settles.eq_of_le root ((le_max_right n k).trans (Nat.le_succ _))]

/-- A number that is its own next estimate is the root but for the roundings of one improvement. -/
theorem Settles.near (root : RootOf a x) (settles : Settles a n) :
    |((estimate a (n + 1)).value : ℝ) - x| ≤ 8 * (1 + 2 * x) / 10 ^ 28 := by
  obtain ⟨q, s, improves⟩ := estimate_improves root n
  have half := (estimate_approximates root n).2.half
  have closer := improves.approaches root.square root.positive half
  rw [estimate_succ_eq root settles] at closer
  linarith

theorem settleRoot?_of_settles (root : RootOf a x) {count k : ℕ} (settles : Settles a (n + k)) (less : k < count) :
    ∃ m ≤ n + k, Settles a m ∧ settleRoot? a count (estimate a n) = some (estimate a (m + 1)) := by
  induction count generalizing n k with
  | zero => exact absurd less (Nat.not_lt_zero k)
  | succ count ih =>
    simp only [settleRoot?, improveRoot?_estimate root, Option.bind_eq_bind, Option.bind_some]
    split
    · next same => exact ⟨n, Nat.le_add_right n k, same_iff.mp same, rfl⟩
    · next different =>
      cases k with
      | zero => exact absurd (same_iff.mpr settles) different
      | succ k =>
        have shifted : n + 1 + k = n + (k + 1) := by omega
        rw [← shifted] at settles ⊢
        exact ih settles (Nat.lt_of_succ_lt_succ less)

theorem settleRoot?_of_not_settles (root : RootOf a x) (never : ∀ n, ¬Settles a n) (count n : ℕ) :
    settleRoot? a count (estimate a n) = none := by
  induction count generalizing n with
  | zero => rfl
  | succ count ih =>
    simp only [settleRoot?, improveRoot?_estimate root, Option.bind_eq_bind, Option.bind_some]
    rw [if_neg (fun same => never n (same_iff.mp same)), ih]

theorem unsigned_of_pos (positive : 0 < a.value) : a.negative = false ∧ a.isZero = false := by
  have nonzero : a.isZero = false := isZero_eq_false positive.ne'
  refine ⟨?_, nonzero⟩
  rw [← Bool.not_eq_true, negative_iff nonzero]
  exact positive.le.not_gt

theorem sqrt_eq (root : RootOf a x) : a.sqrt = assumed (settleRoot? a rootSteps (estimate a 0)) := by
  obtain ⟨unsigned, nonzero⟩ := unsigned_of_pos root.value_pos
  have started := estimate?_eq root 0
  rw [estimate?] at started
  rw [Decimal.sqrt, unsigned, nonzero, started, Option.bind_some]
  rfl

theorem sqrt_of_settles (root : RootOf a x) (settles : Settles a n) (early : n < rootSteps) :
    ∃ m ≤ n, Settles a m ∧ a.sqrt = .ok (estimate a (m + 1)) := by
  obtain ⟨m, le, first, found⟩ := settleRoot?_of_settles root (n := 0) ((Nat.zero_add n).symm ▸ settles) early
  refine ⟨m, (Nat.zero_add n) ▸ le, first, ?_⟩
  rw [sqrt_eq root, found]
  rfl

theorem sqrt_of_alternates (root : RootOf a x) (alternates : AlternatesFrom a n) : a.sqrt = .error .internal := by
  rw [sqrt_eq root, settleRoot?_of_not_settles root (alternates.not_settles root)]
  rfl

end Decimal

open Decimal
variable {a r : Decimal} {options : Options} {rest : Stack}

theorem effect_execute_sqrt (s : Stack) :
    let ran := Operator.run options (.unary (.arithmetic .sqrt)) s
    (execute options (Ascii.bytes "sqrt") s).effect =
      (ran.stack, ran.result.mapError (⟨some (.unary (.arithmetic .sqrt)), ·⟩)) := by
  have tokens : Token.scan Operator.startsWith (Ascii.bytes "sqrt") = [.operator (Ascii.bytes "sqrt")] := by
    decide +kernel
  have known : Operator.ofSpelling? (Ascii.bytes "sqrt") = some (.unary (.arithmetic .sqrt)) := by decide +kernel
  have step : (Token.operator (Ascii.bytes "sqrt")).run options s = .ofOutcome
      [.executing (Operator.unary (.arithmetic .sqrt)).name s.length] (some (.unary (.arithmetic .sqrt)))
      (Operator.run options (.unary (.arithmetic .sqrt)) s) := by
    simp only [Token.run, runOperator, known]
  have last : ∀ run : Run, (run.andThen (runTokens options [])).effect = (run.stack, run.result) := by
    intro run
    cases ended : run.result with
    | error e => rw [Run.andThen_of_error ended, Run.effect, ended]
    | ok => exact congrArg Run.effect (Run.andThen_of_ok ended)
  rw [execute, tokens, runTokens_cons, step, last]
  rfl

theorem effect_sqrt_of_ok (positive : 0 < a.value) (room : rest.length < options.maxStackDepth)
    (found : a.sqrt = .ok r) : (execute options (Ascii.bytes "sqrt") (.number a :: rest)).effect =
      (.number (r.roundTo options.precision) :: rest, .ok ()) := by
  have root : squareRoot a = .ok r := by
    rw [squareRoot, isNegative, (unsigned_of_pos positive).1, found]
    rfl
  have value : UnaryOp.eval options.precision (.arithmetic .sqrt) (.number a) =
      .ok (.number (r.roundTo options.precision)) := by
    change ((squareRoot a).map (roundTo options.precision) >>= fun result => .ok (Value.number result)) = _
    rw [root]
    rfl
  have ran : Operator.run options (.unary (.arithmetic .sqrt)) (.number a :: rest) =
      .done (.number (r.roundTo options.precision) :: rest) := by
    change Stack.pushResult options.maxStackDepth (UnaryOp.eval _ _ (.number a)) rest = _
    rw [value]
    exact if_pos room
  rw [effect_execute_sqrt, ran]
  rfl

theorem effect_sqrt_of_internal (positive : 0 < a.value) (failed : a.sqrt = .error .internal) :
    (execute options (Ascii.bytes "sqrt") (.number a :: rest)).effect =
      (rest, .error ⟨some (.unary (.arithmetic .sqrt)), .internal⟩) := by
  have root : squareRoot a = .error .internal := by
    rw [squareRoot, isNegative, (unsigned_of_pos positive).1, failed]
    rfl
  have ran : Operator.run options (.unary (.arithmetic .sqrt)) (.number a :: rest) = .failed rest .internal := by
    change Stack.pushResult options.maxStackDepth
      ((squareRoot a).map (roundTo options.precision) >>= fun result => .ok (.number result)) rest = _
    rw [root]
    rfl
  rw [effect_execute_sqrt, ran]
  rfl

/-- The operator on a positive number: all estimates exist; either they settle, and the root
is pushed, or two numbers take turns, and the operator fails. -/
theorem execute_sqrt (options : Options) (rest : Stack) (wellFormed : a.WellFormed) (positive : 0 < a.value)
    (room : rest.length < options.maxStackDepth) :
    rootEstimate? a = some (estimate a 0) ∧
    (∀ n, improveRoot? a (estimate a n) = some (estimate a (n + 1))) ∧
    ((∃ n ≤ 504, Settles a n ∧
        |((estimate a (n + 1)).value : ℝ) - √a.value| ≤ 8 * (1 + 2 * √a.value) / 10 ^ 28 ∧
        (execute options (Ascii.bytes "sqrt") (.number a :: rest)).effect =
          (.number ((estimate a (n + 1)).roundTo options.precision) :: rest, .ok ())) ∨
      AlternatesFrom a 503 ∧
        (execute options (Ascii.bytes "sqrt") (.number a :: rest)).effect =
          (rest, .error ⟨some (.unary (.arithmetic .sqrt)), .internal⟩)) := by
  have root := rootOf_sqrt wellFormed positive
  refine ⟨estimate?_eq root 0, improveRoot?_estimate root, ?_⟩
  rcases settles_or_alternates root with ⟨n, early, settles⟩ | alternates
  · obtain ⟨m, le, first, found⟩ := sqrt_of_settles root settles (Nat.lt_of_le_of_lt early (by decide))
    exact .inl ⟨m, le.trans early, first, first.near root, effect_sqrt_of_ok positive room found⟩
  · exact .inr ⟨alternates, effect_sqrt_of_internal positive (sqrt_of_alternates root alternates)⟩

theorem execute_sqrt_two :
    two.WellFormed ∧ 0 < two.value ∧ ([] : Stack).length < Options.maxStackDepth {} ∧
      ∃ n ≤ 504, Settles two n ∧
        |((estimate two (n + 1)).value : ℝ) - √two.value| ≤ 8 * (1 + 2 * √two.value) / 10 ^ 28 ∧
        (execute {} (Ascii.bytes "sqrt") [.number two]).effect =
          ([.number ((estimate two (n + 1)).roundTo 28)], .ok ()) := by
  have wellFormed : two.WellFormed := ⟨by decide, by decide⟩
  have positive : 0 < two.value := by rw [value_two]; exact two_pos
  have room : ([] : Stack).length < Options.maxStackDepth {} := by decide
  refine ⟨wellFormed, positive, room, ?_⟩
  rcases (execute_sqrt {} [] wellFormed positive room).2.2 with found | ⟨_, failed⟩
  · exact found
  · have completed : (execute {} (Ascii.bytes "sqrt") [.number two]).effect.2 = .ok () := by decide +kernel
    rw [failed] at completed
    cases completed

/-- The estimates of this root are by turns `2` and the next number above. -/
theorem execute_sqrt_alternating :
    let a : Decimal := ⟨false, 40000000000000000000000000003, 28⟩
    AlternatesFrom a 1 ∧ (estimate a 1).same ⟨false, 20000000000000000000000000001, 28⟩ = true ∧
      (estimate a 2).same two = true ∧
      (execute {} (Ascii.bytes "sqrt") [.number a]).effect =
        ([], .error ⟨some (.unary (.arithmetic .sqrt)), .internal⟩) := by
  intro a
  have wellFormed : a.WellFormed := ⟨by decide, by decide⟩
  have positive : 0 < a.value := by
    rw [value_eq]
    norm_num [a, unit]
  have root := rootOf_sqrt wellFormed positive
  have apart : (estimate a 2).value ≠ (estimate a 1).value := by
    rw [ne_eq, ← same_iff]
    decide +kernel
  have meets : (estimate a 3).value = (estimate a 1).value := same_iff.mp (by decide +kernel)
  have alternates : AlternatesFrom a 1 := alternatesFrom_of_first root apart meets
  exact ⟨alternates, by decide +kernel, by decide +kernel,
    effect_sqrt_of_internal positive (sqrt_of_alternates root alternates)⟩

end StackCalculator

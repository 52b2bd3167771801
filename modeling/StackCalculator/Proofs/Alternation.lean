import StackCalculator.Proofs.Averaging

/-! Estimates close to a root. The sum of an estimate and its quotient differs from twice the
root by less than a last place, so that its roundings are two numbers at most, and of three
estimates in a row two are the same. Where a place more fits below the root and not above it,
the last places of estimates differ; there sums can have three roundings, but then the middle
one is twice a number that is its own next estimate. -/
namespace StackCalculator.Decimal

/-- Twice the root is not above the sum of a number and its quotient. -/
theorem four_mul_le_sq {a r : ℚ} (positive : 0 < r) : 4 * a ≤ (r + a / r) ^ 2 := by
  have square : (r + a / r) ^ 2 - 4 * a = (r - a / r) ^ 2 := by
    field_simp
    ring
  linarith [sq_nonneg (r - a / r)]

namespace Improves
variable {a r r' q q' s s' h h' : ℚ}

theorem unique_of_half (first : Improves a r q s h) (second : Improves a r' q' s' h') (equal : s = s') :
    h = h' := first.half.unique (equal ▸ second.half)

theorem unique_of_sum (first : Improves a r q s h) (second : Improves a r' q' s' h')
    (equal : r + q = r' + q') : h = h' :=
  first.unique_of_half second (first.sum.unique (equal ▸ second.sum))

end Improves

/-- An estimate at whose places its sum with the quotient lies between two numbers. -/
structure Close (a lo : ℚ) (t : ℕ) (r : ℚ) : Prop where
  rounds : Rounds r r
  positive : 0 < r
  least : lo ≤ (r + a / r) * 10 ^ t
  less : (r + a / r) * 10 ^ t < lo + 1

variable {a lo r q s h : ℚ} {t u : ℕ}

theorem Improves.sum_integer (improves : Improves a r q s h) (close : Close a lo t r) (own : HasPlaces r t)
    (quotient : HasPlaces (a / r) t) : ∃ n : ℤ, (r + q) * 10 ^ t = n ∧ lo - 1 / 2 ≤ n ∧ n < lo + 3 / 2 := by
  obtain ⟨m, integer, _⟩ := close.rounds.nearestEven own
  obtain ⟨n, rounded, nearest⟩ := improves.quotient.nearestEven quotient
  have near := abs_le.mp nearest.near
  have least := close.least
  have less := close.less
  refine ⟨m + n, ?_, ?_, ?_⟩
  · push_cast
    rw [add_mul, integer, rounded]
  · push_cast
    linarith
  · push_cast
    linarith

/-- Estimates that follow from integers next to each other: among any three two are the same. -/
theorem meet_of_sums {r : ℕ → ℚ} (sum : ℕ → ℤ) (near : ∀ m n, sum m ≤ sum n + 1)
    (same : ∀ m n, sum m = sum n → r (m + 1) = r (n + 1)) : r 1 = r 2 ∨ r 2 = r 3 ∨ r 1 = r 3 := by
  have cases : sum 0 = sum 1 ∨ sum 1 = sum 2 ∨ sum 0 = sum 2 := by
    have := near 0 1
    have := near 1 0
    have := near 0 2
    have := near 2 0
    have := near 1 2
    have := near 2 1
    omega
  exact cases.imp (same 0 1) (Or.imp (same 1 2) (same 0 2))

section Sequences
variable {r q s : ℕ → ℚ}

theorem meet_of_hasPlaces (improves : ∀ n, Improves a (r n) (q n) (s n) (r (n + 1)))
    (close : ∀ n, Close a lo t (r n)) (own : ∀ n, HasPlaces (r n) t) (quotient : ∀ n, HasPlaces (a / r n) t) :
    r 1 = r 2 ∨ r 2 = r 3 ∨ r 1 = r 3 := by
  choose sum equal low high using fun n => (improves n).sum_integer (close n) (own n) (quotient n)
  refine meet_of_sums sum ?_ ?_
  · intro m n
    have step : (sum m : ℚ) < sum n + 2 := by linarith [high m, low n]
    have step : sum m < sum n + 2 := by exact_mod_cast step
    omega
  · intro m n same
    have scaled := (equal m).trans ((congrArg _ same).trans (equal n).symm)
    exact (improves m).unique_of_sum (improves n) (mul_right_cancel₀ (by positivity) scaled)

end Sequences

/-- So near to the capacity at the larger number of places that it may fit there or not. -/
def Borders (u : ℕ) (v : ℚ) : Prop := |v * 10 ^ (u + 1) - capacity| ≤ 10 ^ 4

/-- The number is a multiple of the larger last place. -/
def Coarse (u : ℕ) (v : ℚ) : Prop := ∃ k : ℤ, v * 10 ^ u = k

theorem rounds_borders {v w : ℚ} (rounds : Rounds v w) (lt : u < maxScale) (borders : Borders u v) :
    (FitsAt v (u + 1) ∧ ∃ n : ℤ, w * 10 ^ (u + 1) = n ∧ NearestEven (v * 10 ^ (u + 1)) n) ∨
      (¬FitsAt v (u + 1) ∧ ∃ n : ℤ, w * 10 ^ u = n ∧ NearestEven (v * 10 ^ u) n) := by
  obtain ⟨low, high⟩ := abs_le.mp borders
  rw [capacity_cast] at low high
  by_cases fits : FitsAt v (u + 1)
  · refine .inl ⟨fits, rounds.nearestEven ⟨lt, fits, .inr (not_fitsAt_of_le ?_)⟩⟩
    rw [pow_succ, ← mul_assoc, capacity_cast]
    norm_num at low ⊢
    linarith
  · refine .inr ⟨fits, rounds.nearestEven ⟨lt.le, fitsAt_of_lt ?_ ?_, .inr fits⟩⟩
    · have scaled : 0 ≤ v * 10 ^ (u + 1) := by
        norm_num at low
        linarith
      exact nonneg_of_mul_nonneg_left scaled (by positivity)
    · rw [pow_succ, ← mul_assoc] at high
      rw [capacity_cast]
      norm_num at high ⊢
      linarith

/-- Halves of the larger last place. -/
theorem near_of_coarse {v w : ℚ} {n : ℤ} (coarse : w * 10 ^ u = n) (nearest : NearestEven (v * 10 ^ u) n) :
    |w * 10 ^ (u + 1) - v * 10 ^ (u + 1)| ≤ 5 := by
  have near := abs_le.mp nearest.near
  rw [pow_succ, ← mul_assoc, ← mul_assoc, coarse, abs_le]
  constructor
  · linarith
  · linarith

theorem near_of_borders {v w : ℚ} (rounds : Rounds v w) (lt : u < maxScale) (borders : Borders u v) :
    |w * 10 ^ (u + 1) - v * 10 ^ (u + 1)| ≤ 5 := by
  rcases rounds_borders rounds lt borders with ⟨_, n, integer, nearest⟩ | ⟨_, n, coarse, nearest⟩
  · rw [integer, abs_sub_comm]
    exact nearest.near.trans (by norm_num)
  · exact near_of_coarse coarse nearest

/-- An estimate and its quotient at such a border. -/
structure Crosses (a : ℚ) (u : ℕ) (r : ℚ) : Prop where
  lt : u < maxScale
  own : Borders u r
  quotient : Borders u (a / r)

/-- The sum of such an estimate and its quotient has the larger last place. -/
theorem Improves.sum_coarse (improves : Improves a r q s h) (crosses : Crosses a u r) :
    ∃ j : ℤ, s * 10 ^ u = j ∧ NearestEven ((r + q) * 10 ^ u) j := by
  obtain ⟨low, high⟩ := abs_le.mp crosses.own
  obtain ⟨low', high'⟩ := abs_le.mp crosses.quotient
  obtain ⟨least, most⟩ := abs_le.mp (near_of_borders improves.quotient crosses.lt crosses.quotient)
  rw [capacity_cast] at low high low' high'
  norm_num at low high low' high'
  have scaled : (r + q) * 10 ^ (u + 1) = (r + q) * 10 ^ u * 10 := by ring
  have total : (r + q) * 10 ^ (u + 1) = r * 10 ^ (u + 1) + q * 10 ^ (u + 1) := add_mul _ _ _
  refine improves.sum.nearestEven ⟨crosses.lt.le, fitsAt_of_lt ?_ ?_, .inr (not_fitsAt_of_le ?_)⟩
  · have positive : 0 ≤ (r + q) * 10 ^ (u + 1) := by linarith
    exact nonneg_of_mul_nonneg_left positive (by positivity)
  · rw [capacity_cast]
    norm_num
    linarith
  · rw [capacity_cast]
    linarith

/-- A quotient with the smaller last place, or an estimate with the larger one. -/
def Regular (a : ℚ) (u : ℕ) (r : ℚ) : Prop := Coarse u r ∨ FitsAt (a / r) (u + 1)

/-- No two halves of the larger last place add up in the sum. -/
theorem Improves.near_of_regular (improves : Improves a r q s h) (crosses : Crosses a u r)
    (regular : Regular a u r) {j : ℤ} (nearest : NearestEven ((r + q) * 10 ^ u) j) :
    |10 * j - (r + a / r) * 10 ^ (u + 1)| ≤ 11 / 2 := by
  have sum := abs_le.mp nearest.near
  have scaled : (r + q) * 10 ^ u * 10 = r * 10 ^ (u + 1) + q * 10 ^ (u + 1) := by ring
  have total : (r + a / r) * 10 ^ (u + 1) = r * 10 ^ (u + 1) + a / r * 10 ^ (u + 1) := add_mul _ _ _
  rcases rounds_borders improves.quotient crosses.lt crosses.quotient with
    ⟨_, n, integer, near⟩ | ⟨full, n, larger, near⟩
  · have quotient := abs_le.mp near.near
    rw [← integer] at quotient
    rw [abs_le]
    constructor
    · linarith
    · linarith
  · rcases regular with ⟨k, own⟩ | fits
    · have exact : (r + q) * 10 ^ u = (k + n : ℤ) := by
        push_cast
        rw [add_mul, own, larger]
      have equal : j = k + n := nearest.unique (exact ▸ NearestEven.intCast _)
      have quotient := abs_le.mp (near_of_coarse larger near)
      rw [← equal] at exact
      rw [abs_le]
      constructor
      · linarith
      · linarith
    · exact absurd fits full

theorem Improves.near_sum (improves : Improves a r q s h) (crosses : Crosses a u r) {j : ℤ}
    (nearest : NearestEven ((r + q) * 10 ^ u) j) : |10 * j - (r + a / r) * 10 ^ (u + 1)| ≤ 10 := by
  have sum := abs_le.mp nearest.near
  have quotient := abs_le.mp (near_of_borders improves.quotient crosses.lt crosses.quotient)
  have scaled : (r + q) * 10 ^ u * 10 = r * 10 ^ (u + 1) + q * 10 ^ (u + 1) := by ring
  have total : (r + a / r) * 10 ^ (u + 1) = r * 10 ^ (u + 1) + a / r * 10 ^ (u + 1) := add_mul _ _ _
  exact abs_le.mpr ⟨by linarith, by linarith⟩

theorem Improves.eq_of_regular (improves : Improves a r q s h) (crosses : Crosses a u r)
    (regular : Regular a u r) {j m : ℤ} (nearest : NearestEven ((r + q) * 10 ^ u) j)
    (middle : |(r + a / r) * 10 ^ (u + 1) - 10 * m| < 1) : j = m := by
  have apart := abs_le.mp (improves.near_of_regular crosses regular nearest)
  have middle := abs_lt.mp middle
  have low : (m : ℚ) < j + 1 := by linarith
  have high : (j : ℚ) < m + 1 := by linarith
  have low : m < j + 1 := by exact_mod_cast low
  have high : j < m + 1 := by exact_mod_cast high
  omega

/-- Two halves that add up are rounded to an even sum. -/
theorem Improves.eq_or_even_of_fives (improves : Improves a r q s h) (crosses : Crosses a u r) {c : ℤ}
    (fives : r * 10 ^ (u + 1) = 5 * c) {j m : ℤ} (nearest : NearestEven ((r + q) * 10 ^ u) j)
    (middle : |(r + a / r) * 10 ^ (u + 1) - 10 * m| < 1) : j = m ∨ Even j := by
  by_cases regular : Regular a u r
  · exact .inl (improves.eq_of_regular crosses regular nearest middle)
  rcases rounds_borders improves.quotient crosses.lt crosses.quotient with ⟨fits, _⟩ | ⟨_, n, larger, near⟩
  · exact absurd (.inr fits) regular
  have scaled : (r + q) * 10 ^ u * 10 = r * 10 ^ (u + 1) + q * 10 ^ u * 10 := by ring
  have total : (r + a / r) * 10 ^ (u + 1) = r * 10 ^ (u + 1) + a / r * 10 ^ (u + 1) := add_mul _ _ _
  have sum := abs_le.mp nearest.near
  have quotient := abs_le.mp (near_of_coarse larger near)
  have digits : q * 10 ^ (u + 1) = q * 10 ^ u * 10 := by ring
  rw [larger] at digits scaled
  rw [fives] at scaled total
  -- All numbers are multiples of five, and the sum is halfway unless it is a multiple of ten.
  have middle := abs_lt.mp middle
  have low : (10 * m : ℚ) < 5 * c + 10 * n + 6 := by linarith
  have high : (5 * c + 10 * n : ℚ) < 10 * m + 6 := by linarith
  have below : (10 * j : ℚ) ≤ 5 * c + 10 * n + 5 := by linarith
  have above : (5 * c + 10 * n : ℚ) ≤ 10 * j + 5 := by linarith
  have tie : 5 * c + 10 * n = 10 * j + 5 ∨ 5 * c + 10 * n = 10 * j - 5 → Even j := by
    intro half
    refine nearest.even ?_
    rcases half with up | down
    · have up : (5 * c + 10 * n : ℚ) = 10 * j + 5 := by exact_mod_cast up
      have apart : (r + q) * 10 ^ u - j = 1 / 2 := by linarith
      rw [apart]
      norm_num
    · have down : (5 * c + 10 * n : ℚ) = 10 * j - 5 := by exact_mod_cast down
      have apart : (r + q) * 10 ^ u - j = -(1 / 2) := by linarith
      rw [apart]
      norm_num
  have low : 10 * m < 5 * c + 10 * n + 6 := by exact_mod_cast low
  have high : 5 * c + 10 * n < 10 * m + 6 := by exact_mod_cast high
  have below : 10 * j ≤ 5 * c + 10 * n + 5 := by exact_mod_cast below
  have above : 5 * c + 10 * n ≤ 10 * j + 5 := by exact_mod_cast above
  by_cases half : 5 * c + 10 * n = 10 * j + 5 ∨ 5 * c + 10 * n = 10 * j - 5
  · exact .inr (tie half)
  · left
    omega

theorem Improves.half_borders (improves : Improves a r q s h) (crosses : Crosses a u r) {j : ℤ}
    (coarse : s * 10 ^ u = j) (nearest : NearestEven ((r + q) * 10 ^ u) j) :
    (FitsAt (s / 2) (u + 1) ∧ h = s / 2 ∧ h * 10 ^ (u + 1) = 5 * j) ∨ Coarse u h := by
  obtain ⟨low, high⟩ := abs_le.mp crosses.own
  obtain ⟨low', high'⟩ := abs_le.mp crosses.quotient
  obtain ⟨least, most⟩ := abs_le.mp (improves.near_sum crosses nearest)
  rw [capacity_cast] at low high low' high'
  norm_num at low high low' high'
  have total : (r + a / r) * 10 ^ (u + 1) = r * 10 ^ (u + 1) + a / r * 10 ^ (u + 1) := add_mul _ _ _
  have scaled : s / 2 * 10 ^ (u + 1) = 5 * j := by
    rw [← coarse]
    ring
  have below : s / 2 * 10 ^ u * 10 = 5 * j := by
    rw [← coarse]
    ring
  by_cases fits : FitsAt (s / 2) (u + 1)
  · have full : ¬FitsAt (s / 2) (u + 1 + 1) := by
      refine not_fitsAt_of_le ?_
      rw [pow_succ, ← mul_assoc, scaled, capacity_cast]
      linarith
    obtain ⟨n, integer, nearest⟩ := improves.half.nearestEven ⟨crosses.lt, fits, .inr full⟩
    have equal : n = 5 * j := by
      refine nearest.unique ?_
      rw [scaled]
      exact_mod_cast NearestEven.intCast (5 * j)
    have exact : h * 10 ^ (u + 1) = 5 * j := by
      rw [integer, equal]
      push_cast
      rfl
    exact .inl ⟨fits, mul_right_cancel₀ (by positivity) (exact.trans scaled.symm), exact⟩
  · have nonneg : 0 ≤ s / 2 * 10 ^ u := by linarith
    have places : HasPlaces (s / 2) u := by
      refine ⟨crosses.lt.le, fitsAt_of_lt (nonneg_of_mul_nonneg_left nonneg (by positivity)) ?_, .inr fits⟩
      rw [capacity_cast]
      linarith
    obtain ⟨n, larger, _⟩ := improves.half.nearestEven places
    exact .inr ⟨n, larger⟩

theorem Improves.fives (improves : Improves a r q s h) (crosses : Crosses a u r) :
    ∃ c : ℤ, h * 10 ^ (u + 1) = 5 * c := by
  obtain ⟨j, coarse, nearest⟩ := improves.sum_coarse crosses
  rcases improves.half_borders crosses coarse nearest with ⟨_, _, exact⟩ | ⟨k, larger⟩
  · exact ⟨j, exact⟩
  · refine ⟨2 * k, ?_⟩
    push_cast
    rw [pow_succ, ← mul_assoc, larger]
    ring

theorem Improves.regular_of_even (improves : Improves a r q s h) (crosses : Crosses a u r) {j : ℤ}
    (coarse : s * 10 ^ u = j) (nearest : NearestEven ((r + q) * 10 ^ u) j) (even : Even j) :
    Regular a u h := by
  rcases improves.half_borders crosses coarse nearest with ⟨_, _, exact⟩ | larger
  · obtain ⟨i, rfl⟩ := even
    refine .inl ⟨i, ?_⟩
    push_cast at exact
    rw [pow_succ, ← mul_assoc] at exact
    linarith
  · exact .inl larger

/-- A half not below the root has a quotient that is not larger and fits where it does. -/
theorem Improves.regular_of_le (improves : Improves a r q s h) (crosses : Crosses a u r) {j : ℤ}
    (coarse : s * 10 ^ u = j) (nearest : NearestEven ((r + q) * 10 ^ u) j) (nonneg : 0 ≤ a) (positive : 0 < s)
    (above : 4 * a ≤ s ^ 2) : Regular a u h := by
  rcases improves.half_borders crosses coarse nearest with ⟨fits, equal, _⟩ | larger
  · refine .inr (fits.of_abs_le ?_)
    rw [equal, abs_of_nonneg (by positivity), abs_of_pos (by positivity), div_le_iff₀ (by positivity)]
    linarith
  · exact .inl larger

section Sequences
variable {r q s : ℕ → ℚ}

/-- The middle one of three roundings is reached and kept. -/
theorem meet_of_middle (nonneg : 0 ≤ a) (improves : ∀ n, Improves a (r n) (q n) (s n) (r (n + 1)))
    (close : ∀ n, Close a lo (u + 1) (r n)) (crosses : ∀ n, Crosses a u (r n)) {c : ℤ}
    (fives : r 0 * 10 ^ (u + 1) = 5 * c) {m : ℤ} (positive : 0 < m) (least : lo ≤ 10 * m)
    (less : 10 * m < lo + 1) (above : 4 * a * (10 ^ (u + 1)) ^ 2 ≤ (10 * m) ^ 2) : r 2 = r 3 := by
  have power : (0 : ℚ) < 10 ^ u := by positivity
  have middle : ∀ n, |(r n + a / r n) * 10 ^ (u + 1) - 10 * m| < 1 := by
    intro n
    have low := (close n).least
    have high := (close n).less
    exact abs_lt.mpr ⟨by linarith, by linarith⟩
  choose j coarse nearest using fun n => (improves n).sum_coarse (crosses n)
  have settled : ∀ n, j n = m → Regular a u (r (n + 1)) := by
    intro n equal
    have scaled : s n * 10 ^ u = m := equal ▸ coarse n
    have sum : 0 < s n := by
      have product : 0 < s n * 10 ^ u := by
        rw [scaled]
        exact_mod_cast positive
      exact pos_of_mul_pos_left product power.le
    refine (improves n).regular_of_le (crosses n) (coarse n) (nearest n) nonneg sum ?_
    have square : (10 * (s n * 10 ^ u)) ^ 2 = s n ^ 2 * (10 ^ (u + 1)) ^ 2 := by ring
    rw [← scaled, square] at above
    exact le_of_mul_le_mul_right above (by positivity)
  have kept : ∀ n, Regular a u (r n) → j n = m := fun n regular =>
    (improves n).eq_of_regular (crosses n) regular (nearest n) (middle n)
  -- The first sum may be another one, but then its half has the larger last place.
  have second : Regular a u (r 1) := by
    rcases (improves 0).eq_or_even_of_fives (crosses 0) fives (nearest 0) (middle 0) with equal | even
    · exact settled 0 equal
    · exact (improves 0).regular_of_even (crosses 0) (coarse 0) (nearest 0) even
  have third : Regular a u (r 2) := settled 1 (kept 1 second)
  have same : s 1 * 10 ^ u = s 2 * 10 ^ u := by
    rw [coarse 1, coarse 2, kept 1 second, kept 2 third]
  exact (improves 1).unique_of_half (improves 2) (mul_right_cancel₀ power.ne' same)

/-- Two sums that are two of the larger last places apart have a number in the middle. -/
theorem exists_middle {r q s h r' q' s' h' : ℚ} (improves : Improves a r q s h)
    (improves' : Improves a r' q' s' h') (close : Close a lo (u + 1) r) (close' : Close a lo (u + 1) r')
    (crosses : Crosses a u r) (crosses' : Crosses a u r') {j j' : ℤ} (nearest : NearestEven ((r + q) * 10 ^ u) j)
    (nearest' : NearestEven ((r' + q') * 10 ^ u) j') (apart : j + 2 ≤ j') (nonneg : 0 ≤ a) :
    ∃ m : ℤ, 0 < m ∧ lo ≤ 10 * m ∧ 10 * m < lo + 1 ∧ 4 * a * (10 ^ (u + 1)) ^ 2 ≤ (10 * m) ^ 2 := by
  have low := abs_le.mp (improves.near_sum crosses nearest)
  have high := abs_le.mp (improves'.near_sum crosses' nearest')
  have step : (j : ℚ) + 2 ≤ j' := by exact_mod_cast apart
  have least := close.least
  have less := close'.less
  have positive := close.positive
  have sum : 0 < (r + a / r) * 10 ^ (u + 1) := by positivity
  have below : (r + a / r) * 10 ^ (u + 1) ≤ 10 * ((j + 1 : ℤ) : ℚ) := by
    push_cast
    linarith
  refine ⟨j + 1, ?_, ?_, ?_, ?_⟩
  · have some : (0 : ℚ) < ((j + 1 : ℤ) : ℚ) := pos_of_mul_pos_right (sum.trans_le below) (by norm_num)
    exact_mod_cast some
  · linarith
  · push_cast
    linarith
  · calc 4 * a * (10 ^ (u + 1)) ^ 2 ≤ (r + a / r) ^ 2 * (10 ^ (u + 1)) ^ 2 := by
          have := four_mul_le_sq (a := a) positive
          gcongr
      _ = ((r + a / r) * 10 ^ (u + 1)) ^ 2 := by ring
      _ ≤ (10 * ((j + 1 : ℤ) : ℚ)) ^ 2 := by gcongr

theorem meet_of_crosses (nonneg : 0 ≤ a) (improves : ∀ n, Improves a (r n) (q n) (s n) (r (n + 1)))
    (close : ∀ n, Close a lo (u + 1) (r n)) (crosses : ∀ n, Crosses a u (r n)) {c : ℤ}
    (fives : r 0 * 10 ^ (u + 1) = 5 * c) : r 1 = r 2 ∨ r 2 = r 3 ∨ r 1 = r 3 := by
  choose j coarse nearest using fun n => (improves n).sum_coarse (crosses n)
  by_cases near : ∀ m n, j m ≤ j n + 1
  · refine meet_of_sums j near fun m n same => ?_
    have scaled := (coarse m).trans ((congrArg _ same).trans (coarse n).symm)
    exact (improves m).unique_of_half (improves n) (mul_right_cancel₀ (by positivity) scaled)
  · simp only [not_forall, not_le] at near
    obtain ⟨n, k, apart⟩ := near
    obtain ⟨m, positive, least, less, above⟩ := exists_middle (improves k) (improves n) (close k) (close n)
      (crosses k) (crosses n) (nearest k) (nearest n) (by omega) nonneg
    exact .inr (.inl (meet_of_middle nonneg improves close crosses fives positive least less above))

end Sequences

end StackCalculator.Decimal

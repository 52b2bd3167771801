import StackCalculator.Proofs.Arithmetic
import StackCalculator.Proofs.Faults
import StackCalculator.Proofs.Rules
import StackCalculator.Proofs.TwoRuns

/-! A roll turns a block by the residue of its amount, whatever the amount is. Its remainder by
the size of the block is exact, since a size has no places, and adding the size to a remainder
below zero gives an integer in range, which is not rounded. -/
namespace StackCalculator

section Residues
variable {i : ℤ} {n : ℕ}

theorem emod_eq_tmod (positive : 0 < n) (nonneg : 0 ≤ i.tmod n) : i % n = i.tmod n := by
  have below : i.tmod n < n := Int.tmod_lt_of_pos i (by exact_mod_cast positive)
  calc i % n
    _ = (i.tmod n + i.tdiv n * n) % n := by rw [Int.tmod_add_tdiv_mul]
    _ = i.tmod n := by rw [Int.add_mul_emod_self_right, Int.emod_eq_of_lt nonneg below]

theorem emod_eq_tmod_add (positive : 0 < n) (negative : i.tmod n < 0) : i % n = i.tmod n + n := by
  have above : -(n : ℤ) < i.tmod n := Int.lt_tmod_of_pos i (by exact_mod_cast positive)
  calc i % n
    _ = (i.tmod n + n + (i.tdiv n - 1) * n) % n := by
      rw [sub_one_mul, add_add_sub_cancel, Int.tmod_add_tdiv_mul]
    _ = i.tmod n + n := by rw [Int.add_mul_emod_self_right, Int.emod_eq_of_lt (by omega) (by omega)]

/-- Rotations add up as their residues do. -/
theorem rotate_rotate_residue (block : List α) (i m : ℤ) :
    (block.rotate (i % block.length).toNat).rotate (m % block.length).toNat =
      block.rotate ((i + m) % block.length).toNat := by
  rcases eq_or_ne block [] with rfl | filled
  · simp only [List.rotate_nil]
  have size : (block.length : ℤ) ≠ 0 := by exact_mod_cast mt List.length_eq_zero_iff.mp filled
  have total : ((i + m) % block.length).toNat =
      ((i % block.length).toNat + (m % block.length).toNat) % block.length := by
    zify
    rw [Int.toNat_of_nonneg (Int.emod_nonneg _ size), Int.toNat_of_nonneg (Int.emod_nonneg _ size),
      Int.toNat_of_nonneg (Int.emod_nonneg _ size), Int.add_emod]
  rw [List.rotate_rotate, total, List.rotate_mod]

end Residues

namespace Decimal
variable {a b d : Decimal} {i : ℤ} {n : ℕ}

theorem whole_of_value (equal : d.value = n) : d.whole = n := by
  have floor := floor_abs d
  rw [equal, Nat.abs_cast, Int.floor_natCast] at floor
  exact_mod_cast floor.symm

/-- A sum that is an integer in range is not rounded. -/
theorem add?_of_intCast (first : a.WellFormed) (second : b.WellFormed) (sum : a.value + b.value = i)
    (small : i.natAbs < capacity) : ∃ c, a.add? b = some c ∧ c.value = i := by
  have exact : Rounds (i : ℚ) i := .exact small (Nat.zero_le _) (by rw [pow_zero, mul_one])
  exact exists_of_computes (sum ▸ add?_computes first second) exact

end Decimal

open Decimal

namespace Stack
variable {base block s : Stack} {amount count : Value} {j : Decimal} {i : ℤ} {n shift : ℕ}

theorem maxCount_lt_capacity : Value.maxCount < capacity := by decide

/-- A size has no places, so what is left of an integer is exact. -/
theorem rem?_size (positive : 0 < n) (small : n < capacity) (fits : j.WellFormed) (integer : j.value = i) :
    ∃ left, j.rem? (.ofNat n) = some left ∧ left.WellFormed ∧ left.isNegativeZero = false ∧
      left.value = (i.tmod n : ℤ) := by
  have nonzero : (ofNat n).isZero = false := beq_false_of_ne positive.ne'
  obtain ⟨left, found⟩ := Option.isSome_iff_exists.mp (rem?_isSome (a := j) nonzero)
  have kept : left.WellFormed := rem?_wellFormed fits (wellFormed_ofNat small) left found
  refine ⟨left, found, kept, rem?_not_negativeZero _ _ left found, ?_⟩
  rw [value_rem? (remainderExact_of_scale_le fits (Nat.zero_le _)) left found, integer, value_ofNat,
    ← Int.cast_natCast, remainder_intCast]

/-- What is left below zero is brought above it by the size, and the sum is in range. -/
theorem add?_size {left : Decimal} (positive : 0 < n) (small : n < capacity) (fits : left.WellFormed)
    (proper : left.isNegativeZero = false) (remains : left.value = (i.tmod n : ℤ)) (negative : i.tmod n < 0) :
    ∃ c, left.add? (.ofNat n) = some c ∧ c.isNegativeZero = false ∧ c.value = (i % n : ℤ) := by
  have residue := emod_eq_tmod_add positive negative
  have above : -(n : ℤ) < i.tmod n := Int.lt_tmod_of_pos i (by exact_mod_cast positive)
  have sum : left.value + (ofNat n).value = (i % n : ℤ) := by
    rw [residue, remains, value_ofNat]
    push_cast
    rfl
  obtain ⟨c, added, value⟩ := add?_of_intCast fits (wellFormed_ofNat small) sum (by omega)
  exact ⟨c, added, add?_not_negativeZero proper rfl c added, value⟩

/-- The end of a roll's arithmetic: an integer that is not negative passes the last test. -/
theorem residue_eq_ok {r : Decimal} (proper : r.isNegativeZero = false) (nonneg : 0 ≤ i) (equal : r.value = i) :
    (if r.negative = true then throw .rangeCheck >>= fun _ : PUnit => pure r.whole else pure r.whole :
      Except Fault ℕ) = .ok i.toNat := by
  obtain ⟨k, rfl⟩ := Int.eq_ofNat_of_zero_le nonneg
  have above : ¬r.negative = true := by
    intro negative
    have nonzero : r.isZero = false := by simpa only [isNegativeZero, negative, Bool.true_and] using proper
    have below := (negative_iff nonzero).mp negative
    rw [equal] at below
    exact below.not_ge (Nat.cast_nonneg k)
  rw [if_neg above, whole_of_value equal]
  rfl

/-- The amount of a roll counts by its residue, and is never out of range. -/
theorem rollShift_eq_emod (positive : 0 < n) (small : n ≤ Value.maxCount) (fits : j.WellFormed)
    (integer : j.value = i) : rollShift n j = .ok (i % n).toNat := by
  have bound : n < capacity := small.trans_lt maxCount_lt_capacity
  have nonneg : 0 ≤ i % n := Int.emod_nonneg _ (by omega)
  obtain ⟨left, found, kept, proper, remains⟩ := rem?_size positive bound fits integer
  unfold rollShift
  rw [found]
  change (if left.isNegative = true then _ else _) = _
  split
  · next below =>
    obtain ⟨c, added, proper, value⟩ := add?_size positive bound kept proper remains ((isNegative_iff remains).mp below)
    rw [added]
    exact residue_eq_ok proper nonneg value
  · next above =>
    have least : 0 ≤ i.tmod n := not_lt.mp fun negative => above ((isNegative_iff remains).mpr negative)
    exact residue_eq_ok proper nonneg (by rw [remains, emod_eq_tmod positive least])

theorem rotate_block (block base : Stack) (le : shift ≤ block.length) :
    rotate block.length shift (block ++ base) = List.rotate block shift ++ base := by
  rw [rotate, List.take_left, List.drop_left, List.rotate_eq_drop_append_take le]

theorem rollTop_append (base : Stack) (small : block.length ≤ Value.maxCount) (fits : j.WellFormed)
    (integer : j.value = i) :
    rollTop block.length j (block ++ base) = .done (List.rotate block (i % block.length).toNat ++ base) := by
  have present : ¬(block ++ base).length < block.length := by
    rw [List.length_append]
    omega
  rw [rollTop, if_neg present]
  split
  · next empty =>
    rw [List.length_eq_zero_iff.mp empty, List.rotate_nil]
  · next filled =>
    have positive : 0 < block.length := Nat.pos_of_ne_zero filled
    have inside : (i % block.length).toNat ≤ block.length := by
      have below := Int.emod_lt_of_pos i (show 0 < (block.length : ℤ) by exact_mod_cast positive)
      omega
    rw [rollShift_eq_emod positive small fits integer]
    exact congrArg Outcome.done (rotate_block block base inside)

theorem roll_append (base : Stack) (counted : count.toCount 2 = .ok block.length) (fits : j.WellFormed)
    (integer : j.value = i) :
    roll (.number j :: count :: (block ++ base)) = .done (List.rotate block (i % block.length).toNat ++ base) := by
  have taken : rollOperands count (.number j) = .ok (block.length, j) :=
    rollOperands_eq_ok_iff.mpr ⟨counted, rfl, isIntegral_of_value integer⟩
  rw [roll, taken]
  exact rollTop_append base (toCount_le count 2 _ counted) fits integer

theorem rollOperands_raises (count amount : Value) :
    RaisesOnly (fun fault => ∃ k, fault = .typeMismatch k) (rollOperands count amount) := by
  have counts : RaisesOnly (fun fault => ∃ k, fault = .typeMismatch k) (count.toCount 2) := by
    cases count with
    | boolean b => exact .error ⟨2, rfl⟩
    | number d => exact .ite (.error ⟨2, rfl⟩) (.ok _)
  refine counts.bind fun n => ?_
  cases amount with
  | boolean b => exact .error ⟨1, rfl⟩
  | number d => exact .ite (.ok _) (.error ⟨1, rfl⟩)

/-- The operands are of a wrong type or the block is too large, and nothing else goes wrong. -/
theorem roll_raises (wellFormed : s.WellFormed) :
    (roll s).result = .ok () ∨ (roll s).result = .error .stackUnderflow ∨
      ∃ k, (roll s).result = .error (.typeMismatch k) := by
  match s with
  | [] | [_] => exact .inr (.inl rfl)
  | amount :: count :: rest =>
    cases taken : rollOperands count amount with
    | error fault =>
      obtain ⟨k, rfl⟩ := rollOperands_raises count amount fault taken
      rw [roll, taken]
      exact .inr (.inr ⟨k, rfl⟩)
    | ok operands =>
      obtain ⟨n, j⟩ := operands
      obtain ⟨counted, rfl, integral⟩ := rollOperands_eq_ok_iff.mp taken
      obtain ⟨i, integer⟩ := isIntegral_iff.mp integral
      have fits : j.WellFormed := wellFormed (.number j) List.mem_cons_self
      have opened : roll (.number j :: count :: rest) = rollTop n j rest := by rw [roll, taken]
      rw [opened, rollTop]
      split
      · exact .inr (.inl rfl)
      · split
        · exact .inl rfl
        · next filled =>
          rw [rollShift_eq_emod (Nat.pos_of_ne_zero filled) (toCount_le count 2 _ counted) fits integer]
          exact .inl rfl

end Stack

/-- With any integer as its amount a roll turns the block toward the top by the residue of the
amount, and leaves what is below. Rolls of one block add up, and no roll is out of range. -/
theorem Operator.run_roll (options : Options) (block base : Stack) {count : Value} {j : Decimal} {i : ℤ}
    (counted : count.toCount 2 = .ok block.length) (fits : j.WellFormed) (integer : j.value = i) :
    let roll (j : Decimal) (s : Stack) := run options (.stack .roll) (.number j :: count :: s)
    roll j (block ++ base) = .done (List.rotate block (i % block.length).toNat ++ base) ∧
    (∀ (k l : Decimal) (m : ℤ), k.WellFormed → l.WellFormed → k.value = m → l.value = (i + m : ℤ) →
      (roll j (block ++ base)).andThen (roll k) = roll l (block ++ base)) ∧
    ∀ s : Stack, s.WellFormed → (run options (.stack .roll) s).result ≠ .error .rangeCheck := by
  intro roll
  have turned : roll j (block ++ base) = .done (List.rotate block (i % block.length).toNat ++ base) :=
    Stack.roll_append base counted fits integer
  refine ⟨turned, fun k l m second third next sum => ?_, fun s wellFormed refused => ?_⟩
  · have size : (List.rotate block (i % block.length).toNat).length = block.length := List.length_rotate _ _
    have again := Stack.roll_append base (counted.trans (congrArg _ size.symm)) second next
    rw [size, rotate_rotate_residue] at again
    rw [turned]
    exact again.trans (Stack.roll_append base counted third sum).symm
  · have ended := Stack.roll_raises wellFormed
    change (Stack.roll s).result = _ at refused
    rw [refused] at ended
    rcases ended with completed | missing | ⟨k, mismatch⟩
    · cases completed
    · cases missing
    · cases mismatch

/-- One place down, with the amount written with all the places it can have. -/
theorem Operator.run_roll_down :
    let j : Decimal := ⟨true, 10000000000000000000000000000, 28⟩
    let block : Stack := [.number (ofNat 3), .number (ofNat 2), .number (ofNat 1)]
    let count : Value := .number (ofNat 3)
    count.toCount 2 = .ok block.length ∧ j.WellFormed ∧ j.value = (-1 : ℤ) ∧
      run {} (.stack .roll) (.number j :: count :: (block ++ [.boolean true])) =
        .done [.number (ofNat 1), .number (ofNat 3), .number (ofNat 2), .boolean true] := by
  intro j block count
  have counted : count.toCount 2 = .ok block.length := rfl
  have fits : j.WellFormed := ⟨by decide, by decide⟩
  have integer : j.value = (-1 : ℤ) := by
    rw [value_mk]
    norm_num [unit]
  exact ⟨counted, fits, integer, (run_roll {} block [.boolean true] counted fits integer).1⟩

end StackCalculator

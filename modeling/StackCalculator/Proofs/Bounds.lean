import StackCalculator.Proofs.Domains
import StackCalculator.Proofs.Positions
import StackCalculator.Proofs.Reduction

/-! No operator leaves the range of positions, and no step that an operator relies on fails. The
reduction of an angle, the direction of a vector and the residue of a roll stay in the range of
the format, and every position and number of places is checked against the depth before. What is
left is the iteration of a root, which can go on for ever. -/
namespace StackCalculator
open Decimal

/-- No step that was relied on has failed. -/
def Assured (result : Except Failure α) : Prop := result ≠ .error .internal

/-- A result that is not an internal fault. -/
def Sound (result : Except Fault α) : Prop := RaisesOnly (· ≠ .internal) result

theorem Sound.ne {result : Except Fault α} (sound : Sound result) : result ≠ .error .internal :=
  fun failed => sound _ failed rfl

namespace Assured
variable {result : Except Failure α}

theorem ok (a : α) : Assured (.ok a) := nofun

theorem checked (result : Option α) : Assured (checked result) := by
  cases result with
  | none => exact nofun
  | some a => exact nofun

theorem bind {next : α → Except Failure β} (first : Assured result) (rest : ∀ a, Assured (next a)) :
    Assured (result >>= next) := by
  cases result with
  | ok a => exact rest a
  | error failure =>
    rintro ⟨⟩
    exact first rfl

theorem faulting (outside : fault ≠ .internal) (assured : Assured result) : Sound (faulting fault result) := by
  cases result with
  | ok a => exact .ok a
  | error failure =>
    cases failure with
    | outOfRange => exact .error outside
    | internal => exact absurd rfl assured

end Assured

namespace Angle
variable {x c : Decimal} {f? : Decimal → Option Decimal}

theorem inRadians_assured (centers : recenter x = .ok c) : Assured (inRadians f? x) := by
  rw [inRadians, ok_bind centers]
  exact .bind (.bind (.checked _) fun _ => .checked _) fun _ => .checked _

theorem sin_assured (wellFormed : x.WellFormed) : Assured (sin x) := by
  obtain ⟨r, c, found, centers, _⟩ := exists_reduced_centered wellFormed
  rw [sin, ok_bind found]
  split
  · next straight => exact .ok _
  · split
    · next up => exact .ok _
    · split
      · next down => exact .ok _
      · next inclined => exact inRadians_assured centers

theorem cos_assured (wellFormed : x.WellFormed) : Assured (cos x) := by
  obtain ⟨r, c, found, centers, _⟩ := exists_reduced_centered wellFormed
  rw [cos, ok_bind found]
  split
  · next right => exact .ok _
  · split
    · next left => exact .ok _
    · split
      · next upright => exact .ok _
      · next inclined => exact inRadians_assured centers

theorem direction_assured {y : Decimal} (first : y.WellFormed) (second : x.WellFormed) : Assured (direction y x) := by
  by_cases zero : y.value = 0 ∧ x.value = 0
  · rw [direction_zero zero.1 zero.2]
    exact nofun
  · obtain ⟨r, found, _⟩ := direction_directed first second (not_and_or.mp zero)
    rw [found]
    exact .ok r

end Angle

section Computations
variable {precision : ℕ} {a b : Decimal} {v w : Value}

theorem UnaryArithmetic.eval_sound (op : UnaryArithmetic) (wellFormed : a.WellFormed)
    (settles : op = .sqrt → a.sqrt ≠ .error .internal) : Sound (op.eval precision a) := by
  cases op with
  | abs | neg | ceiling | floor | round | truncate | cvi | cvr => exact .ok _
  | sqrt => exact .map _ (squareRoot_raises nofun (Assured.faulting nofun (settles rfl)))
  | sin => exact .map _ (Assured.faulting nofun (Angle.sin_assured wellFormed))
  | cos => exact .map _ (Assured.faulting nofun (Angle.cos_assured wellFormed))
  | ln | log => exact .map _ (logarithm_raises nofun nofun _ a)

theorem BinaryArithmetic.eval_sound (op : BinaryArithmetic) (first : a.WellFormed) (second : b.WellFormed) :
    Sound (op.eval precision a b) := by
  cases op with
  | add | sub | mul => exact .inRange nofun _
  | div => exact .map _ (quotient_raises nofun nofun a b)
  | idiv => exact integerQuotient_raises nofun nofun a b
  | mod => exact modulus_raises nofun nofun a b
  | exp => exact power_raises nofun nofun precision a b
  | atan => exact .map _ (Assured.faulting nofun (Angle.direction_assured first second))

theorem BinaryOp.eval_sound (op : BinaryOp) (first : v.WellFormed) (second : w.WellFormed) :
    Sound (op.eval precision v w) := by
  refine eval_raises (fun _ => nofun) nofun ?_
  rintro op a b rfl rfl rfl
  exact op.eval_sound first second

/-- The operator takes the root of a number whose estimates do not settle. -/
def Operator.Unsettled (op : Operator) (s : Stack) : Prop :=
  ∃ a below, op = .unary (.arithmetic .sqrt) ∧ s = .number a :: below ∧ a.sqrt = .error .internal

theorem UnaryOp.eval_sound (op : UnaryOp) (wellFormed : v.WellFormed) (s : Stack)
    (settled : ¬(Operator.unary op).Unsettled (v :: s)) : Sound (op.eval precision v) := by
  refine eval_raises (fun _ => nofun) nofun ?_
  rintro op a rfl rfl
  refine op.eval_sound wellFormed ?_
  rintro rfl unsettled
  exact settled ⟨a, s, rfl, rfl, unsettled⟩

/-- A number below zero is refused before its root is taken. -/
theorem squareRoot_of_unsettled (unsettled : a.sqrt = .error .internal) : squareRoot a = .error .internal := by
  have unsigned : a.negative = false := by
    by_contra negative
    rw [Decimal.sqrt, if_pos (Bool.not_eq_false _ ▸ negative)] at unsettled
    cases unsettled
  have nonneg : a.isNegative = false := by
    rw [isNegative, unsigned, Bool.false_and]
  rw [squareRoot, nonneg, unsettled]
  rfl

end Computations

namespace Access
variable {v w : Value} {s : Stack} {limit n : ℕ}

theorem performs_computed {result : Except Fault α} {f : α → Value} {values : Except Fault Value} (sound : Sound result)
    (mapped : result.map f = values) (s : Stack) :
    (computed result >>= fun a => push limit (f a)).Performs s (Stack.pushResult limit values s) := by
  subst mapped
  refine (gives_computed sound.ne s).performs ?_ ?_
  · rintro fault rfl
    rfl
  · rintro a rfl
    exact push_performs limit (f a) s

theorem dup_performs (limit : ℕ) (s : Stack) : (dup limit).Performs s (Stack.dup limit s) := by
  cases s with
  | nil => rfl
  | cons v below => exact (top_gives v below).bind (push_performs limit v _)

theorem exch_performs (limit : ℕ) (s : Stack) : (exch limit).Performs s (Stack.exch limit s) := by
  match s with
  | [] => exact (popMany_shallow Nat.two_pos).fails
  | [_] => exact (popMany_shallow Nat.one_lt_two).fails
  | w :: v :: below =>
    have taken : (popMany 2).Gives (w :: v :: below) (.ok [v, w]) below := popMany_gives (Nat.le_add_left 2 _)
    exact taken.bind ((push_performs limit w below).andThen (push_performs limit v))

/-- The depth is checked against the count before the two are added. -/
theorem copy_performs (limit : ℕ) (fits : s.length ≤ memory) : (copy limit).Performs s (Stack.copy limit s) := by
  cases s with
  | nil => exact (pop_empty.fails).fails
  | cons count below =>
    rw [List.length_cons] at fits
    refine (popCount_gives count below).performs (fun fault failed => by rw [Stack.copy, failed]) fun n counted => ?_
    rw [Stack.copy, counted]
    refine (gives_get below).bind ?_
    change Performs _ below (Stack.copyTop limit n below)
    rw [List.length_reverse, Stack.copyTop]
    split
    · exact gives_throw _ below
    · next present =>
      have present := Nat.le_of_not_lt present
      refine (gives_present below (sum?_of_le present (by omega))).bind ?_
      split
      · exact gives_throw _ below
      · refine (gives_present below (difference?_of_le present)).bind ?_
        refine (gives_present below (from?_reverse below present)).bind ?_
        exact gives_set List.reverse_append.symm

theorem index_performs (limit : ℕ) (s : Stack) : (index limit).Performs s (Stack.index limit s) := by
  cases s with
  | nil => exact (pop_empty.fails).fails
  | cons count below =>
    refine (popCount_gives count below).performs (fun fault failed => by rw [Stack.index, failed]) fun n counted => ?_
    rw [Stack.index, counted]
    refine (gives_get below).bind ?_
    change Performs _ below (Stack.pick limit n below)
    rw [List.length_reverse, Stack.pick]
    split
    · next missing =>
      rw [List.getElem?_eq_none missing]
      exact gives_throw _ below
    · next present =>
      have present := Nat.lt_of_not_le present
      have found : below[n]? = some below[n] := List.getElem?_eq_getElem present
      have place : below.reverse[below.length - 1 - n]? = some below[n] := by
        rw [List.getElem?_reverse (by omega), show below.length - 1 - (below.length - 1 - n) = n by omega, found]
      rw [found]
      refine (gives_present below (difference?_of_le (by omega))).bind ?_
      refine (gives_present below (difference?_of_le (by omega))).bind ?_
      exact (gives_present below place).bind (push_performs limit _ below)

/-- The residue of the amount is below the size of the block. -/
theorem rollShift_le {j : Decimal} (positive : 0 < n) (small : n ≤ Value.maxCount) (fits : j.WellFormed)
    (integral : j.isIntegral = true) : ∃ places ≤ n, Stack.rollShift n j = .ok places := by
  obtain ⟨i, integer⟩ := isIntegral_iff.mp integral
  have below := Int.emod_lt_of_pos i (show 0 < (n : ℤ) by exact_mod_cast positive)
  exact ⟨(i % n).toNat, by omega, Stack.rollShift_eq_emod positive small fits integer⟩

theorem rollBlock_performs {j : Decimal} (small : n ≤ Value.maxCount) (fits : j.WellFormed) (integral : j.isIntegral = true) :
    (rollBlock n j).Performs s (Stack.rollTop n j s) := by
  refine (gives_get s).bind ?_
  change Performs _ s (Stack.rollTop n j s)
  rw [List.length_reverse, Stack.rollTop]
  split
  · exact gives_throw _ s
  · next present =>
    have present := Nat.le_of_not_lt present
    split
    · exact gives_pure () s
    · next filled =>
      obtain ⟨places, le, turns⟩ := rollShift_le (Nat.pos_of_ne_zero filled) small fits integral
      have turned : rotateRight? places (s.take n).reverse = _ :=
        rotateRight?_reverse (by rwa [List.length_take_of_le present])
      rw [turns]
      refine (gives_pure places s).bind ?_
      refine (gives_present s (difference?_of_le present)).bind ?_
      refine (gives_present s (from?_reverse s present)).bind ?_
      refine (gives_present s turned).bind (gives_set ?_)
      rw [take_reverse_sub s present, ← List.reverse_append]
      rfl

theorem roll_performs (wellFormed : s.WellFormed) : roll.Performs s (Stack.roll s) := by
  match s with
  | [] => exact (popMany_shallow Nat.two_pos).fails
  | [_] => exact (popMany_shallow Nat.one_lt_two).fails
  | amount :: count :: below =>
    have popped : (popMany 2).Gives (amount :: count :: below) (.ok [count, amount]) below :=
      popMany_gives (Nat.le_add_left 2 _)
    refine popped.bind ?_
    have sound : Sound (Stack.rollOperands count amount) :=
      (Stack.rollOperands_raises count amount).mono (by rintro _ ⟨k, rfl⟩ ⟨⟩)
    change Performs (computed (Stack.rollOperands count amount) >>= fun taken => rollBlock taken.1 taken.2) below _
    refine (gives_computed sound.ne below).performs (fun fault failed => by rw [Stack.roll, failed]) ?_
    rintro ⟨n, j⟩ taken
    obtain ⟨counted, rfl, integral⟩ := Stack.rollOperands_eq_ok_iff.mp taken
    have fits : j.WellFormed := wellFormed (.number j) List.mem_cons_self
    rw [Stack.roll, taken]
    exact rollBlock_performs (Stack.toCount_le count 2 n counted) fits integral

end Access

open Access

section Operators
variable {options : Options} {s : Stack}

theorem UnaryOp.access_performs (op : UnaryOp) (wellFormed : s.WellFormed) (settled : ¬(Operator.unary op).Unsettled s) :
    (op.access options).Performs s (op.run options s) := by
  cases s with
  | nil => exact pop_empty.fails
  | cons v below =>
    have sound : Sound (op.eval options.precision v) := op.eval_sound (wellFormed v List.mem_cons_self) below settled
    exact (pop_gives v below).bind (performs_computed sound (congrFun Except.map_id _) below)

theorem BinaryOp.access_shallow (op : BinaryOp) (missing : s.length < 2) :
    (op.access options).Performs s (.failed s .stackUnderflow) := by
  have shallow := popMany_shallow missing
  cases op with
  | arithmetic op => exact shallow.fails.fails
  | comparison op => exact shallow.fails.fails
  | eq | ne | logical op | bitshift => exact shallow.fails

theorem BinaryOp.access_performs (op : BinaryOp) (wellFormed : s.WellFormed) :
    (op.access options).Performs s (op.run options s) := by
  match s with
  | [] => exact op.access_shallow Nat.two_pos
  | [_] => exact op.access_shallow Nat.one_lt_two
  | w :: v :: below =>
    obtain ⟨second, others⟩ := List.forall_mem_cons.mp wellFormed
    have first := (List.forall_mem_cons.mp others).1
    have popped : (popMany 2).Gives (w :: v :: below) (.ok [v, w]) below := popMany_gives (Nat.le_add_left 2 _)
    have numbers : (popNumbers 2).Gives (w :: v :: below) (toNumbers [v, w]) below := popNumbers_gives (Nat.le_add_left 2 _)
    have valued (op : BinaryOp) : (computed (op.eval options.precision v w) >>= push options.maxStackDepth).Performs below
        (op.run options (w :: v :: below)) :=
      performs_computed (op.eval_sound first second) (congrFun Except.map_id _) below
    cases op with
    | eq | ne | logical op | bitshift => exact popped.bind (valued _)
    | arithmetic op =>
      match v, w with
      | .boolean c, _ => exact numbers.fails
      | .number a, .boolean c => exact numbers.fails
      | .number a, .number b =>
        refine numbers.bind (performs_computed (op.eval_sound first second) ?_ below)
        exact (BinaryOp.eval_numbers options.precision op a b).symm
    | comparison op =>
      match v, w with
      | .boolean c, _ => exact numbers.fails
      | .number a, .boolean c => exact numbers.fails
      | .number a, .number b => exact numbers.bind (push_performs options.maxStackDepth _ below)

theorem StackOp.access_performs {limit : ℕ} (op : StackOp) (wellFormed : s.WellFormed) (fits : s.length ≤ memory) :
    (op.access limit).Performs s (op.run limit s) := by
  cases op with
  | pop =>
    cases s with
    | nil => exact pop_empty.fails
    | cons v below => exact (pop_gives v below).bind (gives_pure () below)
  | dup => exact dup_performs limit s
  | exch => exact exch_performs limit s
  | copy => exact copy_performs limit fits
  | index => exact index_performs limit s
  | roll => exact roll_performs wellFormed

namespace Operator

theorem access_performs (op : Operator) (wellFormed : s.WellFormed) (fits : s.length ≤ memory) (settled : ¬op.Unsettled s) :
    (op.access options).Performs s (op.run options s) := by
  cases op with
  | unary op => exact op.access_performs wellFormed settled
  | binary op => exact op.access_performs wellFormed
  | constant b => exact push_performs options.maxStackDepth _ s
  | stack op => exact op.access_performs wellFormed fits

theorem Unsettled.stops {op : Operator} (unsettled : op.Unsettled s) : (op.access options).Stops s := by
  obtain ⟨a, below, rfl, rfl, found⟩ := unsettled
  have failed : (UnaryOp.arithmetic .sqrt).eval options.precision (.number a) = .error .internal := by
    rw [UnaryOp.eval_number, UnaryArithmetic.eval, squareRoot_of_unsettled found]
    rfl
  refine (pop_gives (.number a) below).stops (Stops.bind ?_)
  rw [failed]
  exact stops_computed below

/-- On a stack that a machine can come to and that fits into memory an operator on positions does
what the operator on lists does, and no position, no size, no number of places and no number that
it relies on is out of range. It stops only where the root of a number does not settle. -/
theorem access_run (options : Options) (op : Operator) (s : Stack) (reached : ReachableInFormat options s)
    (fits : s.length ≤ memory) :
    ((op.access options).Stops s ↔ op.Unsettled s) ∧
      (¬op.Unsettled s → (op.access options).Performs s (op.run options s)) := by
  have performs : ¬op.Unsettled s → (op.access options).Performs s (op.run options s) :=
    op.access_performs reached.wellFormed fits
  refine ⟨⟨fun stops => ?_, Unsettled.stops⟩, performs⟩
  by_contra settled
  exact (performs settled).not_stops stops

/-- Three entries turned by one place away from the top. -/
theorem access_run_roll :
    let s : Stack := [.number ⟨true, 1, 0⟩, .number ⟨false, 3, 0⟩, .number ⟨false, 30, 0⟩, .number ⟨false, 20, 0⟩,
      .number ⟨false, 10, 0⟩]
    ReachableInFormat {} s ∧ s.length ≤ memory ∧ ¬(stack .roll).Unsettled s ∧ ¬((stack .roll).access {}).Stops s ∧
      ((stack .roll).access {}).Gives s (.ok ()) [.number ⟨false, 10, 0⟩, .number ⟨false, 30, 0⟩, .number ⟨false, 20, 0⟩] := by
  intro s
  have reached : ReachableInFormat {} s :=
    ⟨[.execute (Ascii.bytes "10 20 30 3 -1")], List.forall_mem_singleton.mpr trivial, by decide +kernel⟩
  have fits : s.length ≤ memory := by decide
  have settled : ¬(stack .roll).Unsettled s := nofun
  obtain ⟨stops, performs⟩ := access_run {} (stack .roll) s reached fits
  have done : (run {} (stack .roll) s).result = .ok () := by decide +kernel
  have turned : (run {} (stack .roll) s).stack = [.number ⟨false, 10, 0⟩, .number ⟨false, 30, 0⟩, .number ⟨false, 20, 0⟩] := by
    decide +kernel
  have gives := performs settled
  rw [Performs, done, turned] at gives
  exact ⟨reached, fits, settled, fun stopped => settled (stops.mp stopped), gives⟩

end Operator
end Operators
end StackCalculator

import StackCalculator.Operator.Logic
import StackCalculator.Operator.Stack
import StackCalculator.Proofs.Readings

/-! The faults of computations with numbers: a divisor of zero, an argument outside the
domain, a result out of range, and the internal fault. Types are checked before and the
stack is changed after, so that no operator on numbers reports anything else. An operator on
values adds the faults of reading its operands. -/
namespace StackCalculator

/-- Every fault that the result can be has the property. -/
def RaisesOnly (P : Fault → Prop) (result : Except Fault α) : Prop :=
  ∀ fault, result = .error fault → P fault

namespace RaisesOnly
variable {P : Fault → Prop}

theorem ok (a : α) : RaisesOnly P (.ok a) := nofun

theorem error (raised : P fault) : RaisesOnly P (.error fault : Except Fault α) := by
  rintro _ ⟨⟩
  exact raised

theorem mono {result : Except Fault α} {Q : Fault → Prop} (raised : RaisesOnly P result)
    (weaker : ∀ fault, P fault → Q fault) : RaisesOnly Q result :=
  fun fault failed => weaker fault (raised fault failed)

theorem map {result : Except Fault α} (f : α → β) (raised : RaisesOnly P result) :
    RaisesOnly P (result.map f) := by
  cases result with
  | ok a => exact ok (f a)
  | error fault => exact error (raised fault rfl)

theorem bind {result : Except Fault α} {next : α → Except Fault β} (first : RaisesOnly P result)
    (rest : ∀ a, RaisesOnly P (next a)) : RaisesOnly P (result >>= next) := by
  cases result with
  | ok a => exact rest a
  | error fault => exact error (first fault rfl)

theorem ite {c : Prop} [Decidable c] {first second : Except Fault α} (positive : RaisesOnly P first)
    (negative : RaisesOnly P second) : RaisesOnly P (if c then first else second) := by
  split
  · exact positive
  · exact negative

theorem inRange (raised : P .rangeCheck) (result : Option α) : RaisesOnly P (inRange result) := by
  cases result with
  | none => exact error raised
  | some a => exact ok a

theorem faulting (outside : P fault) (internal : P .internal) (result : Except Failure α) :
    RaisesOnly P (faulting fault result) := by
  cases result with
  | ok a => exact ok a
  | error failure =>
    cases failure with
    | outOfRange => exact error outside
    | internal => exact error internal

end RaisesOnly

section Computations
variable {P : Fault → Prop} (division : P .divisionByZero) (domain : P .domainError) (range : P .rangeCheck)

include domain in
theorem squareRoot_raises {a : Decimal} (root : RaisesOnly P (faulting .rangeCheck a.sqrt)) :
    RaisesOnly P (squareRoot a) := by
  unfold squareRoot
  split
  · next negative => exact .error domain
  · next nonneg => exact root

include domain range in
theorem logarithm_raises (f? : Decimal → Option Decimal) (a : Decimal) : RaisesOnly P (logarithm f? a) := by
  unfold logarithm
  split
  · next refused => exact .error domain
  · next positive => exact .inRange range _

include division range in
theorem quotient_raises (a b : Decimal) : RaisesOnly P (quotient a b) := by
  unfold quotient
  split
  · next zero => exact .error division
  · next nonzero => exact .inRange range _

include division range in
theorem integerQuotient_raises (a b : Decimal) : RaisesOnly P (integerQuotient a b) := by
  unfold integerQuotient
  split
  · next zero => exact .error division
  · next nonzero =>
    refine .bind (.inRange range _) fun rest => ?_
    refine .bind (.inRange range _) fun multiple => ?_
    exact .bind (.inRange range _) fun q => .ok _

include division range in
theorem modulus_raises (a b : Decimal) : RaisesOnly P (modulus a b) := by
  unfold modulus
  split
  · next zero => exact .error division
  · next nonzero => exact .inRange range _

include domain range in
/-- The exponent is known to be an integer when it is read as one. -/
theorem power_raises (precision : Nat) (base exponent : Decimal) : RaisesOnly P (power precision base exponent) := by
  unfold power
  split
  · next zero =>
    split
    · next negative => exact .error domain
    · next nonneg => exact .ok _
  · next nonzero =>
    split
    · next integral =>
      refine .bind ?_ fun e => .bind (.inRange range _) fun result => .ok _
      rw [Value.toInt_of_denotes 1 (Value.denotes_toInt integral)]
      exact .ite (.ok _) (.error range)
    · next fractional =>
      split
      · next negative => exact .error domain
      · next positive => exact .bind (.inRange range _) fun result => .ok _

include range in
theorem Stack.rollShift_raises (internal : P .internal) (n : Nat) (j : Decimal) : RaisesOnly P (rollShift n j) := by
  have checked (residue : Decimal) : RaisesOnly P
      (do if residue.negative then throw Fault.rangeCheck
          return residue.whole) :=
    .ite (.bind (.error range) fun _ => .ok _) (.ok _)
  refine .bind (.inRange range _) fun rest => .ite ?_ ?_
  · exact .bind (.faulting range internal _) checked
  · exact .bind (.ok rest) checked

end Computations

/-- The faults that a computation with numbers can end in. -/
inductive Fault.Numeric : Fault → Prop where
  | divisionByZero : Numeric .divisionByZero
  | domainError : Numeric .domainError
  | rangeCheck : Numeric .rangeCheck
  | internal : Numeric .internal

open Fault.Numeric

theorem UnaryArithmetic.eval_raises (precision : Nat) (op : UnaryArithmetic) (a : Decimal) :
    RaisesOnly Fault.Numeric (op.eval precision a) := by
  cases op with
  | abs | neg | ceiling | floor | round | truncate | cvi | cvr => exact .ok _
  | sqrt => exact .map _ (squareRoot_raises domainError (.faulting rangeCheck internal _))
  | sin | cos => exact .map _ (.faulting rangeCheck internal _)
  | ln | log => exact .map _ (logarithm_raises domainError rangeCheck _ a)

theorem BinaryArithmetic.eval_raises (precision : Nat) (op : BinaryArithmetic) (a b : Decimal) :
    RaisesOnly Fault.Numeric (op.eval precision a b) := by
  cases op with
  | add | sub | mul => exact .inRange rangeCheck _
  | div => exact .map _ (quotient_raises divisionByZero rangeCheck a b)
  | idiv => exact integerQuotient_raises divisionByZero rangeCheck a b
  | mod => exact modulus_raises divisionByZero rangeCheck a b
  | exp => exact power_raises domainError rangeCheck precision a b
  | atan => exact .map _ (.faulting domainError internal _)

theorem UnaryOp.eval_number (precision : Nat) (op : UnaryArithmetic) (a : Decimal) :
    (arithmetic op).eval precision (.number a) = (op.eval precision a).map Value.number := by
  change (op.eval precision a >>= fun result => .ok (Value.number result)) = _
  cases op.eval precision a with
  | error fault => rfl
  | ok result => rfl

theorem BinaryOp.eval_numbers (precision : Nat) (op : BinaryArithmetic) (a b : Decimal) :
    (arithmetic op).eval precision (.number a) (.number b) = (op.eval precision a b).map Value.number := by
  change (op.eval precision a b >>= fun result => .ok (Value.number result)) = _
  cases op.eval precision a b with
  | error fault => rfl
  | ok result => rfl

section Values
variable {P : Fault → Prop} (mismatch : ∀ k, P (.typeMismatch k)) (range : P .rangeCheck)
include mismatch

theorem Value.toNumber_raises (position : Nat) (v : Value) : RaisesOnly P (v.toNumber position) := by
  cases v with
  | number d => exact .ok d
  | boolean b => exact .error (mismatch position)

theorem Value.toCount_raises (position : Nat) (v : Value) : RaisesOnly P (v.toCount position) := by
  refine .bind (v.toNumber_raises mismatch position) fun d => .ite ?_ ?_
  · exact .bind (.error (mismatch position)) fun _ => .ok _
  · exact .ok _

theorem sameKindEqual_raises (v w : Value) : RaisesOnly P (sameKindEqual v w) := by
  match v, w with
  | .number a, .number b | .boolean a, .boolean b => exact .ok _
  | .number a, .boolean b | .boolean a, .number b => exact .error (mismatch 1)

include range

theorem Value.toInt_raises (position : Nat) (v : Value) : RaisesOnly P (v.toInt position) := by
  refine .bind (v.toNumber_raises mismatch position) fun d => .ite ?_ ?_
  · exact .bind (.error (mismatch position)) fun _ => .ite (.ok _) (.error range)
  · exact .ite (.ok _) (.error range)

theorem Value.toInt32_raises (position : Nat) (v : Value) : RaisesOnly P (v.toInt32 position) :=
  .bind (v.toInt_raises mismatch range position) fun _ => .ite (.ok _) (.error (mismatch position))

theorem complement_raises (v : Value) : RaisesOnly P (complement v) := by
  cases v with
  | boolean b => exact .ok _
  | number d => exact .bind (Value.toInt32_raises mismatch range 1 _) fun _ => .ok _

theorem Logical.eval_raises (op : Logical) (v w : Value) : RaisesOnly P (op.eval v w) := by
  match v, w with
  | .boolean a, .boolean b => exact .ok _
  | .number a, .number b =>
    exact .bind (Value.toInt32_raises mismatch range 2 _) fun _ =>
      .bind (Value.toInt32_raises mismatch range 1 _) fun _ => .ok _
  | .number a, .boolean b | .boolean a, .number b => exact .error (mismatch 2)

theorem shift_raises (v w : Value) : RaisesOnly P (shift v w) :=
  .bind (v.toInt32_raises mismatch range 2) fun _ => .bind (w.toInt_raises mismatch range 1) fun _ => .ok _

/-- Beyond its computation with a number an operator only reads it. -/
theorem UnaryOp.eval_raises {precision : Nat} {op : UnaryOp} {v : Value}
    (numeric : ∀ arithmetic a, op = .arithmetic arithmetic → v = .number a → RaisesOnly P (arithmetic.eval precision a)) :
    RaisesOnly P (op.eval precision v) := by
  cases op with
  | not => exact complement_raises mismatch range v
  | arithmetic op =>
    cases v with
    | boolean b => exact .error (mismatch 1)
    | number a =>
      rw [eval_number]
      exact .map _ (numeric op a rfl rfl)

theorem BinaryOp.eval_raises {precision : Nat} {op : BinaryOp} {v w : Value}
    (numeric : ∀ arithmetic a b, op = .arithmetic arithmetic → v = .number a → w = .number b →
      RaisesOnly P (arithmetic.eval precision a b)) : RaisesOnly P (op.eval precision v w) := by
  cases op with
  | arithmetic op =>
    match v, w with
    | .number a, .number b =>
      rw [eval_numbers]
      exact .map _ (numeric op a b rfl rfl rfl)
    | .boolean a, _ => exact .error (mismatch 2)
    | .number a, .boolean b => exact .error (mismatch 1)
  | comparison op =>
    exact .bind (v.toNumber_raises mismatch 2) fun _ => .bind (w.toNumber_raises mismatch 1) fun _ => .ok _
  | eq | ne => exact .bind (sameKindEqual_raises mismatch v w) fun _ => .ok _
  | logical op => exact op.eval_raises mismatch range v w
  | bitshift => exact shift_raises mismatch range v w

end Values
end StackCalculator

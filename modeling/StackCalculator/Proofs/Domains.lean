import StackCalculator.Proofs.Agreement
import StackCalculator.Proofs.Directions
import StackCalculator.Proofs.Failing
import StackCalculator.Proofs.QuotientError
import StackCalculator.Proofs.Periods
import StackCalculator.Proofs.Rotation

/-! The domains of the operators. A domain error is told by the numbers that the operands stand
for, not by their encoding: a zero with a minus sign is neither negative nor beyond the domain
of a root. An angle is refused to the zero vector only, since no step on the way to the
direction of another one fails. -/
namespace StackCalculator
open Decimal

/-- The machine is given numbers of the format only. -/
def Command.WellFormed : Command → Prop
  | push v => v.WellFormed
  | execute _ => True

/-- A stack that a machine can come to with numbers of the format. -/
def ReachableInFormat (options : Options) (s : Stack) : Prop :=
  ∃ commands, (∀ c ∈ commands, Command.WellFormed c) ∧ s ∈ sessionStacks options commands []

section Session
variable {options : Options} {s : Stack}

theorem Command.visited_wellFormed {c : Command} (fits : c.WellFormed) (wellFormed : s.WellFormed) :
    ∀ visited ∈ c.visited options s, visited.WellFormed := by
  cases c with
  | push v =>
    have pushed : Stack.WellFormed (s.push options.maxStackDepth v).stack := Stack.push_wellFormed fits wellFormed
    exact List.forall_mem_cons.mpr ⟨wellFormed, List.forall_mem_singleton.mpr pushed⟩
  | execute script => exact tokenStacks_forall (fun t s => t.run_wellFormed s) wellFormed

theorem sessionStacks_wellFormed {commands : List Command} (fits : ∀ c ∈ commands, Command.WellFormed c)
    (wellFormed : s.WellFormed) : ∀ visited ∈ sessionStacks options commands s, visited.WellFormed := by
  induction commands generalizing s with
  | nil => exact List.forall_mem_singleton.mpr wellFormed
  | cons c rest ih =>
    obtain ⟨first, others⟩ := List.forall_mem_cons.mp fits
    have inside : ∀ visited ∈ c.visited options s, visited.WellFormed :=
      c.visited_wellFormed first wellFormed
    exact List.forall_mem_append.mpr ⟨inside, ih others (inside _ (c.left_mem_visited s))⟩

theorem ReachableInFormat.reachable (reached : ReachableInFormat options s) : Reachable options s := by
  obtain ⟨commands, _, visited⟩ := reached
  exact ⟨commands, visited⟩

theorem ReachableInFormat.wellFormed (reached : ReachableInFormat options s) : s.WellFormed := by
  obtain ⟨commands, fits, visited⟩ := reached
  exact sessionStacks_wellFormed fits (List.forall_mem_nil _) s visited

end Session

/-- The numbers for which an operator is not defined. -/
def UnaryArithmetic.Undefined : UnaryArithmetic → ℚ → Prop
  | sqrt, v => v < 0
  | ln, v | log, v => v ≤ 0
  | _, _ => False

/-- A power is not defined for zero and a negative exponent, nor for a negative base and an
exponent that is not an integer; an angle is not for the zero vector. -/
def BinaryArithmetic.Undefined : BinaryArithmetic → ℚ → ℚ → Prop
  | exp, v, w => v = 0 ∧ w < 0 ∨ v < 0 ∧ ∀ i : ℤ, w ≠ i
  | atan, v, w => v = 0 ∧ w = 0
  | _, _, _ => False

/-- The operands are numbers for which the operator is not defined. -/
inductive Operator.OutsideDomain : Operator → Stack → Prop where
  | unary {op : UnaryArithmetic} {a : Decimal} (undefined : op.Undefined a.value) :
      OutsideDomain (.unary (.arithmetic op)) (.number a :: s)
  | binary {op : BinaryArithmetic} {a b : Decimal} (undefined : op.Undefined a.value b.value) :
      OutsideDomain (.binary (.arithmetic op)) (.number b :: .number a :: s)

section Faults
variable {result : Except Fault α} {fault : Fault}

theorem map_eq_error_iff (f : α → β) : result.map f = .error fault ↔ result = .error fault := by
  cases result with
  | error other =>
    constructor
    · rintro ⟨⟩
      rfl
    · rintro ⟨⟩
      rfl
  | ok a => exact ⟨nofun, nofun⟩

/-- A result that is not a domain error. -/
def InDomain (result : Except Fault α) : Prop := RaisesOnly (· ≠ .domainError) result

theorem InDomain.iff {P : Prop} (inside : InDomain result) (never : ¬P) : result = .error .domainError ↔ P :=
  ⟨fun failed => absurd rfl (inside _ failed), fun holds => absurd holds never⟩

theorem inDomain_inRange (result : Option α) : InDomain (inRange result) := .inRange nofun result

end Faults

variable {precision : ℕ} {a b : Decimal} {v w : Value}

theorem squareRoot_domainError_iff : squareRoot a = .error .domainError ↔ a.value < 0 := by
  unfold squareRoot
  rw [← isNegative_iff_lt]
  split
  · next negative => exact ⟨fun _ => negative, fun _ => rfl⟩
  · next nonneg => exact InDomain.iff (.faulting nofun nofun _) nonneg

theorem logarithm_domainError_iff (f? : Decimal → Option Decimal) :
    logarithm f? a = .error .domainError ↔ a.value ≤ 0 := by
  unfold logarithm
  split
  · next refused =>
    refine ⟨fun _ => ?_, fun _ => rfl⟩
    rcases Bool.or_eq_true_iff.mp refused with negative | zero
    · exact value_nonpos negative
    · exact (value_of_isZero zero).le
  · next positive => exact InDomain.iff (inDomain_inRange _) (not_le.mpr (value_pos positive))

theorem UnaryArithmetic.eval_domainError_iff (op : UnaryArithmetic) :
    op.eval precision a = .error .domainError ↔ op.Undefined a.value := by
  cases op with
  | sqrt => exact (map_eq_error_iff _).trans squareRoot_domainError_iff
  | ln | log => exact (map_eq_error_iff _).trans (logarithm_domainError_iff _)
  | sin | cos => exact InDomain.iff (.map _ (.faulting nofun nofun _)) not_false
  | abs | neg | ceiling | floor | round | truncate | cvi | cvr => exact InDomain.iff (.ok _) not_false

theorem power_domainError_iff : power precision a b = .error .domainError ↔
    a.value = 0 ∧ b.value < 0 ∨ a.value < 0 ∧ ∀ i : ℤ, b.value ≠ i := by
  unfold power
  split
  · next zero =>
    have zero := value_of_isZero zero
    simp only [zero, lt_irrefl, false_and, or_false, true_and]
    rw [← isNegative_iff_lt]
    split
    · next negative => exact ⟨fun _ => negative, fun _ => rfl⟩
    · next nonneg => exact InDomain.iff (.ok _) nonneg
  · next nonzero =>
    rw [Bool.not_eq_true] at nonzero
    simp only [value_ne_zero nonzero, false_and, false_or]
    split
    · next integral =>
      obtain ⟨i, equal⟩ := isIntegral_iff.mp integral
      refine InDomain.iff ?_ fun fractional => fractional.2 i equal
      refine .bind ?_ fun e => .bind (inDomain_inRange _) fun result => .ok _
      rw [Value.toInt_of_denotes 1 ⟨b, rfl, equal⟩]
      exact .ite (.ok i) (.error nofun)
    · next fractional =>
      have other : ∀ i : ℤ, b.value ≠ i := fun i equal => fractional (isIntegral_iff.mpr ⟨i, equal⟩)
      rw [← negative_iff nonzero]
      split
      · next negative => exact ⟨fun _ => ⟨negative, other⟩, fun _ => rfl⟩
      · next positive => exact InDomain.iff (.bind (inDomain_inRange _) fun result => .ok _) fun below => positive below.1

theorem direction_zero (up : a.value = 0) (right : b.value = 0) : Angle.direction a b = .error .outOfRange := by
  simp only [Angle.direction, isZero_iff.mpr up, isZero_iff.mpr right]

theorem BinaryArithmetic.eval_domainError_iff (op : BinaryArithmetic) (first : a.WellFormed) (second : b.WellFormed) :
    op.eval precision a b = .error .domainError ↔ op.Undefined a.value b.value := by
  cases op with
  | exp => exact power_domainError_iff
  | atan =>
    rw [eval, map_eq_error_iff]
    by_cases zero : a.value = 0 ∧ b.value = 0
    · rw [direction_zero zero.1 zero.2]
      exact ⟨fun _ => zero, fun _ => rfl⟩
    · obtain ⟨r, found, _⟩ := Angle.direction_directed first second (not_and_or.mp zero)
      rw [found]
      exact InDomain.iff (.ok r) zero
  | add | sub | mul => exact InDomain.iff (inDomain_inRange _) not_false
  | div => exact InDomain.iff (.map _ (quotient_raises (by decide) (by decide) a b)) not_false
  | idiv => exact InDomain.iff (integerQuotient_raises (by decide) (by decide) a b) not_false
  | mod => exact InDomain.iff (modulus_raises (by decide) (by decide) a b) not_false

namespace Operator
variable {options : Options} {s : Stack}

theorem outsideDomain_of_unary {op : UnaryOp} (refused : op.eval precision v = .error .domainError) (s : Stack) :
    OutsideDomain (.unary op) (v :: s) := by
  have raised : RaisesOnly (fun fault => fault = .domainError → OutsideDomain (.unary op) (v :: s))
      (op.eval precision v) := by
    refine UnaryOp.eval_raises (fun _ => nofun) nofun ?_
    rintro op a rfl rfl fault failed rfl
    exact .unary (op.eval_domainError_iff.mp failed)
  exact raised _ refused rfl

theorem outsideDomain_of_binary {op : BinaryOp} (refused : op.eval precision v w = .error .domainError)
    (first : v.WellFormed) (second : w.WellFormed) (s : Stack) : OutsideDomain (.binary op) (w :: v :: s) := by
  have raised : RaisesOnly (fun fault => fault = .domainError → OutsideDomain (.binary op) (w :: v :: s))
      (op.eval precision v w) := by
    refine BinaryOp.eval_raises (fun _ => nofun) nofun ?_
    rintro op a b rfl rfl rfl fault failed rfl
    exact .binary ((op.eval_domainError_iff first second).mp failed)
  exact raised _ refused rfl

theorem Fails.outsideDomain {op : Operator} (fails : op.Fails options s .domainError left) (wellFormed : s.WellFormed) :
    op.OutsideDomain s := by
  cases fails with
  | unary refused => exact outsideDomain_of_unary refused _
  | binary refused =>
    obtain ⟨second, others⟩ := List.forall_mem_cons.mp wellFormed
    exact outsideDomain_of_binary refused (List.forall_mem_cons.mp others).1 second _
  | copyCount refused | indexCount refused =>
    have other := Value.toCount_raises (P := (· ≠ .domainError)) (fun _ => nofun) 1 _ _ refused
    exact absurd rfl other
  | rollOperands refused =>
    obtain ⟨k, other⟩ := Stack.rollOperands_raises _ _ _ refused
    contradiction
  | rollShift _ _ _ refused =>
    have other := Stack.rollShift_raises (P := (· ≠ .domainError)) nofun nofun _ _ _ refused
    exact absurd rfl other

theorem OutsideDomain.run {op : Operator} (outside : op.OutsideDomain s) (wellFormed : s.WellFormed) :
    (op.run options s).result = .error .domainError := by
  cases outside with
  | @unary s op a undefined =>
    change (Stack.pushResult _ ((UnaryOp.arithmetic op).eval options.precision (.number a)) s).result = _
    rw [UnaryOp.eval_number, (map_eq_error_iff _).mpr (op.eval_domainError_iff.mpr undefined)]
    rfl
  | @binary s op a b undefined =>
    obtain ⟨second, others⟩ := List.forall_mem_cons.mp wellFormed
    have first := (List.forall_mem_cons.mp others).1
    rw [run_arithmetic, (map_eq_error_iff _).mpr ((op.eval_domainError_iff first second).mpr undefined)]
    rfl

/-- A domain error is raised exactly for numbers for which the operator is not defined. The
direction of a vector on the stack is found unless both numbers are zero, and pushed with as
many digits as are kept. -/
theorem run_domainError_iff (options : Options) (s : Stack) (reached : ReachableInFormat options s) :
    (∀ op : Operator, (op.run options s).result = .error .domainError ↔ op.OutsideDomain s) ∧
      ∀ y x below, s = .number x :: .number y :: below → (y.value ≠ 0 ∨ x.value ≠ 0) →
        ∃ r, Angle.direction y x = .ok r ∧
          run options (.binary (.arithmetic .atan)) s = .done (.number (r.roundTo options.precision) :: below) := by
  have bound := reached.reachable.length_le
  have wellFormed := reached.wellFormed
  constructor
  · intro op
    constructor
    · intro failed
      exact (fails_of_error bound failed).outsideDomain wellFormed
    · intro outside
      exact outside.run wellFormed
  · rintro y x below rfl nonzero
    obtain ⟨second, others⟩ := List.forall_mem_cons.mp wellFormed
    have first := (List.forall_mem_cons.mp others).1
    obtain ⟨r, found, _⟩ := Angle.direction_directed first second nonzero
    refine ⟨r, found, ?_⟩
    rw [run_arithmetic, BinaryArithmetic.eval, found]
    exact Stack.push_of_room (Nat.lt_of_succ_lt bound)

/-- A negative number has no power of one half. The least and the largest number of the format
have a direction. -/
theorem run_domainError_iff_half :
    let root : Stack := [.number ⟨false, 50, 2⟩, .number ⟨true, 1, 0⟩]
    let y : Decimal := ⟨true, 1, 28⟩
    let x : Decimal := ⟨false, 79228162514264337593543950335, 0⟩
    ReachableInFormat {} root ∧ OutsideDomain (.binary (.arithmetic .exp)) root ∧
      (run {} (.binary (.arithmetic .exp)) root).result = .error .domainError ∧
      ReachableInFormat {} [.number x, .number y] ∧ y.value ≠ 0 ∧
      ∃ r, Angle.direction y x = .ok r ∧
        run {} (.binary (.arithmetic .atan)) [.number x, .number y] = .done [.number (r.roundTo 28)] := by
  intro root y x
  have fits : Value.WellFormed (.number ⟨true, 1, 0⟩) := ⟨by decide, by decide⟩
  have first : ReachableInFormat {} root :=
    ⟨[.push (.number ⟨true, 1, 0⟩), .execute (Ascii.bytes "0.50")],
      List.forall_mem_cons.mpr ⟨fits, List.forall_mem_singleton.mpr trivial⟩, by decide +kernel⟩
  have second : ReachableInFormat {} [.number x, .number y] :=
    ⟨[.execute (Ascii.bytes "-0.0000000000000000000000000001 79228162514264337593543950335")],
      List.forall_mem_singleton.mpr trivial, by decide +kernel⟩
  have failed : (run {} (.binary (.arithmetic .exp)) root).result = .error .domainError := by decide +kernel
  have nonzero : y.value ≠ 0 := value_ne_zero rfl
  have outside := ((run_domainError_iff {} root first).1 _).mp failed
  have found := (run_domainError_iff {} _ second).2 y x [] rfl (.inl nonzero)
  exact ⟨first, outside, failed, second, nonzero, found⟩

end Operator
end StackCalculator

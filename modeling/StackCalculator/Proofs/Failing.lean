import StackCalculator.Proofs.Signatures

/-! Failing operators on the stacks that a machine can come to: what they leave, when
the stack is too shallow or too full for them, and which operand is at fault. Each failing
rule has one of three causes, the depth, the limit or the operands, and leaves either the
whole stack or what is below the operands. -/
namespace StackCalculator

/-- The faults that are found in operands or in computations with them. -/
def Fault.ofOperands : Fault → Bool
  | typeMismatch _ | divisionByZero | domainError | rangeCheck | internal => true
  | _ => false

theorem Signature.Explains.ofOperands {sig : Signature} (explains : sig.Explains s fault) :
    fault.ofOperands = true := by
  cases explains with
  | computation numeric => cases numeric <;> rfl
  | operand => rfl

namespace Operator

/-- Entries that the operator takes, copies, picks or turns are not there. -/
inductive Underflows : Operator → Stack → Prop where
  | operands (missing : s.length < op.operands) : Underflows op s
  | copy {count : Value} (counted : count.toCount 1 = .ok n) (missing : s.length < n) :
      Underflows (.stack .copy) (count :: s)
  | index {count : Value} (counted : count.toCount 1 = .ok n) (missing : s.length ≤ n) :
      Underflows (.stack .index) (count :: s)
  | roll {count : Value} (counted : count.toCount 2 = .ok n) (integer : Value.Denotes amount i)
      (missing : s.length < n) : Underflows (.stack .roll) (amount :: count :: s)

/-- The entries that the operator adds do not fit. -/
inductive Overflows (limit : Nat) : Operator → Stack → Prop where
  | constant (full : s.length = limit) : Overflows limit (.constant b) s
  | dup (present : 1 ≤ s.length) (full : s.length = limit) : Overflows limit (.stack .dup) s
  | copy {count : Value} (counted : count.toCount 1 = .ok n) (present : n ≤ s.length)
      (full : limit < s.length + n) : Overflows limit (.stack .copy) (count :: s)

/-- Operators that add an entry and take none. -/
def adds : Operator → Bool
  | constant _ | stack .dup => true
  | _ => false

variable {options : Options} {op : Operator} {s left : Stack}

theorem Fails.cause (fails : op.Fails options s fault left) :
    fault = .stackUnderflow ∧ op.Underflows s ∨
      fault = .stackOverflow ∧ op.Overflows options.maxStackDepth s ∨ op.signature.Explains s fault := by
  cases fails with
  | shallow missing => exact .inl ⟨rfl, .operands missing⟩
  | unary refused => exact .inr (.inr ((UnaryOp.eval_checks _ _ _ _).refused _ refused))
  | binary refused => exact .inr (.inr ((BinaryOp.eval_checks _ _ _ _ _).refused _ refused))
  | constant full => exact .inr (.inl ⟨rfl, .constant full⟩)
  | dup full => exact .inr (.inl ⟨rfl, .dup (Nat.le_add_left 1 _) full⟩)
  | copyCount refused | indexCount refused =>
    exact .inr (.inr ((Signature.checks_one (Value.reads_toCount 1 _)).refused _ refused))
  | copyUnderflow counted missing => exact .inl ⟨rfl, .copy counted missing⟩
  | copyOverflow counted present full => exact .inr (.inl ⟨rfl, .copy counted present full⟩)
  | indexUnderflow counted missing => exact .inl ⟨rfl, .index counted missing⟩
  | rollOperands refused => exact .inr (.inr ((rollOperands_checks _ _ _).refused _ refused))
  | rollUnderflow taken missing =>
    obtain ⟨counted, rfl, integral⟩ := Stack.rollOperands_eq_ok_iff.mp taken
    exact .inl ⟨rfl, .roll counted (Value.denotes_toInt integral) missing⟩
  | rollShift _ _ _ refused => exact .inr (.inr (.computation (Stack.rollShift_raises .rangeCheck .internal _ _ _ refused)))

theorem Underflows.fails (options : Options) (underflows : op.Underflows s) :
    ∃ left, op.Fails options s .stackUnderflow left := by
  cases underflows with
  | operands missing => exact ⟨_, .shallow missing⟩
  | copy counted missing => exact ⟨_, .copyUnderflow counted missing⟩
  | index counted missing => exact ⟨_, .indexUnderflow counted missing⟩
  | roll counted integer missing =>
    obtain ⟨j, rfl, equal⟩ := integer
    have taken := Stack.rollOperands_eq_ok_iff.mpr ⟨counted, rfl, Decimal.isIntegral_of_value equal⟩
    exact ⟨_, .rollUnderflow taken missing⟩

theorem Overflows.fails (overflows : op.Overflows options.maxStackDepth s) :
    ∃ left, op.Fails options s .stackOverflow left := by
  cases overflows with
  | constant full => exact ⟨_, .constant full⟩
  | dup present full =>
    obtain ⟨v, rest, rfl⟩ := List.exists_cons_of_length_pos present
    exact ⟨_, .dup full⟩
  | copy counted present full => exact ⟨_, .copyOverflow counted present full⟩

theorem run_underflow_iff (bound : s.length ≤ options.maxStackDepth) :
    (op.run options s).result = .error .stackUnderflow ↔ op.Underflows s := by
  constructor
  · intro failed
    rcases (fails_of_error bound failed).cause with ⟨_, underflows⟩ | ⟨other, _⟩ | explained
    · exact underflows
    · cases other
    · cases explained.ofOperands
  · intro underflows
    obtain ⟨left, fails⟩ := underflows.fails options
    rw [fails.run_eq]
    rfl

theorem run_overflow_iff (bound : s.length ≤ options.maxStackDepth) :
    (op.run options s).result = .error .stackOverflow ↔ op.Overflows options.maxStackDepth s := by
  constructor
  · intro failed
    rcases (fails_of_error bound failed).cause with ⟨other, _⟩ | ⟨_, overflows⟩ | explained
    · cases other
    · exact overflows
    · cases explained.ofOperands
  · intro overflows
    obtain ⟨left, fails⟩ := overflows.fails
    rw [fails.run_eq]
    rfl

/-- Either nothing is taken or exactly the operands are. -/
theorem Fails.left_cases (fails : op.Fails options s fault left) :
    left = s ∧ (s.length < op.operands ∨ op.adds = true ∧ fault = .stackOverflow) ∨
      left = s.drop op.operands ∧ op.operands ≤ s.length ∧ ¬(op.adds = true ∧ fault = .stackOverflow) := by
  cases fails with
  | shallow missing => exact .inl ⟨rfl, .inl missing⟩
  | constant | dup => exact .inl ⟨rfl, .inr ⟨rfl, rfl⟩⟩
  | unary | copyCount | copyUnderflow | copyOverflow | indexCount | indexUnderflow =>
    exact .inr ⟨rfl, Nat.le_add_left 1 _, nofun⟩
  | binary | rollOperands | rollUnderflow | rollShift => exact .inr ⟨rfl, Nat.le_add_left 2 _, nofun⟩

/-- What a failing operator leaves are entries from the bottom up: all of them if its
operands are not there or what it adds to them does not fit, and otherwise all below
its operands. A push that fails leaves all of them. -/
theorem failing_leaves_bottom (options : Options) (s : Stack) (reached : Reachable options s) :
    (∀ op fault, (run options op s).result = .error fault →
      let left := (run options op s).stack
      left <:+ s ∧ (s.length < op.operands → left = s) ∧
        (op.adds = true → fault = .stackOverflow → left = s) ∧
        (op.operands ≤ s.length → ¬(op.adds = true ∧ fault = .stackOverflow) →
          left = s.drop op.operands)) ∧
      ∀ v e, ((Command.push v).run options s).result = .error e →
        ((Command.push v).run options s).stack = s := by
  constructor
  · intro op fault failed left
    rcases (fails_of_error reached.length_le failed).left_cases with
      ⟨kept, reason⟩ | ⟨taken, present, other⟩
    · refine ⟨kept ▸ List.suffix_rfl, fun _ => kept, fun _ _ => kept, ?_⟩
      intro present other
      exact absurd (reason.resolve_left (Nat.not_lt.mpr present)) other
    · have bottom : (run options op s).stack <:+ s := by
        rw [taken]
        exact List.drop_suffix op.operands s
      refine ⟨bottom, ?_, ?_, fun _ _ => taken⟩
      · intro missing
        exact absurd present (Nat.not_le.mpr missing)
      · intro added full
        exact absurd ⟨added, full⟩ other
  · intro v e failed
    by_cases room : s.length < options.maxStackDepth
    · have pushed : ((Command.push v).run options s).result = .ok () :=
        congrArg (fun o => (Run.ofOutcome [] none o).result) (Stack.push_of_room room)
      cases pushed.symm.trans failed
    · have refused : s.push options.maxStackDepth v = .failed s .stackOverflow := if_neg room
      exact congrArg Outcome.stack refused

/-- A roll that asks for more than there is, and a full stack. -/
theorem failing_leaves_bottom_full :
    let options : Options := { maxStackDepth := 4 }
    let s : Stack := [.ofInt 9, .ofInt 5, .number ⟨false, 15, 1⟩, .boolean true]
    Reachable options s ∧
      (run options (.stack .roll) s).result = .error .stackUnderflow ∧
      (run options (.stack .roll) s).stack = s.drop 2 ∧
      (run options (.stack .dup) s).result = .error .stackOverflow ∧
      (run options (.stack .dup) s).stack = s ∧
      ((Command.push (.ofInt 1)).run options s).result = .error ⟨none, .stackOverflow⟩ ∧
      ((Command.push (.ofInt 1)).run options s).stack = s := by
  intro options s
  have reached : Reachable options s :=
    ⟨[.push (.boolean true), .execute (Ascii.bytes "1.5 5 9")], by decide +kernel⟩
  obtain ⟨operators, pushes⟩ := failing_leaves_bottom options s reached
  have rolled : (run options (.stack .roll) s).result = .error .stackUnderflow := by decide +kernel
  have doubled : (run options (.stack .dup) s).result = .error .stackOverflow := by decide +kernel
  have pushed : ((Command.push (.ofInt 1)).run options s).result = .error ⟨none, .stackOverflow⟩ := by
    decide +kernel
  obtain ⟨_, _, _, otherwise⟩ := operators _ _ rolled
  obtain ⟨_, _, overflow, _⟩ := operators _ _ doubled
  exact ⟨reached, rolled, otherwise (by decide) (by decide), doubled, overflow rfl rfl,
    pushed, pushes _ _ pushed⟩

/-- An operator underflows exactly where entries are missing, and overflows exactly where
what it adds does not fit, which only a constant and two of the operators on the stack
can do. None raises the faults of numerals, names and outputs. -/
theorem underflow_overflow_iff (options : Options) (s : Stack) (reached : Reachable options s)
    (op : Operator) :
    ((op.run options s).result = .error .stackUnderflow ↔ op.Underflows s) ∧
      ((op.run options s).result = .error .stackOverflow ↔ op.Overflows options.maxStackDepth s) ∧
      ((op.run options s).result = .error .stackOverflow →
        op ∈ [.constant true, .constant false, .stack .dup, .stack .copy]) ∧
      ∀ fault, (op.run options s).result = .error fault →
        (∀ name, fault ≠ .unknownOperator name) ∧ (∀ text, fault ≠ .malformedNumber text) ∧
          ∀ position, fault ≠ .nonNumericOutput position := by
  have bound : s.length ≤ options.maxStackDepth := reached.length_le
  refine ⟨run_underflow_iff bound, run_overflow_iff bound, ?_, ?_⟩
  · intro failed
    cases (run_overflow_iff bound).mp failed with
    | @constant b full => cases b <;> simp
    | dup | copy => simp
  · intro fault failed
    rcases (fails_of_error bound failed).cause with ⟨rfl, _⟩ | ⟨rfl, _⟩ | explained
    · exact ⟨nofun, nofun, nofun⟩
    · exact ⟨nofun, nofun, nofun⟩
    · have found := explained.ofOperands
      refine ⟨?_, ?_, ?_⟩
      all_goals
        rintro _ rfl
        cases found

/-- With a full stack a copy of all entries does not fit, and a roll of more than all has
its amount and its count already taken. -/
theorem underflow_overflow_iff_full :
    let options : Options := { maxStackDepth := 3 }
    let s : Stack := [.ofInt 2, .ofInt 7, .boolean true]
    Reachable options s ∧
      (run options (.stack .copy) s).result = .error .stackOverflow ∧
      Overflows options.maxStackDepth (.stack .copy) s ∧
      (run options (.stack .roll) s).result = .error .stackUnderflow ∧
      Underflows (.stack .roll) s := by
  intro options s
  have reached : Reachable options s :=
    ⟨[.push (.boolean true), .execute (Ascii.bytes "7 2 dup")], by decide +kernel⟩
  have copied : (run options (.stack .copy) s).result = .error .stackOverflow := by decide +kernel
  have rolled : (run options (.stack .roll) s).result = .error .stackUnderflow := by decide +kernel
  exact ⟨reached, copied, (underflow_overflow_iff options s reached _).2.1.mp copied,
    rolled, (underflow_overflow_iff options s reached _).1.mp rolled⟩

/-- Neither of the two operands may be a boolean. -/
def takesTwoNumbers : Operator → Bool
  | binary (.arithmetic _) | binary (.comparison _) | binary .bitshift | stack .roll => true
  | _ => false

theorem run_booleans (numbers : op.takesTwoNumbers = true) (a b : Bool) :
    (op.run options (.boolean a :: .boolean b :: s)).result = .error (.typeMismatch 2) := by
  cases op with
  | unary op | constant b => cases numbers
  | binary op =>
    cases op with
    | arithmetic op | comparison op | bitshift => rfl
    | eq | ne | logical op => cases numbers
  | stack op =>
    cases op with
    | pop | dup | exch | copy | index => cases numbers
    | roll => rfl

/-- An operator that completes had the operands of its signature. A type mismatch is at the
position of an operand that is against the signature; of two booleans in the place of
numbers it is at that of the deeper one. -/
theorem operands_typed (options : Options) (s : Stack) (reached : Reachable options s) (op : Operator) :
    ((op.run options s).result = .ok () → op.signature.Accepts s) ∧
      (∀ position, (op.run options s).result = .error (.typeMismatch position) →
        1 ≤ position ∧ position ≤ op.operands ∧ op.signature.Violated s position) ∧
      (op.takesTwoNumbers = true → ∀ a b below, s = .boolean a :: .boolean b :: below →
        (op.run options s).result = .error (.typeMismatch 2)) := by
  have bound : s.length ≤ options.maxStackDepth := reached.length_le
  refine ⟨?_, ?_, ?_⟩
  · intro completed
    exact (completes_of_ok bound completed).accepts
  · intro position failed
    rcases (fails_of_error bound failed).cause with ⟨other, _⟩ | ⟨other, _⟩ | explained
    · cases other
    · cases other
    · cases explained with
      | computation numeric => cases numeric
      | operand violated =>
        obtain ⟨first, last⟩ := violated.position_le
        exact ⟨first, op.length_types ▸ last, violated⟩
  · rintro numbers a b below rfl
    exact run_booleans numbers a b

/-- Of two operands of `xor` that are no integers of 32 bits the deeper one is at fault. -/
theorem operands_typed_kinds :
    let booleans : Stack := [.boolean false, .boolean true]
    let numbers : Stack := .ofInt 2147483648 :: .number ⟨false, 150, 2⟩ :: booleans
    let xor : Operator := .binary (.logical .xor)
    let atan : Operator := .binary (.arithmetic .atan)
    Reachable {} booleans ∧ Reachable {} numbers ∧
      (xor.run {} booleans).result = .ok () ∧ xor.signature.Accepts booleans ∧
      (xor.run {} numbers).result = .error (.typeMismatch 2) ∧ xor.signature.Violated numbers 2 ∧
      atan.takesTwoNumbers = true ∧ (atan.run {} booleans).result = .error (.typeMismatch 2) := by
  intro booleans numbers xor atan
  let commands : List Command :=
    [.push (.boolean true), .execute (Ascii.bytes "false 1.50 2147483648")]
  have first : Reachable {} booleans := ⟨commands, by decide +kernel⟩
  have second : Reachable {} numbers := ⟨commands, by decide +kernel⟩
  have completed : (xor.run {} booleans).result = .ok () := by decide +kernel
  have failed : (xor.run {} numbers).result = .error (.typeMismatch 2) := by decide +kernel
  obtain ⟨_, _, violated⟩ := (operands_typed {} numbers second xor).2.1 2 failed
  exact ⟨first, second, completed, (operands_typed {} booleans first xor).1 completed, failed,
    violated, rfl, (operands_typed {} booleans first atan).2.2 rfl _ _ _ rfl⟩

end Operator
end StackCalculator

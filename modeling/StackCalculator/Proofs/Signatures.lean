import StackCalculator.Proofs.Depth
import StackCalculator.Proofs.Faults
import StackCalculator.Proofs.Rules
import Mathlib.Data.List.Forall2

/-! The types of operands. An operator that completes had operands that its signature
accepts, and a type mismatch tells the position of one that the signature does not
accept there. Computations on numbers come after the check of their operands and raise no
mismatch of their own. -/
namespace StackCalculator

/-- What an operand has to be. A logical one is a boolean or an integer of 32 bits. -/
inductive OperandType where
  | any | number | integer | count | int64 | int32 | logical
  deriving DecidableEq, Repr

def OperandType.Admits : OperandType → Value → Prop
  | any, _ => True
  | number, v => ∃ d, v = .number d
  | integer, v => ∃ i, v.Denotes i
  | count, v => ∃ i, v.Denotes i ∧ 0 ≤ i
  | int64, v => ∃ i, v.Denotes i ∧ Within Value.intBound i
  | int32, v => ∃ i, v.Denotes i ∧ Within Value.int32Bound i
  | logical, v => (∃ b, v = .boolean b) ∨ ∃ i, v.Denotes i ∧ Within Value.int32Bound i

/-- Two numbers or two booleans. -/
def Value.Alike (v w : Value) : Prop := v.number?.isSome = w.number?.isSome

/-- The types of the operands, the top of the stack first, and whether the operands have
to be of one kind. -/
structure Signature where
  types : List OperandType
  alike : Bool := false

namespace Signature

def Accepts (sig : Signature) (s : Stack) : Prop :=
  ∃ operands below, s = operands ++ below ∧ List.Forall₂ OperandType.Admits sig.types operands ∧
    (sig.alike = true → operands.Pairwise Value.Alike)

/-- The operand at a position, which is one at the top, is not of its type, or is one of
several that have to be alike and are not. -/
inductive Violated (sig : Signature) (s : Stack) : Nat → Prop where
  | operand (typed : sig.types[i]? = some type) (present : s[i]? = some v)
      (other : ¬type.Admits v) : Violated sig s (i + 1)
  | mixed (alike : sig.alike = true) (inside : i < sig.types.length)
      (different : ¬(s.take sig.types.length).Pairwise Value.Alike) : Violated sig s (i + 1)

/-- The faults that computations and operands of the signature are the reason of. -/
inductive Explains (sig : Signature) (s : Stack) : Fault → Prop where
  | computation (numeric : fault.Numeric) : Explains sig s fault
  | operand (violated : sig.Violated s position) : Explains sig s (.typeMismatch position)

/-- The result is one only for operands that are accepted, and its faults are explained. -/
structure Checks (sig : Signature) (s : Stack) (result : Except Fault α) : Prop where
  accepted : ∀ a, result = .ok a → sig.Accepts s
  refused : RaisesOnly (sig.Explains s) result

variable {sig : Signature} {s : Stack}

theorem Violated.position_le (violated : sig.Violated s position) :
    1 ≤ position ∧ position ≤ sig.types.length := by
  cases violated with
  | operand typed =>
    obtain ⟨inside, _⟩ := List.getElem?_eq_some_iff.mp typed
    exact ⟨Nat.le_add_left 1 _, inside⟩
  | mixed _ inside => exact ⟨Nat.le_add_left 1 _, inside⟩

end Signature

/-- The result of reading an operand: only a value of the type is read, and another one is
reported at the position. -/
structure Value.Reads (type : OperandType) (position : Nat) (v : Value) (result : Except Fault α) :
    Prop where
  accepted : ∀ a, result = .ok a → type.Admits v
  refused : RaisesOnly (fun fault => fault.Numeric ∨ fault = .typeMismatch position ∧ ¬type.Admits v)
    result

namespace Value
variable {type : OperandType} {position : Nat} {v : Value}

theorem Reads.of_admitted {result : Except Fault α} (admitted : type.Admits v)
    (raised : RaisesOnly Fault.Numeric result) : v.Reads type position result :=
  ⟨fun _ _ => admitted, raised.mono fun _ => .inl⟩

theorem Reads.of_other (other : ¬type.Admits v) :
    v.Reads type position (.error (.typeMismatch position) : Except Fault α) :=
  ⟨nofun, .error (.inr ⟨rfl, other⟩)⟩

theorem Reads.of_numeric (numeric : fault.Numeric) :
    v.Reads type position (.error fault : Except Fault α) :=
  ⟨nofun, .error (.inl numeric)⟩

theorem Reads.bind {result : Except Fault α} {next : α → Except Fault β}
    (reads : v.Reads type position result) (rest : ∀ a, RaisesOnly Fault.Numeric (next a)) :
    v.Reads type position (result >>= next) := by
  cases result with
  | error fault => exact ⟨nofun, .error (reads.refused fault rfl)⟩
  | ok a => exact .of_admitted (reads.accepted a rfl) (rest a)

theorem reads_toNumber (position : Nat) (v : Value) : v.Reads .number position (v.toNumber position) := by
  cases v with
  | number d => exact .of_admitted ⟨d, rfl⟩ (.ok d)
  | boolean b =>
    apply Reads.of_other
    rintro ⟨d, kind⟩
    cases kind

theorem reads_toInt (position : Nat) (v : Value) : v.Reads .int64 position (v.toInt position) := by
  by_cases integer : ∃ i, v.Denotes i
  · obtain ⟨i, denotes⟩ := integer
    rw [toInt_of_denotes position denotes]
    split
    · next inside => exact .of_admitted ⟨i, denotes, inside⟩ (.ok i)
    · exact .of_numeric .rangeCheck
  · rw [toInt_of_not_integer position (not_exists.mp integer)]
    apply Reads.of_other
    rintro ⟨i, denotes, _⟩
    exact integer ⟨i, denotes⟩

theorem reads_toInt32 (position : Nat) (v : Value) : v.Reads .int32 position (v.toInt32 position) := by
  by_cases integer : ∃ i, v.Denotes i
  · obtain ⟨i, denotes⟩ := integer
    rw [toInt32_of_denotes position denotes]
    split
    · split
      · next inside => exact .of_admitted ⟨i, denotes, inside⟩ (.ok i)
      · next outside =>
        apply Reads.of_other
        rintro ⟨j, also, inside⟩
        exact outside (denotes_inj denotes also ▸ inside)
    · exact .of_numeric .rangeCheck
  · rw [toInt32_of_not_integer position (not_exists.mp integer)]
    apply Reads.of_other
    rintro ⟨i, denotes, _⟩
    exact integer ⟨i, denotes⟩

theorem reads_toCount (position : Nat) (v : Value) : v.Reads .count position (v.toCount position) := by
  by_cases natural : ∃ i, v.Denotes i ∧ 0 ≤ i
  · obtain ⟨i, denotes, nonneg⟩ := natural
    obtain ⟨n, counted⟩ := toCount_of_denotes position denotes nonneg
    rw [counted]
    exact .of_admitted ⟨i, denotes, nonneg⟩ (.ok n)
  · have other : ∀ i, v.Denotes i → i < 0 := by
      intro i denotes
      exact Int.not_le.mp fun nonneg => natural ⟨i, denotes, nonneg⟩
    rw [toCount_of_not_count position other]
    exact .of_other natural

/-- The amount of a roll is an integer of any size. -/
theorem reads_amount (n : Nat) (amount : Value) :
    amount.Reads .integer 1 (do
      let j ← amount.toNumber 1
      if j.isIntegral then return (n, j) else throw (Fault.typeMismatch 1)) := by
  cases amount with
  | boolean b =>
    apply Reads.of_other
    rintro ⟨i, denotes⟩
    exact not_denotes_boolean b denotes
  | number d =>
    change Reads .integer 1 (number d)
      (if d.isIntegral = true then .ok (n, d) else .error (.typeMismatch 1))
    split
    · next integral => exact .of_admitted ⟨d.toInt, denotes_toInt integral⟩ (.ok (n, d))
    · next fractional =>
      apply Reads.of_other
      rintro ⟨i, _, ⟨⟩, equal⟩
      exact fractional (Decimal.isIntegral_of_value equal)

/-- A logical operand that is a number is read as an integer. -/
theorem Reads.logical {d : Decimal} {result : Except Fault α}
    (reads : (number d).Reads .int32 position result) : (number d).Reads .logical position result := by
  refine ⟨fun a read => .inr (reads.accepted a read), reads.refused.mono ?_⟩
  rintro fault (numeric | ⟨rfl, other⟩)
  · exact .inl numeric
  · refine .inr ⟨rfl, ?_⟩
    rintro (⟨b, kind⟩ | integer)
    · cases kind
    · exact other integer

end Value

namespace Signature
variable {sig : Signature} {s : Stack} {v w : Value} {top deeper : OperandType}

theorem explains_reads {result : Except Fault α} (typed : sig.types[i]? = some type)
    (present : s[i]? = some v) (reads : v.Reads type (i + 1) result) :
    RaisesOnly (sig.Explains s) result := by
  refine reads.refused.mono ?_
  rintro fault (numeric | ⟨rfl, other⟩)
  · exact .computation numeric
  · exact .operand (.operand typed present other)

theorem checks_one {result : Except Fault α} (reads : v.Reads top 1 result) :
    Checks ⟨[top], false⟩ (v :: s) result := by
  refine ⟨?_, explains_reads rfl rfl reads⟩
  intro a read
  exact ⟨[v], s, rfl, .cons (reads.accepted a read) .nil, nofun⟩

/-- The deeper operand is read first. -/
theorem checks_two {result : Except Fault α} {next : α → Except Fault β}
    (first : v.Reads deeper 2 result) (second : ∀ a, w.Reads top 1 (next a)) :
    Checks ⟨[top, deeper], false⟩ (w :: v :: s) (result >>= next) := by
  cases result with
  | error fault =>
    have explained : RaisesOnly (Explains ⟨[top, deeper], false⟩ (w :: v :: s))
        (.error fault : Except Fault α) := explains_reads rfl rfl first
    exact ⟨nofun, .error (explained fault rfl)⟩
  | ok a =>
    refine ⟨?_, explains_reads rfl rfl (second a)⟩
    intro b read
    exact ⟨[w, v], s, rfl,
      .cons ((second a).accepted b read) (.cons (first.accepted a rfl) .nil), nofun⟩

theorem Checks.bind {result : Except Fault α} {next : α → Except Fault β} (checks : sig.Checks s result)
    (rest : ∀ a, RaisesOnly Fault.Numeric (next a)) : sig.Checks s (result >>= next) := by
  cases result with
  | error fault => exact ⟨nofun, .error (checks.refused fault rfl)⟩
  | ok a => exact ⟨fun _ _ => checks.accepted a rfl, (rest a).mono fun _ => .computation⟩

/-- Operands that are alike may be required to be so. -/
theorem Checks.alike {types : List OperandType} {result : Except Fault α}
    (checks : Checks ⟨types, false⟩ s result) (same : (s.take types.length).Pairwise Value.Alike) :
    Checks ⟨types, true⟩ s result := by
  constructor
  · intro a read
    obtain ⟨operands, below, rfl, admitted, _⟩ := checks.accepted a read
    -- The operands that are accepted are those at the top, which are alike.
    have taken : (operands ++ below).take types.length = operands :=
      List.take_left' admitted.length_eq.symm
    exact ⟨operands, below, rfl, admitted, fun _ => taken ▸ same⟩
  · refine checks.refused.mono ?_
    rintro fault (numeric | violated)
    · exact .computation numeric
    · cases violated with
      | operand typed present other => exact .operand (.operand typed present other)
      | mixed alike => cases alike

theorem accepts_alike (first : top.Admits w) (second : deeper.Admits v) (alike : w.Alike v) :
    Accepts ⟨[top, deeper], true⟩ (w :: v :: s) :=
  ⟨[w, v], s, rfl, .cons first (.cons second .nil), fun _ => List.pairwise_pair.mpr alike⟩

theorem checks_mixed {types : List OperandType} (inside : i < types.length)
    (different : ¬(s.take types.length).Pairwise Value.Alike) :
    Checks ⟨types, true⟩ s (.error (.typeMismatch (i + 1)) : Except Fault α) :=
  ⟨nofun, .error (.operand (.mixed rfl inside different))⟩

end Signature

def UnaryOp.signature : UnaryOp → Signature
  | .arithmetic _ => ⟨[.number], false⟩
  | .not => ⟨[.logical], false⟩

def BinaryOp.signature : BinaryOp → Signature
  | .arithmetic _ | .comparison _ => ⟨[.number, .number], false⟩
  | .eq | .ne => ⟨[.any, .any], true⟩
  | .logical _ => ⟨[.logical, .logical], true⟩
  | .bitshift => ⟨[.int64, .int32], false⟩

def StackOp.signature : StackOp → Signature
  | .pop | .dup => ⟨[.any], false⟩
  | .exch => ⟨[.any, .any], false⟩
  | .copy | .index => ⟨[.count], false⟩
  | .roll => ⟨[.integer, .count], false⟩

def Operator.signature : Operator → Signature
  | .unary op => op.signature
  | .binary op => op.signature
  | .constant _ => ⟨[], false⟩
  | .stack op => op.signature

theorem Operator.length_types (op : Operator) : op.signature.types.length = op.operands := by
  cases op with
  | unary op | binary op | stack op => cases op <;> rfl
  | constant b => rfl

section Evaluation
open Signature Value
variable (precision : Nat) (v w : Value) (s : Stack)

theorem UnaryOp.eval_checks (op : UnaryOp) : op.signature.Checks (v :: s) (op.eval precision v) := by
  cases op with
  | arithmetic op =>
    exact checks_one ((reads_toNumber 1 v).bind fun a =>
      .bind (op.eval_raises precision a) fun result => .ok _)
  | not =>
    cases v with
    | boolean b => exact checks_one (.of_admitted (.inl ⟨b, rfl⟩) (.ok _))
    | number d => exact checks_one ((reads_toInt32 1 (.number d)).logical.bind fun i => .ok _)

theorem sameKindEqual_checks :
    Signature.Checks ⟨[.any, .any], true⟩ (w :: v :: s) (sameKindEqual v w) := by
  match v, w with
  | .number a, .number b | .boolean a, .boolean b =>
    exact ⟨fun _ _ => accepts_alike trivial trivial rfl, .ok _⟩
  | .number a, .boolean b | .boolean a, .number b =>
    exact checks_mixed Nat.two_pos (by simp [Alike, number?])

theorem Logical.eval_checks (op : Logical) :
    Signature.Checks ⟨[.logical, .logical], true⟩ (w :: v :: s) (op.eval v w) := by
  match v, w with
  | .boolean a, .boolean b =>
    exact ⟨fun _ _ => accepts_alike (.inl ⟨b, rfl⟩) (.inl ⟨a, rfl⟩) rfl, .ok _⟩
  | .number a, .number b =>
    -- Two numbers are alike already, so only their sizes are left to check.
    have integers : Signature.Checks ⟨[.logical, .logical], false⟩ (.number b :: .number a :: s)
        (op.eval (.number a) (.number b)) :=
      checks_two (reads_toInt32 2 (.number a)).logical fun i =>
        (reads_toInt32 1 (.number b)).logical.bind fun j => .ok _
    exact integers.alike (List.pairwise_pair.mpr rfl)
  | .number a, .boolean b | .boolean a, .number b =>
    exact checks_mixed Nat.one_lt_two (by simp [Alike, number?])

theorem BinaryOp.eval_checks (op : BinaryOp) :
    op.signature.Checks (w :: v :: s) (op.eval precision v w) := by
  cases op with
  | arithmetic op =>
    exact checks_two (reads_toNumber 2 v) fun a =>
      (reads_toNumber 1 w).bind fun b => .bind (op.eval_raises precision a b) fun result => .ok _
  | comparison op =>
    exact checks_two (reads_toNumber 2 v) fun a => (reads_toNumber 1 w).bind fun b => .ok _
  | eq | ne => exact (sameKindEqual_checks v w s).bind fun equal => .ok _
  | logical op => exact op.eval_checks v w s
  | bitshift => exact checks_two (reads_toInt32 2 v) fun i => (reads_toInt 1 w).bind fun n => .ok _

theorem rollOperands_checks (count amount : Value) :
    Signature.Checks ⟨[.integer, .count], false⟩ (amount :: count :: s) (Stack.rollOperands count amount) :=
  checks_two (reads_toCount 2 count) fun n => reads_amount n amount

end Evaluation

namespace Operator
variable {options : Options} {op : Operator} {s left : Stack}

theorem Completes.accepts (completes : op.Completes options s left) : op.signature.Accepts s := by
  cases completes with
  | unary computed => exact (UnaryOp.eval_checks _ _ _ _).accepted _ computed
  | binary computed => exact (BinaryOp.eval_checks _ _ _ _ _).accepted _ computed
  | constant => exact ⟨[], s, rfl, .nil, nofun⟩
  | pop | dup => exact ⟨[_], _, rfl, .cons trivial .nil, nofun⟩
  | exch => exact ⟨[_, _], _, rfl, .cons trivial (.cons trivial .nil), nofun⟩
  | copy counted | index counted =>
    exact ⟨[_], _, rfl, .cons ((Value.reads_toCount 1 _).accepted _ counted) .nil, nofun⟩
  | rollNone taken | roll taken => exact (rollOperands_checks _ _ _).accepted _ taken

end Operator
end StackCalculator

import StackCalculator.Value

/-! The operand stack, top first. A step that fails can still have taken operands, so
its outcome is the stack it leaves beside its result. -/
namespace StackCalculator

abbrev Stack := List Value

structure Outcome where
  stack : Stack
  result : Except Fault Unit

namespace Outcome

def done (s : Stack) : Outcome := ⟨s, .ok ()⟩

def failed (s : Stack) (fault : Fault) : Outcome := ⟨s, .error fault⟩

/-- The next step, unless this one failed. -/
def andThen (o : Outcome) (next : Stack → Outcome) : Outcome :=
  match o.result with
  | .ok () => next o.stack
  | .error _ => o

end Outcome

namespace Stack

/-- Adds a value on top if fewer than `limit` are there. -/
def push (limit : Nat) (v : Value) (s : Stack) : Outcome :=
  if s.length < limit then .done (v :: s) else .failed s .stackOverflow

/-- Adds the value of an operator that has taken its operands. -/
def pushResult (limit : Nat) (result : Except Fault Value) (s : Stack) : Outcome :=
  match result with
  | .ok v => s.push limit v
  | .error fault => .failed s fault

/-- The numbers on the stack, bottom first; `position` is that of the first. -/
def numbersFrom (position : Nat) : List Value → Except Fault (List Decimal)
  | [] => .ok []
  | .number d :: rest => do
    let numbers ← numbersFrom (position + 1) rest
    return d :: numbers
  | .boolean _ :: _ => .error (.nonNumericOutput position)

/-- What a program returns: everything it left, bottom first, if all of it is
numbers. -/
def outputs (s : Stack) : Except Fault (List Decimal) := numbersFrom 0 s.reverse

end Stack
end StackCalculator

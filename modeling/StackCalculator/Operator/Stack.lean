import StackCalculator.Operator.Arithmetic
import StackCalculator.Stack

/-! Operators that move values on the stack. Counts are taken off first and stay off
when they turn out to be wrong. -/
namespace StackCalculator.Stack

def pop : Stack → Outcome
  | [] => .failed [] .stackUnderflow
  | _ :: s => .done s

def dup (limit : Nat) : Stack → Outcome
  | [] => .failed [] .stackUnderflow
  | v :: s => push limit v (v :: s)

def exch (limit : Nat) : Stack → Outcome
  | w :: v :: s => (push limit w s).andThen (push limit v)
  | s => .failed s .stackUnderflow

/-- The top `n` entries a second time. -/
def copyTop (limit n : Nat) (s : Stack) : Outcome :=
  if s.length < n then .failed s .stackUnderflow
  else if limit < s.length + n then .failed s .stackOverflow
  else .done (s.take n ++ s)

def copy (limit : Nat) : Stack → Outcome
  | [] => .failed [] .stackUnderflow
  | count :: s =>
    match count.toCount 1 with
    | .ok n => copyTop limit n s
    | .error fault => .failed s fault

/-- The entry below `n` others once more on top. -/
def pick (limit n : Nat) (s : Stack) : Outcome :=
  match s[n]? with
  | some v => push limit v s
  | none => .failed s .stackUnderflow

def index (limit : Nat) : Stack → Outcome
  | [] => .failed [] .stackUnderflow
  | count :: s =>
    match count.toCount 1 with
    | .ok n => pick limit n s
    | .error fault => .failed s fault

/-- How far `j` turns a block of `n` entries: its residue from zero up to `n`. -/
def rollShift (n : Nat) (j : Decimal) : Except Fault Nat := do
  let rest ← inRange (j.rem? (.ofNat n))
  let residue ←
    if rest.isNegative then faulting .rangeCheck (assumed (rest.add? (.ofNat n))) else pure rest
  if residue.negative then throw .rangeCheck
  return residue.whole

/-- The top `n` entries turned by `shift` places, so that entries move toward the top
and those that leave it come in at the bottom of the block. -/
def rotate (n shift : Nat) (s : Stack) : Stack :=
  (s.take n).drop shift ++ (s.take n).take shift ++ s.drop n

/-- The size of the block and the amount of a roll. -/
def rollOperands (count amount : Value) : Except Fault (Nat × Decimal) := do
  let n ← count.toCount 2
  let j ← amount.toNumber 1
  if j.isIntegral then return (n, j) else throw (.typeMismatch 1)

def rollTop (n : Nat) (j : Decimal) (s : Stack) : Outcome :=
  if s.length < n then .failed s .stackUnderflow
  else if n = 0 then .done s
  else match rollShift n j with
    | .ok shift => .done (rotate n shift s)
    | .error fault => .failed s fault

def roll : Stack → Outcome
  | amount :: count :: s =>
    match rollOperands count amount with
    | .ok (n, j) => rollTop n j s
    | .error fault => .failed s fault
  | s => .failed s .stackUnderflow

end StackCalculator.Stack

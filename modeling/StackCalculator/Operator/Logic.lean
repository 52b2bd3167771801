import StackCalculator.Operator.Arithmetic

/-! Comparisons, logic on booleans and integers of 32 bits, and with the arithmetic
all operators that replace one or two values by one. The bits of an integer are
those of its two's complement. -/
namespace StackCalculator

def Comparison.holds (op : Comparison) (a b : Decimal) : Bool :=
  match op with
  | .ge => b.le a
  | .gt => b.lt a
  | .le => a.le b
  | .lt => a.lt b

/-- Whether two values of one kind are the same. -/
def sameKindEqual : Value → Value → Except Fault Bool
  | .number a, .number b => .ok (a.same b)
  | .boolean a, .boolean b => .ok (a == b)
  | _, _ => .error (.typeMismatch 1)

def ofBits (bits : BitVec 32) : Value := .ofInt bits.toInt

def Logical.onBooleans (op : Logical) (a b : Bool) : Bool :=
  match op with
  | .and => a && b
  | .or => a || b
  | .xor => a != b

def Logical.onBits (op : Logical) (a b : BitVec 32) : BitVec 32 :=
  match op with
  | .and => a &&& b
  | .or => a ||| b
  | .xor => a ^^^ b

def Logical.eval (op : Logical) : Value → Value → Except Fault Value
  | .boolean a, .boolean b => .ok (.boolean (op.onBooleans a b))
  | .number a, .number b => do
    let i ← (Value.number a).toInt32 2
    let j ← (Value.number b).toInt32 1
    return ofBits (op.onBits (.ofInt 32 i) (.ofInt 32 j))
  | _, _ => .error (.typeMismatch 2)

def complement : Value → Except Fault Value
  | .boolean b => .ok (.boolean !b)
  | v => do
    let i ← v.toInt32 1
    return ofBits (~~~(BitVec.ofInt 32 i))

/-- Bits moved up, or down by a negative amount; zeros come in, and all bits have
left after 32 places. -/
def shiftBits (bits : BitVec 32) (amount : Int) : BitVec 32 :=
  if 32 ≤ amount.natAbs then 0
  else if 0 ≤ amount then bits <<< amount.natAbs
  else bits >>> amount.natAbs

def shift (a amount : Value) : Except Fault Value := do
  let i ← a.toInt32 2
  let n ← amount.toInt 1
  return ofBits (shiftBits (.ofInt 32 i) n)

def UnaryOp.eval (precision : Nat) (op : UnaryOp) (v : Value) : Except Fault Value :=
  match op with
  | .arithmetic op => do
    let a ← v.toNumber 1
    let result ← op.eval precision a
    return .number result
  | .not => complement v

/-- The operands are given bottom first. Of two that are not numbers the deeper one
is reported. -/
def BinaryOp.eval (precision : Nat) (op : BinaryOp) (v w : Value) : Except Fault Value :=
  match op with
  | .arithmetic op => do
    let a ← v.toNumber 2
    let b ← w.toNumber 1
    let result ← op.eval precision a b
    return .number result
  | .comparison op => do
    let a ← v.toNumber 2
    let b ← w.toNumber 1
    return .boolean (op.holds a b)
  | .eq => do
    let equal ← sameKindEqual v w
    return .boolean equal
  | .ne => do
    let equal ← sameKindEqual v w
    return .boolean !equal
  | .logical op => op.eval v w
  | .bitshift => shift v w

end StackCalculator

import StackCalculator.Decimal.Integral
import StackCalculator.Decimal.Order
import StackCalculator.Decimal.Text
import StackCalculator.Fault

/-! The values on the stack, and their reading as the kinds of operand that
operators take. Each reading is told which argument it is about, counted from the
top of the stack, and names it in a type mismatch. -/
namespace StackCalculator

inductive Value where
  | number (d : Decimal)
  | boolean (b : Bool)
  deriving DecidableEq, Repr

namespace Value

instance : ToString Value where
  toString
    | number d => toString d
    | boolean true => "true"
    | boolean false => "false"

def ofInt (i : Int) : Value := .number (.ofInt i)

/-- Numbers agree whatever their encoding; values of two kinds never do. -/
def same : Value → Value → Bool
  | number a, number b => a.same b
  | boolean a, boolean b => a == b
  | _, _ => false

def number? : Value → Option Decimal
  | number d => some d
  | boolean _ => none

def boolean? : Value → Option Bool
  | number _ => none
  | boolean b => some b

def toNumber (argument : Nat) (v : Value) : Except Fault Decimal :=
  v.number?.elim (.error (.typeMismatch argument)) .ok

def toBoolean (argument : Nat) (v : Value) : Except Fault Bool :=
  v.boolean?.elim (.error (.typeMismatch argument)) .ok

/-- Integers of 64 bits end before this bound. -/
def intBound : Int := 9223372036854775808

/-- Integers of 32 bits end before this bound. -/
def int32Bound : Int := 2147483648

/-- The largest count. No stack is as deep. -/
def maxCount : Nat := 18446744073709551615

/-- An integer of 64 bits. -/
def toInt (argument : Nat) (v : Value) : Except Fault Int := do
  let d ← v.toNumber argument
  if !d.isIntegral then throw (.typeMismatch argument)
  if -intBound ≤ d.toInt ∧ d.toInt < intBound then return d.toInt else throw .rangeCheck

/-- An integer of 32 bits. -/
def toInt32 (argument : Nat) (v : Value) : Except Fault Int := do
  let i ← v.toInt argument
  if -int32Bound ≤ i ∧ i < int32Bound then return i else throw (.typeMismatch argument)

/-- A number of stack entries. What is above the largest count is taken for it, and
so is a zero with a minus sign. -/
def toCount (argument : Nat) (v : Value) : Except Fault Nat := do
  let d ← v.toNumber argument
  if !d.isIntegral || d.isNegative then throw (.typeMismatch argument)
  return if d.negative then maxCount else min d.whole maxCount

end Value
end StackCalculator

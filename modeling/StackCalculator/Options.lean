import StackCalculator.Decimal.Precision

/-! What a machine can be told about precision and depth. -/
namespace StackCalculator

structure Options where
  /-- The significant digits that rounded operators keep; asking for fewer than one
  or more than the most gives one or the most. -/
  precision : Nat := Decimal.maxPrecision
  /-- The most entries that the stack can hold. -/
  maxStackDepth : Nat := 256
  deriving DecidableEq, Repr

end StackCalculator

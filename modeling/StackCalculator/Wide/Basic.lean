import StackCalculator.Decimal.Basic

/-! Wide numbers: decimals with a coefficient of 192 bits, twice that of the
format. The elementary functions sum their series in them and round to a decimal
once, at the end. -/
namespace StackCalculator

structure Wide where
  negative : Bool
  coefficient : Nat
  scale : Nat
  deriving DecidableEq, Repr

namespace Wide

/-- The bits of a coefficient and the digits after the point that a kind of number
can have. -/
structure Format where
  bits : Nat
  maxScale : Nat

def Format.capacity (f : Format) : Nat := Nat.pow 2 f.bits

def decimalFormat : Format := ⟨96, 28⟩
def wideFormat : Format := ⟨192, 57⟩

def ofDecimal (d : Decimal) : Wide := ⟨d.negative, d.coefficient, d.scale⟩

def zero : Wide := ⟨false, 0, 0⟩
def one : Wide := ⟨false, 1, 0⟩
def two : Wide := ⟨false, 2, 0⟩

def isZero (w : Wide) : Bool := w.coefficient == 0

/-- Zero keeps its sign. -/
def neg (w : Wide) : Wide := if w.isZero then w else { w with negative := !w.negative }

/-- Too small to matter to a sum that is rounded to a decimal. -/
def isNegligible (w : Wide) : Bool :=
  w.coefficient = 0 ∨
    (w.coefficient < Nat.pow 2 32 ∧ 38 ≤ w.scale) ∨
    (Nat.pow 2 32 ≤ w.coefficient ∧ w.coefficient < Nat.pow 2 64 ∧ 48 ≤ w.scale) ∨
    (Nat.pow 2 64 ≤ w.coefficient ∧ w.coefficient < Nat.pow 2 96 ∧ 57 ≤ w.scale)

end Wide
end StackCalculator

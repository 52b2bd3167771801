/-! Decimal numbers as a sign, a coefficient and a scale. The encoding is kept
exactly: trailing zeros and the sign of zero are visible in the printed text, so
two encodings of one number are different values here and only their `value`
agrees. Numbers that fit the format satisfy `WellFormed`. -/
namespace StackCalculator

/-- The number `coefficient / 10 ^ scale`, negated when `negative` holds. -/
structure Decimal where
  negative : Bool
  coefficient : Nat
  scale : Nat
  deriving DecidableEq, Repr

namespace Decimal

def pow10 (n : Nat) : Nat := Nat.pow 10 n

theorem pow10_pos (n : Nat) : 0 < pow10 n := Nat.pow_pos (by decide)

/-- Coefficients have 96 bits. -/
def capacity : Nat := 79228162514264337593543950336

/-- Coefficients below this bound take one machine word. -/
def wordCapacity : Nat := 4294967296

/-- Coefficients below this bound take two machine words. -/
def twoWordCapacity : Nat := 18446744073709551616

/-- The most digits that can follow the point. -/
def maxScale : Nat := 28

structure WellFormed (d : Decimal) : Prop where
  coefficient_lt : d.coefficient < capacity
  scale_le : d.scale ≤ maxScale

/-- The coefficient with its sign. -/
def signed (d : Decimal) : Int := if d.negative then -(d.coefficient : Int) else d.coefficient

/-- The rational number that is encoded. -/
def value (d : Decimal) : Rat := mkRat d.signed (pow10 d.scale)

/-- A number from its parts; zero comes out unsigned. -/
def ofParts (negative : Bool) (coefficient scale : Nat) : Decimal :=
  ⟨negative && coefficient != 0, coefficient, scale⟩

def ofNat (n : Nat) : Decimal := ⟨false, n, 0⟩

def ofInt (i : Int) : Decimal := ⟨decide (i < 0), i.natAbs, 0⟩

def zero : Decimal := ofNat 0
def one : Decimal := ofNat 1
def two : Decimal := ofNat 2
def ten : Decimal := ofNat 10

def isZero (d : Decimal) : Bool := d.coefficient == 0

/-- Below zero as a number, so not for a zero with a minus sign. -/
def isNegative (d : Decimal) : Bool := d.negative && !d.isZero

/-- Changes the sign, also that of zero. -/
def neg (d : Decimal) : Decimal := { d with negative := !d.negative }

def abs (d : Decimal) : Decimal := { d with negative := false }

end Decimal
end StackCalculator

import StackCalculator.Binary.Basic

/-! Single-precision patterns and their conversion from and to decimals. A pattern
gives a decimal of at most eight significant digits before trailing zeros go; a
decimal passes through double precision on its way to a pattern. Patterns that are
not finite and numbers too large for a decimal are rejected by `toDecimal?`. -/
namespace StackCalculator

/-- A sign bit, eight bits of exponent and twenty-three of fraction. -/
structure Single where
  bits : UInt32
  deriving DecidableEq, Repr

namespace Single
open Decimal (capacity maxScale pow10 halfUp stripZeros)

def signBit : Nat := 2147483648

/-- The weight of the exponent field, and of the bit that normal numbers leave out. -/
def hiddenBit : Nat := 8388608

/-- The pattern of infinity. -/
def infinity : Nat := 2139095040

def negative (f : Single) : Bool := decide (signBit ≤ f.bits.toNat)

def exponentField (f : Single) : Nat := f.bits.toNat / hiddenBit % 256

def fractionField (f : Single) : Nat := f.bits.toNat % hiddenBit

def isFinite (f : Single) : Bool := f.exponentField < 255

/-- The integer that a power of two is applied to. -/
def significand (f : Single) : Nat :=
  if f.exponentField = 0 then f.fractionField else f.fractionField + hiddenBit

/-- Twice the units of a subnormal number are those of the first normal ones. -/
def biasedExponent (f : Single) : Nat := max 1 f.exponentField

/-- The biased exponent at which a significand stands for itself. -/
def unitExponent : Nat := 150

/-- `n / 2 ^ count` as a coefficient and the scale `s` that starts at `count`: a
halving is exact on even numbers and becomes five tenths on others, until those
would leave the format and the half is dropped. -/
def decimalPlaces : Nat → Nat → Nat → Nat × Nat
  | 0, n, s => (n, s)
  | count + 1, n, s =>
    if n % 2 = 0 then decimalPlaces count (n / 2) (s - 1)
    else if 5 * n < capacity then decimalPlaces count (5 * n) s
    else decimalPlaces count (n / 2) (s - 1)

/-- `count` digits too many after the point rounded off one by one. What vanishes
leaves no digits after the point. -/
def dropExcess : Nat → Nat → Nat → Nat × Nat
  | 0, n, s => (n, s)
  | count + 1, n, s => if n / 10 = 0 then (0, 0) else dropExcess count (halfUp n 10) (s - 1)

/-- Digits after the point rounded off one by one until the coefficient has the
twenty-four bits of a significand. -/
def dropNoise : Nat → Nat → Nat × Nat
  | n, 0 => (n, 0)
  | n, s + 1 => if 2 * hiddenBit ≤ n then dropNoise (halfUp n 10) s else (n, s + 1)

/-- The decimal of a fraction `n / 2 ^ count`. -/
def fractionParts (n count : Nat) : Nat × Nat :=
  let (n, s) := decimalPlaces count n count
  let (n, s) := dropExcess (s - maxScale) n s
  let (n, s) := dropNoise n s
  stripZeros n s

def toDecimal? (f : Single) : Option Decimal :=
  if !f.isFinite then none
  else if f.significand = 0 then some ⟨f.negative, 0, 0⟩
  else if unitExponent ≤ f.biasedExponent then
    let n := f.significand <<< (f.biasedExponent - unitExponent)
    if n < capacity then some ⟨f.negative, n, 0⟩ else none
  else
    let (n, s) := fractionParts f.significand (unitExponent - f.biasedExponent)
    some ⟨f.negative, n, s⟩

/-- The magnitude of a decimal in double precision: digits before and after the
point are converted apart, and their sum is rounded back to the digits there are. -/
def doubleOf (d : Decimal) : Binary :=
  let unit := pow10 d.scale
  let whole := Binary.ofNat (d.coefficient / unit)
  let fraction := (Binary.ofNat (d.coefficient % unit)).div (.ofNat unit)
  if fraction.significand = 0 then whole
  else
    let power := Binary.tenPower d.scale
    ((whole.add fraction).mul power).round.div power

/-- The pattern of a magnitude, to nearest even and with gradual underflow. A
significand that is rounded up to the next power of two carries into the exponent
field. -/
def magnitude? (b : Binary) : Option Nat :=
  if b.significand = 0 then some 0
  else
    let exponent := max (Binary.log2Quotient b.num b.den - 23) (-149)
    let pattern := (exponent + 149).toNat * hiddenBit + Binary.unitsOf b.num b.den exponent
    if pattern < infinity then some pattern else none

/-- Zero loses its sign unless it has digits after the point. -/
def ofDecimal? (d : Decimal) : Option Single :=
  (magnitude? (doubleOf d)).map fun n =>
    let negative := d.negative && !(d.isZero && d.scale == 0)
    ⟨.ofNat (if negative then signBit + n else n)⟩

end Single
end StackCalculator

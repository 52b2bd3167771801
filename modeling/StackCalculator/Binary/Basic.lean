import StackCalculator.Decimal.Rounding

/-! Non-negative binary numbers and their arithmetic in double precision. Each
operation rounds its exact result once, to nearest even. The numbers that occur are
far from the ends of the double range, so the exponent is not bounded here. -/
namespace StackCalculator

/-- The number `significand * 2 ^ exponent`. -/
structure Binary where
  significand : Nat
  exponent : Int
  deriving DecidableEq, Repr

namespace Binary
open Decimal (halfEven halfUp)

/-- The exponent of the largest power of two that is at most `num / den`. -/
def log2Quotient (num den : Nat) : Int :=
  let estimate : Int := num.log2 - den.log2
  if den <<< estimate.toNat ≤ num <<< (-estimate).toNat then estimate else estimate - 1

/-- `num / den` in units of `2 ^ exponent`, to nearest even. -/
def unitsOf (num den : Nat) (exponent : Int) : Nat :=
  halfEven (num <<< (-exponent).toNat) (den <<< exponent.toNat)

/-- `num / den` rounded to `bits` significant bits. -/
def roundQuotient (bits num den : Nat) : Binary :=
  let exponent := log2Quotient num den - bits + 1
  ⟨unitsOf num den exponent, exponent⟩

def doubleBits : Nat := 53

def num (b : Binary) : Nat := b.significand <<< b.exponent.toNat

def den (b : Binary) : Nat := 1 <<< (-b.exponent).toNat

def ofNat (n : Nat) : Binary := roundQuotient doubleBits n 1

def add (a b : Binary) : Binary :=
  roundQuotient doubleBits (a.num * b.den + b.num * a.den) (a.den * b.den)

def mul (a b : Binary) : Binary := roundQuotient doubleBits (a.num * b.num) (a.den * b.den)

def div (a b : Binary) : Binary := roundQuotient doubleBits (a.num * b.den) (a.den * b.num)

/-- The nearest integer, halfway the larger one. -/
def round (b : Binary) : Binary := ofNat (halfUp b.num b.den)

/-- `product` times the power `e` of `square` by repeated squaring. -/
def power (product square : Binary) (e : Nat) : Binary :=
  if e = 0 then product
  else power (if e % 2 = 1 then product.mul square else product) (square.mul square) (e / 2)

/-- The power `e` of ten; beyond the twenty-second it is rounded at each squaring. -/
def tenPower (e : Nat) : Binary := power (ofNat 1) (ofNat 10) e

end Binary
end StackCalculator

import StackCalculator.Ascii
import StackCalculator.Decimal.Integral

/-! The written form of a decimal: a minus sign where there is one, also on zero, at
least one digit before the point, and as many after it as the scale says. -/
namespace StackCalculator.Decimal
open Ascii (digitByte)

/-- The digits of a number, most significant first; zero has one. -/
def digits (n : Nat) : List Nat := if n < 10 then [n] else digits (n / 10) ++ [n % 10]

/-- The last `count` digits, with leading zeros. -/
def lastDigits : Nat → Nat → List Nat
  | 0, _ => []
  | count + 1, n => lastDigits count (n / 10) ++ [n % 10]

def spelling (d : Decimal) : List UInt8 :=
  let sign := if d.negative then [Ascii.minus] else []
  let fraction :=
    if d.scale = 0 then []
    else Ascii.point :: (lastDigits d.scale d.coefficient).map digitByte
  sign ++ (digits d.whole).map digitByte ++ fraction

instance : ToString Decimal := ⟨fun d => Ascii.text d.spelling⟩

end StackCalculator.Decimal

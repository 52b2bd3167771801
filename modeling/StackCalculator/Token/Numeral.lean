import StackCalculator.Decimal.Literal
import StackCalculator.Ascii
import StackCalculator.Fault

/-! Number runs as numbers. A numeral is an optional minus sign, digits, and
optionally a point with digits after it; runs without any digit are not numbers and
not faults either. -/
namespace StackCalculator
open Ascii

/-- The parts of a number run, the digits as bytes. -/
structure Numeral where
  negative : Bool
  whole : List UInt8
  fraction : List UInt8
  deriving DecidableEq, Repr

namespace Numeral

/-- Digits, and optionally a point with digits after it. -/
def ofUnsigned? (negative : Bool) (run : List UInt8) : Option Numeral :=
  match run.dropWhile isDigit with
  | [] => some ⟨negative, run, []⟩
  | b :: fraction =>
    if b == point && fraction.all isDigit then some ⟨negative, run.takeWhile isDigit, fraction⟩
    else none

def ofRun? : List UInt8 → Option Numeral
  | [] => some ⟨false, [], []⟩
  | b :: rest => if b == minus then ofUnsigned? true rest else ofUnsigned? false (b :: rest)

def toDecimal? (n : Numeral) : Option Decimal :=
  Decimal.ofDigits? n.negative (n.whole.map digitValue) (n.fraction.map digitValue)

/-- The number of a run, if the run has a digit at all. -/
def read? (run : List UInt8) : Option (Except Fault Decimal) :=
  if run.any isDigit then
    some (((ofRun? run).bind toDecimal?).elim (.error (.malformedNumber (text run))) .ok)
  else none

end Numeral
end StackCalculator

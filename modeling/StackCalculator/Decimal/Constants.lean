import StackCalculator.Decimal.Basic

/-! The constants of the elementary functions, each to the last place that the
format holds. -/
namespace StackCalculator.Decimal

def pi : Decimal := ⟨false, 31415926535897932384626433833, 28⟩
def twoPi : Decimal := ⟨false, 62831853071795864769252867666, 28⟩
def halfPi : Decimal := ⟨false, 15707963267948966192313216916, 28⟩
def quarterPi : Decimal := ⟨false, 7853981633974483096156608458, 28⟩
def e : Decimal := ⟨false, 27182818284590452353602874714, 28⟩
def eInverse : Decimal := ⟨false, 3678794411714423215955237702, 28⟩
def ln10 : Decimal := ⟨false, 2302585092994045684017991454, 27⟩
def ln10Inverse : Decimal := ⟨false, 4342944819032518276511289189, 28⟩

end StackCalculator.Decimal

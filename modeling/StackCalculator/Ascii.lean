/-! The bytes that programs are made of. Only ASCII has a meaning in a program;
other bytes are stray. -/
namespace StackCalculator.Ascii

def isDigit (b : UInt8) : Bool := 48 ≤ b && b ≤ 57

def isLowercase (b : UInt8) : Bool := 97 ≤ b && b ≤ 122

def minus : UInt8 := 45

def point : UInt8 := 46

/-- What a number run is made of: digits, minus signs and points. -/
def isNumeric (b : UInt8) : Bool := isDigit b || b == minus || b == point

/-- Space, tab, line feed, carriage return and the two braces. -/
def isIgnorable (b : UInt8) : Bool :=
  b == 32 || b == 9 || b == 10 || b == 13 || b == 123 || b == 125

def digitByte (n : Nat) : UInt8 := .ofNat (48 + n)

def digitValue (b : UInt8) : Nat := b.toNat - 48

def text (bytes : List UInt8) : String := .ofList (bytes.map fun b => Char.ofNat b.toNat)

def bytes (text : String) : List UInt8 := text.toList.map fun c => .ofNat c.toNat

end StackCalculator.Ascii

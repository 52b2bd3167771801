import StackCalculator.Ascii

/-! The operators by the shape of their operands, and their names. -/
namespace StackCalculator

/-- From a number to a number. -/
inductive UnaryArithmetic where
  | abs | neg | ceiling | floor | round | truncate | sqrt | sin | cos | ln | log | cvi | cvr
  deriving DecidableEq, Repr

/-- From two numbers to a number. -/
inductive BinaryArithmetic where
  | add | sub | mul | div | idiv | mod | exp | atan
  deriving DecidableEq, Repr

/-- From two numbers to a boolean. -/
inductive Comparison where
  | ge | gt | le | lt
  deriving DecidableEq, Repr

/-- From two booleans to a boolean, or bitwise from two integers to an integer. -/
inductive Logical where
  | and | or | xor
  deriving DecidableEq, Repr

inductive UnaryOp where
  | arithmetic (op : UnaryArithmetic)
  | not
  deriving DecidableEq, Repr

inductive BinaryOp where
  | arithmetic (op : BinaryArithmetic)
  | comparison (op : Comparison)
  /-- From two values of one kind to a boolean. -/
  | eq
  | ne
  | logical (op : Logical)
  | bitshift
  deriving DecidableEq, Repr

/-- Operators that move values and do not look at those they move. -/
inductive StackOp where
  | pop | dup | exch | copy | index | roll
  deriving DecidableEq, Repr

inductive Operator where
  | unary (op : UnaryOp)
  | binary (op : BinaryOp)
  | constant (b : Bool)
  | stack (op : StackOp)
  deriving DecidableEq, Repr

def UnaryArithmetic.name : UnaryArithmetic → String
  | .abs => "abs"
  | .neg => "neg"
  | .ceiling => "ceiling"
  | .floor => "floor"
  | .round => "round"
  | .truncate => "truncate"
  | .sqrt => "sqrt"
  | .sin => "sin"
  | .cos => "cos"
  | .ln => "ln"
  | .log => "log"
  | .cvi => "cvi"
  | .cvr => "cvr"

def BinaryArithmetic.name : BinaryArithmetic → String
  | .add => "add"
  | .sub => "sub"
  | .mul => "mul"
  | .div => "div"
  | .idiv => "idiv"
  | .mod => "mod"
  | .exp => "exp"
  | .atan => "atan"

def Comparison.name : Comparison → String
  | .ge => "ge"
  | .gt => "gt"
  | .le => "le"
  | .lt => "lt"

def Logical.name : Logical → String
  | .and => "and"
  | .or => "or"
  | .xor => "xor"

def UnaryOp.name : UnaryOp → String
  | .arithmetic op => op.name
  | .not => "not"

def BinaryOp.name : BinaryOp → String
  | .arithmetic op => op.name
  | .comparison op => op.name
  | .eq => "eq"
  | .ne => "ne"
  | .logical op => op.name
  | .bitshift => "bitshift"

def StackOp.name : StackOp → String
  | .pop => "pop"
  | .dup => "dup"
  | .exch => "exch"
  | .copy => "copy"
  | .index => "index"
  | .roll => "roll"

namespace Operator

def name : Operator → String
  | unary op => op.name
  | binary op => op.name
  | constant true => "true"
  | constant false => "false"
  | stack op => op.name

def all : List Operator :=
  ([.abs, .neg, .ceiling, .floor, .round, .truncate, .sqrt, .sin, .cos, .ln, .log, .cvi,
      .cvr].map fun op => unary (.arithmetic op)) ++
  [unary .not] ++
  ([.add, .sub, .mul, .div, .idiv, .mod, .exp, .atan].map fun op => binary (.arithmetic op)) ++
  ([.ge, .gt, .le, .lt].map fun op => binary (.comparison op)) ++
  [binary .eq, binary .ne] ++
  ([.and, .or, .xor].map fun op => binary (.logical op)) ++
  [binary .bitshift, constant true, constant false] ++
  [.pop, .dup, .exch, .copy, .index, .roll].map stack

/-- The entries that an operator takes from the stack before it looks at them. -/
def operands : Operator → Nat
  | unary _ => 1
  | binary _ => 2
  | constant _ => 0
  | stack .pop | stack .dup | stack .copy | stack .index => 1
  | stack .exch | stack .roll => 2

/-- The name as it stands in a program. -/
def spelling (op : Operator) : List UInt8 := Ascii.bytes op.name

def ofSpelling? (run : List UInt8) : Option Operator := all.find? fun op => op.spelling == run

/-- Whether the name of some operator starts with the byte. -/
def startsWith (b : UInt8) : Bool := all.any fun op => op.spelling.head? == some b

end Operator
end StackCalculator

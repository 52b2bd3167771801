import StackCalculator.Operator.Logic
import StackCalculator.Operator.Stack
import StackCalculator.Options

/-! One operator on the stack. With too few entries nothing is taken; a value that
does not suit the operator has been taken when that is found out. -/
namespace StackCalculator

def UnaryOp.run (options : Options) (op : UnaryOp) : Stack → Outcome
  | v :: s => Stack.pushResult options.maxStackDepth (op.eval options.precision v) s
  | s => .failed s .stackUnderflow

def BinaryOp.run (options : Options) (op : BinaryOp) : Stack → Outcome
  | w :: v :: s => Stack.pushResult options.maxStackDepth (op.eval options.precision v w) s
  | s => .failed s .stackUnderflow

def StackOp.run (limit : Nat) (op : StackOp) (s : Stack) : Outcome :=
  match op with
  | .pop => Stack.pop s
  | .dup => Stack.dup limit s
  | .exch => Stack.exch limit s
  | .copy => Stack.copy limit s
  | .index => Stack.index limit s
  | .roll => Stack.roll s

def Operator.run (options : Options) (op : Operator) (s : Stack) : Outcome :=
  match op with
  | .unary op => op.run options s
  | .binary op => op.run options s
  | .constant b => Stack.push options.maxStackDepth (.boolean b) s
  | .stack op => op.run options.maxStackDepth s

end StackCalculator

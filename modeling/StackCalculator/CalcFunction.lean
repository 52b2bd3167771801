import StackCalculator.Binary.Text
import StackCalculator.Machine

/-! A calculator function: a program with a fixed number of outputs, applied to
single-precision numbers. Arguments become decimals before anything runs, and the
outputs are counted before they are converted back. -/
namespace StackCalculator

structure CalcFunction where
  script : List UInt8
  outputCount : Nat
  options : Options := {}
  deriving DecidableEq, Repr

inductive CallError where
  /-- The first argument without a decimal. -/
  | notFinite (index : Nat) (argument : Single)
  | evaluation (error : EvalError)
  | outputCount (expected returned : Nat)
  | notRepresentable (output : Decimal)
  deriving DecidableEq, Repr

def CallError.message : CallError → String
  | .notFinite index argument =>
    "argument " ++ toString index ++ " is not finite: " ++ argument.rejectedText
  | .evaluation error => error.message
  | .outputCount expected returned =>
    "expected " ++ toString expected ++ " return values, got " ++ toString returned
  | .notRepresentable output => toString output ++ " out of f32 range"

/-- The result of a call and what was reported on the way. -/
structure Call where
  log : List Event
  result : Except CallError (List Single)

namespace CalcFunction

/-- The decimals of the arguments; `index` is that of the first. -/
def decimalsFrom (index : Nat) : List Single → Except CallError (List Decimal)
  | [] => .ok []
  | f :: rest =>
    match f.toDecimal? with
    | none => .error (.notFinite index f)
    | some d => do
      let decimals ← decimalsFrom (index + 1) rest
      return d :: decimals

def single (d : Decimal) : Except CallError Single :=
  (Single.ofDecimal? d).elim (.error (.notRepresentable d)) .ok

def singles : List Decimal → Except CallError (List Single)
  | [] => .ok []
  | d :: rest => do
    let f ← single d
    let converted ← singles rest
    return f :: converted

/-- Applied to decimals; the outputs are not counted. -/
def eval (f : CalcFunction) (arguments : List Decimal) : Evaluation :=
  evaluate f.options f.script arguments

/-- The outputs counted and converted. -/
def deliver (f : CalcFunction) (e : Evaluation) : Call :=
  match e.result with
  | .error error => ⟨e.log, .error (.evaluation error)⟩
  | .ok outputs =>
    if outputs.length = f.outputCount then ⟨e.log, singles outputs⟩
    else
      ⟨e.log ++ [.outputMismatch outputs.length f.outputCount],
        .error (.outputCount f.outputCount outputs.length)⟩

/-- Applied to single-precision numbers. -/
def exec (f : CalcFunction) (arguments : List Single) : Call :=
  match decimalsFrom 0 arguments with
  | .error error => ⟨[], .error error⟩
  | .ok decimals => f.deliver (f.eval decimals)

end CalcFunction
end StackCalculator

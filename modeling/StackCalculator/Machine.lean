import StackCalculator.Event
import StackCalculator.Operator.Run
import StackCalculator.Token.Numeral
import StackCalculator.Token.Scan

/-! Programs on the operand stack. Tokens run one after the other until one fails;
the stack stays as the failing token left it. Nothing but the stack is carried from
one token to the next. -/
namespace StackCalculator

/-- A fault with the operator that raised it, if it was one. -/
structure EvalError where
  operator : Option Operator
  fault : Fault
  deriving DecidableEq, Repr

def EvalError.message (e : EvalError) : String :=
  match e.operator with
  | some op => "`" ++ op.name ++ "`: " ++ e.fault.message
  | none => e.fault.message

/-- A part of a program that has run: the stack it left, what it reported, and whether
it came to its end. -/
structure Run where
  stack : Stack
  log : List Event
  result : Except EvalError Unit

namespace Run

/-- A step without operator. -/
def ofOutcome (log : List Event) (operator : Option Operator) (o : Outcome) : Run :=
  ⟨o.stack, log, o.result.mapError (⟨operator, ·⟩)⟩

/-- The next part, unless this one failed. -/
def andThen (r : Run) (next : Stack → Run) : Run :=
  match r.result with
  | .ok () =>
    let continued := next r.stack
    { continued with log := r.log ++ continued.log }
  | .error _ => r

end Run

/-- A number run is pushed, or skipped if it has no digit. -/
def runNumber (options : Options) (run : List UInt8) (s : Stack) : Run :=
  match Numeral.read? run with
  | none => .ofOutcome [.skippedRun run] none (.done s)
  | some number => .ofOutcome [] none (Stack.pushResult options.maxStackDepth (number.map .number) s)

def runOperator (options : Options) (run : List UInt8) (s : Stack) : Run :=
  match Operator.ofSpelling? run with
  | none => .ofOutcome [] none (.failed s (.unknownOperator (Ascii.text run)))
  | some op => .ofOutcome [.executing op.name s.length] (some op) (op.run options s)

def Token.run (options : Options) (t : Token) (s : Stack) : Run :=
  match t with
  | .number run => runNumber options run s
  | .operator run => runOperator options run s
  | .stray byte => .ofOutcome [.skippedByte byte] none (.done s)

def runTokens (options : Options) : List Token → Stack → Run
  | [], s => .ofOutcome [] none (.done s)
  | t :: rest, s => (t.run options s).andThen (runTokens options rest)

/-- Runs a program on a stack. -/
def execute (options : Options) (script : List UInt8) (s : Stack) : Run :=
  runTokens options (Token.scan Operator.startsWith script) s

/-- Pushes arguments, bottom first. -/
def pushAll (options : Options) : List Decimal → Stack → Run
  | [], s => .ofOutcome [] none (.done s)
  | d :: rest, s =>
    (Run.ofOutcome [] none (Stack.push options.maxStackDepth (.number d) s)).andThen
      (pushAll options rest)

/-- The result of a whole evaluation and what was reported on the way. -/
structure Evaluation where
  log : List Event
  result : Except EvalError (List Decimal)

/-- The outputs of a run, if it came to its end. -/
def Run.finish (r : Run) : Evaluation :=
  match r.result with
  | .ok () => ⟨r.log ++ [.finished r.stack.length], r.stack.outputs.mapError (⟨none, ·⟩)⟩
  | .error e => ⟨r.log, .error e⟩

/-- Runs a program on its arguments and returns what it leaves, bottom first. -/
def evaluate (options : Options) (script : List UInt8) (arguments : List Decimal) : Evaluation :=
  ((pushAll options arguments []).andThen (execute options script)).finish

end StackCalculator

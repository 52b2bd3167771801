import StackCalculator.Machine

/-! A machine in use: values are pushed and programs run one after the other on one
stack. A command that fails does not end the session; the next one goes on with the
stack that it left. -/
namespace StackCalculator

inductive Command where
  | push (v : Value)
  | execute (script : List UInt8)
  deriving DecidableEq, Repr

def Command.run (options : Options) (c : Command) (s : Stack) : Run :=
  match c with
  | .push v => .ofOutcome [] none (Stack.push options.maxStackDepth v s)
  | .execute script => StackCalculator.execute options script s

/-- The runs of all commands, each on the stack that the one before it left. -/
def session (options : Options) : List Command → Stack → List Run
  | [], _ => []
  | c :: rest, s =>
    let r := c.run options s
    r :: session options rest r.stack

/-- The stack that a session leaves. -/
def finalStack (s : Stack) (runs : List Run) : Stack := runs.getLast?.elim s Run.stack

end StackCalculator

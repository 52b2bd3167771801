import StackCalculator.Ascii

/-! What a machine reports while it works, and the lines for it. -/
namespace StackCalculator

inductive Event where
  /-- An operator is about to run, on that many entries. -/
  | executing (name : String) (depth : Nat)
  | skippedRun (run : List UInt8)
  | skippedByte (byte : UInt8)
  /-- The outputs are about to be checked. -/
  | finished (depth : Nat)
  | outputMismatch (returned expected : Nat)
  deriving DecidableEq, Repr

/-- Two hexadecimal digits. -/
def hexByte (b : UInt8) : String :=
  .ofList [Nat.digitChar (b.toNat / 16), Nat.digitChar (b.toNat % 16)]

def Event.line : Event → String
  | executing name depth => "TRACE exec " ++ name ++ ", stack depth: " ++ toString depth
  | skippedRun run => "DEBUG skip number run without digits: Ok(\"" ++ Ascii.text run ++ "\")"
  | skippedByte byte => "DEBUG skip stray byte 0x" ++ hexByte byte
  | finished depth => "DEBUG finished, stack depth: " ++ toString depth
  | outputMismatch returned expected =>
    "WARN type 4 function returns " ++ toString returned ++ " values, expected " ++
      toString expected

end StackCalculator

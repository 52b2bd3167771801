import StackCalculator.Ascii

/-! Tokens of a program. Blanks and braces separate and mean nothing. A number or an
operator takes as many bytes as belong to it; any other byte is a token alone, also
a lowercase letter that starts no operator. -/
namespace StackCalculator
open Ascii

inductive Token where
  | number (run : List UInt8)
  | operator (run : List UInt8)
  | stray (byte : UInt8)
  deriving DecidableEq, Repr

namespace Token

/-- The first token and the input after it. The predicate tells which lowercase
letters can start an operator. -/
def next? (starts : UInt8 → Bool) (input : List UInt8) : Option (Token × List UInt8) :=
  match input.dropWhile isIgnorable with
  | [] => none
  | b :: rest =>
    if isNumeric b then some (number (b :: rest.takeWhile isNumeric), rest.dropWhile isNumeric)
    else if isLowercase b && starts b then
      some (operator (b :: rest.takeWhile isLowercase), rest.dropWhile isLowercase)
    else some (stray b, rest)

theorem next?_length_lt {starts : UInt8 → Bool} {input rest : List UInt8} {t : Token}
    (h : next? starts input = some (t, rest)) : rest.length < input.length := by
  have skipped := (List.dropWhile_sublist isIgnorable (l := input)).length_le
  unfold next? at h
  split at h
  · cases h
  · next b after equal =>
    rw [equal, List.length_cons] at skipped
    have numeric := (List.dropWhile_sublist isNumeric (l := after)).length_le
    have lowercase := (List.dropWhile_sublist isLowercase (l := after)).length_le
    split at h
    · cases h
      omega
    · split at h <;> cases h <;> omega

/-- All tokens of the input. -/
def scan (starts : UInt8 → Bool) (input : List UInt8) : List Token :=
  match _ : next? starts input with
  | none => []
  | some (t, rest) => t :: scan starts rest
termination_by input.length
decreasing_by exact next?_length_lt ‹_›

end Token
end StackCalculator

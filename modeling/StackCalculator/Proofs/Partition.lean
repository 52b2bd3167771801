import StackCalculator.Operator.Basic
import StackCalculator.Proofs.Scanning

/-! A text as blanks and tokens in turn. Calls of the scanner, each on the text that the one
before it left, come to an end and divide the text: every token is a lexeme that the text
after it does not go on with, and all else is blank. There is no other way to divide a text
so, and nothing of it is left out or used twice. -/
namespace StackCalculator.Token
open Ascii

/-- Tokens with the blanks before each of them, and the blanks after the last one. -/
inductive Division where
  | last (blanks : List UInt8)
  | piece (blanks : List UInt8) (t : Token) (rest : Division)

namespace Division

/-- The text that is divided. -/
def text : Division → List UInt8
  | last blanks => blanks
  | piece blanks t rest => blanks ++ (t.bytes ++ rest.text)

def tokens : Division → List Token
  | last _ => []
  | piece _ t rest => t :: rest.tokens

/-- The blanks at the end. -/
def tail : Division → List UInt8
  | last blanks => blanks
  | piece _ _ rest => rest.tail

/-- What is not a token is blank; every token is a lexeme, and the text after it does not go
on with it. -/
def Divides (starts : UInt8 → Bool) : Division → Prop
  | last blanks => ∀ b ∈ blanks, isIgnorable b = true
  | piece blanks t rest =>
    (∀ b ∈ blanks, isIgnorable b = true) ∧ Lexeme starts t ∧ t.Ends rest.text ∧ rest.Divides starts

end Division

/-- Calls of the scanner that find a token, each on what the call before it left. -/
inductive Reads (starts : UInt8 → Bool) : List UInt8 → List Token → List UInt8 → Prop
  | done : Reads starts left [] left
  | call (found : next? starts input = some (t, rest)) (later : Reads starts rest tokens left) :
      Reads starts input (t :: tokens) left

variable {starts : UInt8 → Bool} {d other : Division} {input left blanks : List UInt8} {t : Token} {tokens : List Token}

namespace Division.Divides

/-- The scanner finds the first token of a division, and what is left is the rest of it. -/
theorem next? (divides : (piece blanks t d).Divides starts) :
    Token.next? starts (piece blanks t d).text = some (t, d.text) := by
  obtain ⟨ignorable, lexeme, ends, _⟩ := divides
  exact next?_eq_some_iff.mpr ⟨blanks, ignorable, rfl, lexeme, ends⟩

theorem next?_last (divides : (last blanks).Divides starts) : Token.next? starts (last blanks).text = none :=
  next?_eq_none_iff.mpr divides

/-- Two divisions of one text begin with the token that the scanner finds, and so with the
same blanks. -/
theorem unique (divides : d.Divides starts) (divides' : other.Divides starts) (same : other.text = d.text) :
    other = d := by
  induction d generalizing other with
  | last blanks =>
    cases other with
    | last blanks' => exact congrArg last same
    | piece blanks' t' rest' =>
      have found := divides'.next?
      rw [same, divides.next?_last] at found
      contradiction
  | piece blanks t rest ih =>
    have found := divides.next?
    cases other with
    | last blanks' =>
      rw [← same, divides'.next?_last] at found
      contradiction
    | piece blanks' t' rest' =>
      rw [← same, divides'.next?] at found
      obtain ⟨rfl, after⟩ := Prod.mk.inj (Option.some.inj found)
      obtain rfl := ih divides.2.2.2 divides'.2.2.2 after
      obtain rfl := List.append_cancel_right same
      rfl

end Division.Divides

/-- Calls that have come to an end have divided the text. -/
theorem Reads.exists_division (reads : Reads starts input tokens left) (stopped : next? starts left = none) :
    ∃ d : Division, d.Divides starts ∧ d.text = input ∧ d.tokens = tokens ∧ d.tail = left := by
  induction reads with
  | @done left => exact ⟨.last left, next?_eq_none_iff.mp stopped, rfl, rfl, rfl⟩
  | @call input t rest tokens left found later ih =>
    obtain ⟨d, divides, rfl, rfl, rfl⟩ := ih stopped
    obtain ⟨blanks, ignorable, rfl, lexeme, ends⟩ := next?_eq_some_iff.mp found
    exact ⟨.piece blanks t d, ⟨ignorable, lexeme, ends, divides⟩, rfl, rfl, rfl⟩

/-- Every call takes a byte at least. -/
theorem Reads.length_le (reads : Reads starts input tokens left) : tokens.length + left.length ≤ input.length := by
  induction reads with
  | @done left =>
    rw [List.length_nil, Nat.zero_add]
  | call found later ih =>
    have shorter := next?_length_lt found
    rw [List.length_cons]
    omega

/-- The tokens of a text are those that calls read until one finds nothing. -/
theorem reads_scan (starts : UInt8 → Bool) (input : List UInt8) :
    ∃ left, Reads starts input (scan starts input) left ∧ next? starts left = none := by
  induction input using scan.induct starts with
  | case1 input blank => exact ⟨input, scan_of_none blank ▸ .done, blank⟩
  | case2 input t rest found ih =>
    obtain ⟨left, later, stopped⟩ := ih
    exact ⟨left, scan_of_some found ▸ .call found later, stopped⟩

/-- Calls of the scanner come to an end after as many tokens as there are bytes at most. With
the blanks that the last call finds they are the one division of the text. -/
theorem scan_divides (starts : UInt8 → Bool) (input : List UInt8) :
    ∃ d : Division, (d.Divides starts ∧ d.text = input) ∧ d.tokens = scan starts input ∧
      Reads starts input d.tokens d.tail ∧ next? starts d.tail = none ∧ d.tokens.length ≤ input.length ∧
      ∀ other : Division, other.Divides starts → other.text = input → other = d := by
  obtain ⟨left, reads, stopped⟩ := reads_scan starts input
  obtain ⟨d, divides, text, tokens, rfl⟩ := reads.exists_division stopped
  rw [← tokens] at reads
  have few : d.tokens.length ≤ input.length := Nat.le_of_add_right_le reads.length_le
  refine ⟨d, ⟨divides, text⟩, tokens, reads, stopped, few, ?_⟩
  intro other divides' text'
  exact divides.unique divides' (text'.trans text.symm)

/-- No operator starts with the first letter of the word, so it is a token alone and the
operator runs from the second one on. -/
theorem scan_divides_hello :
    let d : Division := .piece [123] (.stray 104) (.piece [] (.operator (Ascii.bytes "ello")) (.last [32, 125]))
    let input := Ascii.bytes "\x7bhello \x7d"
    d.Divides Operator.startsWith ∧ d.text = input ∧ scan Operator.startsWith input = d.tokens := by
  intro d input
  have letters : ∀ c ∈ [108, 108, 111], isLowercase c = true := List.all_eq_true.mp (by decide)
  have word : Lexeme Operator.startsWith (.operator (Ascii.bytes "ello")) :=
    .operator (by decide) (by decide) letters
  have alone : Lexeme Operator.startsWith (.stray 104) := .stray (by decide) (by decide) (by decide)
  have ends : Ends (.operator (Ascii.bytes "ello")) [32, 125] := by
    rintro b ⟨⟩
    rfl
  have brace : ∀ b ∈ [123], isIgnorable b = true := List.all_eq_true.mp (by decide)
  have blank : ∀ b ∈ [32, 125], isIgnorable b = true := List.all_eq_true.mp (by decide)
  have divides : d.Divides Operator.startsWith :=
    ⟨brace, alone, fun _ _ => rfl, List.forall_mem_nil _, word, ends, blank⟩
  have text : d.text = input := by decide
  obtain ⟨found, _, tokens, _, _, _, only⟩ := scan_divides Operator.startsWith input
  obtain rfl := only d divides text
  exact ⟨divides, text, tokens.symm⟩

end StackCalculator.Token

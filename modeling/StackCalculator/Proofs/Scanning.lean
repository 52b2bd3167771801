import StackCalculator.Token.Scan
import Mathlib.Data.List.TakeWhile

/-! What the scanner reads, told without it: a token is found exactly where a lexeme
stands behind ignorable bytes and the byte after it does not belong to it any more.
Text that starts with a separator leaves the tokens before it as they are, so
scanning is compositional at separators. -/
namespace StackCalculator
namespace Ascii
variable {b : UInt8}

theorem not_ignorable_of_numeric (numeric : isNumeric b = true) : isIgnorable b = false := by
  grind [isNumeric, isDigit, minus, point, isIgnorable]

theorem not_ignorable_of_lowercase (lowercase : isLowercase b = true) : isIgnorable b = false := by
  grind [isLowercase, isIgnorable]

theorem not_numeric_of_lowercase (lowercase : isLowercase b = true) : isNumeric b = false := by
  grind [isLowercase, isNumeric, isDigit, minus, point]

end Ascii

namespace Token
open Ascii

/-- The text of a token. -/
def bytes : Token → List UInt8
  | number run | operator run => run
  | stray byte => [byte]

/-- The bytes that would go on with a token if they came next. -/
def continues : Token → UInt8 → Bool
  | number _ => isNumeric
  | operator _ => isLowercase
  | stray _ => fun _ => false

/-- The tokens that can be read at all. -/
inductive Lexeme (starts : UInt8 → Bool) : Token → Prop where
  | number : isNumeric b = true → (∀ c ∈ run, isNumeric c = true) → Lexeme starts (.number (b :: run))
  | operator : isLowercase b = true → starts b = true → (∀ c ∈ run, isLowercase c = true) →
      Lexeme starts (.operator (b :: run))
  | stray : isIgnorable b = false → isNumeric b = false → (isLowercase b && starts b) = false →
      Lexeme starts (.stray b)

/-- A text that ends the token before it: nothing, or one that begins with a byte
that does not belong to the token. -/
def Ends (t : Token) (rest : List UInt8) : Prop := ∀ b ∈ rest.head?, t.continues b = false

/-- A text that ends any token before it: nothing, or one that begins with a blank
or a brace. -/
def Separated (rest : List UInt8) : Prop := ∀ b ∈ rest.head?, isIgnorable b = true

variable {starts : UInt8 → Bool} {input rest tail : List UInt8} {t : Token}

theorem Separated.ends (separated : Separated rest) (t : Token) : t.Ends rest := by
  intro b first
  have blank := separated b first
  cases t with
  | number run =>
    cases numeric : isNumeric b with
    | false => exact numeric
    | true => exact absurd blank (by simp [not_ignorable_of_numeric numeric])
  | operator run =>
    cases lowercase : isLowercase b with
    | false => exact lowercase
    | true => exact absurd blank (by simp [not_ignorable_of_lowercase lowercase])
  | stray byte => rfl

theorem Separated.of_ignorable (present : blanks ≠ [])
    (ignorable : ∀ b ∈ blanks, isIgnorable b = true) (rest : List UInt8) :
    Separated (blanks ++ rest) := by
  cases blanks with
  | nil => contradiction
  | cons b blanks =>
    rintro _ ⟨⟩
    exact ignorable b List.mem_cons_self

theorem Ends.append (ends : t.Ends rest) (separated : Separated tail) : t.Ends (rest ++ tail) := by
  cases rest with
  | nil => exact separated.ends t
  | cons b rest => exact ends

theorem ends_dropWhile (p : UInt8 → Bool) (input : List UInt8) :
    ∀ b ∈ (input.dropWhile p).head?, p b = false := by
  intro b first
  have stopped := List.head?_dropWhile_not p input
  rwa [Option.mem_def.mp first] at stopped

theorem takeWhile_append_of_ends {p : UInt8 → Bool} (inside : ∀ b ∈ run, p b = true)
    (stop : ∀ b ∈ rest.head?, p b = false) : (run ++ rest).takeWhile p = run := by
  rw [List.takeWhile_append_of_pos inside]
  cases rest with
  | nil => simp
  | cons b rest => simp [stop b rfl]

theorem dropWhile_append_of_ends {p : UInt8 → Bool} (inside : ∀ b ∈ run, p b = true)
    (stop : ∀ b ∈ rest.head?, p b = false) : (run ++ rest).dropWhile p = rest := by
  rw [List.dropWhile_append_of_pos inside]
  cases rest with
  | nil => rfl
  | cons b rest => simp [stop b rfl]

theorem next?_eq_none_iff : next? starts input = none ↔ ∀ b ∈ input, isIgnorable b = true := by
  rw [← List.dropWhile_eq_nil_iff]
  unfold next?
  split
  · next nothing => simp only [nothing]
  · next b after found =>
    rw [found]
    split
    · simp
    · split <;> simp

/-- The scanner finds a lexeme behind ignorable bytes, and takes all of it. -/
theorem next?_eq_some_iff : next? starts input = some (t, rest) ↔
    ∃ blanks, (∀ b ∈ blanks, isIgnorable b = true) ∧ input = blanks ++ (t.bytes ++ rest) ∧
      Lexeme starts t ∧ t.Ends rest := by
  constructor
  · intro read
    refine ⟨input.takeWhile isIgnorable, fun b => List.mem_takeWhile_imp, ?_⟩
    have whole := List.takeWhile_append_dropWhile (p := isIgnorable) (l := input)
    have stopped := ends_dropWhile isIgnorable input
    unfold next? at read
    split at read
    · contradiction
    · next b after found =>
      rw [found] at whole stopped
      split at read
      · next numeric =>
        cases read
        refine ⟨?_, .number numeric fun c => List.mem_takeWhile_imp, ends_dropWhile isNumeric after⟩
        rw [bytes, List.cons_append, List.takeWhile_append_dropWhile, whole]
      · next notNumeric =>
        split at read
        · next named =>
          cases read
          rw [Bool.and_eq_true] at named
          refine ⟨?_, .operator named.1 named.2 fun c => List.mem_takeWhile_imp,
            ends_dropWhile isLowercase after⟩
          rw [bytes, List.cons_append, List.takeWhile_append_dropWhile, whole]
        · next notNamed =>
          cases read
          exact ⟨whole.symm, .stray (stopped b rfl) (by simpa using notNumeric) (by simpa using notNamed),
            fun c _ => rfl⟩
  · rintro ⟨blanks, ignorable, rfl, lexeme, ends⟩
    unfold next?
    rw [List.dropWhile_append_of_pos ignorable]
    cases lexeme with
    | @number b run leading inside =>
      have visible := not_ignorable_of_numeric leading
      simp [bytes, visible, leading, takeWhile_append_of_ends inside ends,
        dropWhile_append_of_ends inside ends]
    | @operator b run leading start inside =>
      have visible := not_ignorable_of_lowercase leading
      have notNumeric := not_numeric_of_lowercase leading
      simp [bytes, visible, notNumeric, leading, start, takeWhile_append_of_ends inside ends,
        dropWhile_append_of_ends inside ends]
    | @stray b visible notNumeric notNamed =>
      simp [bytes, visible, notNumeric, notNamed]

theorem scan_of_none (blank : next? starts input = none) : scan starts input = [] := by
  rw [scan]
  split
  · rfl
  · next read => simp [blank] at read

theorem scan_of_some (found : next? starts input = some (t, rest)) :
    scan starts input = t :: scan starts rest := by
  rw [scan]
  split
  · next nothing => simp [found] at nothing
  · next read =>
    obtain ⟨rfl, rfl⟩ := Prod.mk.inj (Option.some.inj (found.symm.trans read))
    rfl

theorem scan_congr (same : next? starts input = next? starts other) :
    scan starts input = scan starts other := by
  cases found : next? starts other with
  | none => rw [scan_of_none (same.trans found), scan_of_none found]
  | some token => rw [scan_of_some (same.trans found), scan_of_some found]

theorem scan_blanks_append (ignorable : ∀ b ∈ blanks, isIgnorable b = true) :
    scan starts (blanks ++ input) = scan starts input := by
  apply scan_congr
  unfold next?
  rw [List.dropWhile_append_of_pos ignorable]

/-- A separator splits the tokens wherever the text before it ends. -/
theorem scan_append (separated : Separated tail) :
    scan starts (input ++ tail) = scan starts input ++ scan starts tail := by
  induction input using scan.induct starts with
  | case1 input blank =>
    -- Only ignorable bytes are left, so the scanner goes on into the other text.
    rw [scan_of_none blank, List.nil_append, scan_blanks_append (next?_eq_none_iff.mp blank)]
  | case2 input t rest found ih =>
    obtain ⟨blanks, ignorable, rfl, lexeme, ends⟩ := next?_eq_some_iff.mp found
    have extended : next? starts (blanks ++ (t.bytes ++ rest) ++ tail) = some (t, rest ++ tail) :=
      next?_eq_some_iff.mpr ⟨blanks, ignorable, by simp only [List.append_assoc], lexeme,
        ends.append separated⟩
    rw [scan_of_some extended, scan_of_some found, ih, List.cons_append]

theorem lexeme_of_mem_scan (member : t ∈ scan starts input) : Lexeme starts t := by
  induction input using scan.induct starts with
  | case1 input blank => simp [scan_of_none blank] at member
  | case2 input first rest found ih =>
    rw [scan_of_some found] at member
    rcases List.mem_cons.mp member with rfl | later
    · obtain ⟨_, _, _, lexeme, _⟩ := next?_eq_some_iff.mp found
      exact lexeme
    · exact ih later

theorem Lexeme.scan_bytes (lexeme : Lexeme starts t) : scan starts t.bytes = [t] := by
  have found : next? starts t.bytes = some (t, []) :=
    next?_eq_some_iff.mpr ⟨[], by simp, by simp, lexeme, by simp [Ends]⟩
  rw [scan_of_some found, scan_of_none rfl]

/-- Lexemes written with a separator between them are read back one by one. -/
theorem scan_intercalate {separator : List UInt8} (present : separator ≠ [])
    (ignorable : ∀ b ∈ separator, isIgnorable b = true) {tokens : List Token}
    (lexemes : ∀ t ∈ tokens, Lexeme starts t) :
    scan starts (separator.intercalate (tokens.map bytes)) = tokens := by
  induction tokens with
  | nil => exact scan_of_none rfl
  | cons t rest ih =>
    have first : Lexeme starts t := lexemes t List.mem_cons_self
    have others := ih fun u member => lexemes u (List.mem_cons_of_mem t member)
    cases rest with
    | nil => simpa using first.scan_bytes
    | cons u rest =>
      have separated := Separated.of_ignorable present ignorable
        (separator.intercalate ((u :: rest).map bytes))
      rw [List.map_cons, List.map_cons, List.intercalate_cons_cons, List.append_assoc,
        ← List.map_cons, scan_append separated, scan_blanks_append ignorable, first.scan_bytes, others]
      rfl

end Token
end StackCalculator

import StackCalculator.Proofs.Literals
import StackCalculator.Proofs.Runs

/-! What is printed is read back. The digits of a decimal before and behind the point are those
of its coefficient, so the text of a number of the format is one numeral, and reading it takes
every digit. Only the sign of a zero is lost. -/
namespace StackCalculator

namespace Ascii

theorem bytes_text (run : List UInt8) : bytes (text run) = run := by
  have byte : ∀ b : UInt8, UInt8.ofNat (Char.ofNat b.toNat).toNat = b := by
    intro b
    have small : b.toNat < 256 := b.toNat_lt
    have valid : b.toNat.isValidChar := .inl (by omega)
    rw [Char.toNat_ofNat, if_pos valid, UInt8.ofNat_toNat]
  rw [bytes, text, String.toList_ofList, List.map_map]
  exact (List.map_congr_left fun b _ => byte b).trans (List.map_id run)

variable {d : ℕ}

theorem toNat_digitByte (digit : d < 10) : (digitByte d).toNat = 48 + d :=
  UInt8.toNat_ofNat_of_lt' (show 48 + d < 256 by omega)

theorem digitValue_digitByte (digit : d < 10) : digitValue (digitByte d) = d := by
  rw [digitValue, toNat_digitByte digit, Nat.add_sub_cancel_left]

theorem isDigit_digitByte (digit : d < 10) : isDigit (digitByte d) = true := by
  have value := toNat_digitByte digit
  simp only [isDigit, Bool.and_eq_true, decide_eq_true_eq, UInt8.le_iff_toNat_le, value]
  change 48 ≤ 48 + d ∧ 48 + d ≤ 57
  omega

end Ascii

namespace Decimal
open Ascii
variable {digits : List ℕ} {d : Decimal} {n s : ℕ}

theorem digits_lt (n : ℕ) : ∀ d ∈ Decimal.digits n, d < 10 := by
  induction n using Decimal.digits.induct with
  | case1 n small =>
    rw [Decimal.digits, if_pos small]
    simpa using small
  | case2 n large ih =>
    rw [Decimal.digits, if_neg large]
    intro d member
    rcases List.mem_append.mp member with first | last
    · exact ih d first
    · rw [List.mem_singleton.mp last]
      exact Nat.mod_lt n (by decide)

theorem numberOf_digits (n : ℕ) : numberOf (Decimal.digits n) = n := by
  induction n using Decimal.digits.induct with
  | case1 n small => rw [Decimal.digits, if_pos small, numberOf_singleton]
  | case2 n large ih =>
    rw [Decimal.digits, if_neg large, numberOf_append, ih, numberOf_singleton]
    exact Nat.div_add_mod' n 10

theorem digits_ne_nil (n : ℕ) : Decimal.digits n ≠ [] := by
  rw [Decimal.digits]
  split
  · exact List.cons_ne_nil _ _
  · simp

theorem lastDigits_lt (count n : ℕ) : ∀ d ∈ lastDigits count n, d < 10 := by
  induction count generalizing n with
  | zero => nofun
  | succ count ih =>
    intro d member
    rcases List.mem_append.mp member with first | last
    · exact ih _ d first
    · rw [List.mem_singleton.mp last]
      exact Nat.mod_lt n (by decide)

theorem length_lastDigits (count n : ℕ) : (lastDigits count n).length = count := by
  induction count generalizing n with
  | zero => rfl
  | succ count ih => rw [lastDigits, List.length_append, ih, List.length_singleton]

theorem numberOf_lastDigits (count n : ℕ) : numberOf (lastDigits count n) = n % pow10 count := by
  induction count generalizing n with
  | zero => exact (Nat.mod_one n).symm
  | succ count ih =>
    rw [lastDigits, numberOf_append, ih, numberOf_singleton, pow10_succ, Nat.mod_mul]
    change n / 10 % pow10 count * 10 + n % 10 = _
    omega

/-- Digits for which there is room are all taken. -/
theorem readFraction?_of_fits (places : s + digits.length ≤ maxScale)
    (fits : n * pow10 digits.length + numberOf digits < capacity) :
    readFraction? n s digits = some (n * pow10 digits.length + numberOf digits, s + digits.length) := by
  induction digits generalizing n s with
  | nil => exact congrArg some (Prod.ext (Nat.mul_one n).symm rfl)
  | cons d rest ih =>
    rw [continued_cons] at fits ⊢
    rw [List.length_cons] at places ⊢
    have longer : n * 10 + d ≤ (n * 10 + d) * pow10 rest.length := Nat.le_mul_of_pos_right _ (pow10_pos _)
    rw [readFraction?, if_pos (by omega), ih (by omega) fits, Nat.add_right_comm, Nat.add_assoc]

theorem ofDigits?_printed (wellFormed : d.WellFormed) :
    ofDigits? d.negative (Decimal.digits d.whole) (lastDigits d.scale d.coefficient) =
      some (ofParts d.negative d.coefficient d.scale) := by
  have small : d.whole < capacity := (Nat.div_le_self _ _).trans_lt wellFormed.coefficient_lt
  have whole : readWhole? 0 (Decimal.digits d.whole) = some d.whole := by
    rw [readWhole?_eq (by decide), Nat.zero_mul, Nat.zero_add, numberOf_digits, if_pos small]
  have all : d.whole * pow10 d.scale + d.coefficient % pow10 d.scale = d.coefficient := Nat.div_add_mod' _ _
  have fraction : readFraction? d.whole 0 (lastDigits d.scale d.coefficient) = some (d.coefficient, d.scale) := by
    have places : 0 + (lastDigits d.scale d.coefficient).length ≤ maxScale := by
      rw [length_lastDigits, Nat.zero_add]
      exact wellFormed.scale_le
    have fits : d.whole * pow10 (lastDigits d.scale d.coefficient).length +
        numberOf (lastDigits d.scale d.coefficient) < capacity := by
      rw [length_lastDigits, numberOf_lastDigits, all]
      exact wellFormed.coefficient_lt
    rw [readFraction?_of_fits places fits, length_lastDigits, numberOf_lastDigits, all, Nat.zero_add]
  simp only [ofDigits?, whole, fraction, Option.bind_eq_bind, Option.bind_some]
  rfl

/-- The parts of the text of a decimal. -/
def spelled (d : Decimal) : Numeral :=
  ⟨d.negative, (Decimal.digits d.whole).map digitByte, (lastDigits d.scale d.coefficient).map digitByte⟩

theorem map_digitValue_digitByte (decimal : ∀ d ∈ digits, d < 10) :
    (digits.map digitByte).map digitValue = digits := by
  rw [List.map_map]
  exact (List.map_congr_left fun d member => digitValue_digitByte (decimal d member)).trans (List.map_id digits)

theorem isDigit_of_mem_map (decimal : ∀ d ∈ digits, d < 10) : ∀ b ∈ digits.map digitByte, isDigit b = true := by
  intro b member
  obtain ⟨d, among, rfl⟩ := List.mem_map.mp member
  exact isDigit_digitByte (decimal d among)

theorem spells_spelling (d : Decimal) : Numeral.Spells d.spelling d.spelled := by
  refine ⟨(Decimal.digits d.whole).map digitByte ++ if d.scale = 0 then [] else
    point :: (lastDigits d.scale d.coefficient).map digitByte, List.append_assoc _ _ _,
    isDigit_of_mem_map (digits_lt _), isDigit_of_mem_map (lastDigits_lt _ _), ?_⟩
  split
  · next units =>
    refine .inl ⟨List.append_nil _, ?_⟩
    rw [spelled, units]
    rfl
  · exact .inr rfl

theorem toDecimal?_spelled (wellFormed : d.WellFormed) :
    d.spelled.toDecimal? = some (ofParts d.negative d.coefficient d.scale) := by
  rw [Numeral.toDecimal?, spelled, map_digitValue_digitByte (digits_lt _),
    map_digitValue_digitByte (lastDigits_lt _ _), ofDigits?_printed wellFormed]

theorem exists_digit_spelling (d : Decimal) : ∃ b ∈ d.spelling, isDigit b = true := by
  obtain ⟨first, rest, cons⟩ := List.exists_cons_of_ne_nil (digits_ne_nil d.whole)
  have printed : first ∈ Decimal.digits d.whole := cons ▸ List.mem_cons_self
  refine ⟨digitByte first, ?_, isDigit_digitByte (digits_lt _ first printed)⟩
  exact List.mem_append_left _ (List.mem_append_right _ (List.mem_map_of_mem printed))

end Decimal

namespace Numeral
open Ascii Decimal
variable {run : List UInt8} {n : Numeral}

theorem Spells.isNumeric (spells : Spells run n) : ∀ b ∈ run, isNumeric b = true := by
  obtain ⟨unsigned, rfl, digits, digits', text⟩ := spells
  have numeric : ∀ b, isDigit b = true → Ascii.isNumeric b = true := by
    intro b digit
    simp only [Ascii.isNumeric, digit, Bool.true_or]
  intro b member
  rcases List.mem_append.mp member with sign | member
  · cases negative : n.negative with
    | false => simp [signBytes, negative] at sign
    | true =>
      rw [negative] at sign
      rw [List.mem_singleton.mp sign]
      rfl
  · rcases text with ⟨rfl, -⟩ | rfl
    · exact numeric b (digits b member)
    · rcases List.mem_append.mp member with whole | member
      · exact numeric b (digits b whole)
      · rcases List.mem_cons.mp member with rfl | fraction
        · rfl
        · exact numeric b (digits' b fraction)

/-- A numeral that is not empty is one token. -/
theorem Spells.lexeme (spells : Spells run n) (present : run ≠ []) (starts : UInt8 → Bool) :
    Token.Lexeme starts (.number run) := by
  have numeric := spells.isNumeric
  cases run with
  | nil => contradiction
  | cons b rest => exact .number (numeric b List.mem_cons_self) fun c member => numeric c (List.mem_cons_of_mem b member)

theorem read?_spelling {d : Decimal} (wellFormed : d.WellFormed) :
    read? d.spelling = some (.ok (ofParts d.negative d.coefficient d.scale)) := by
  rw [read?_of_spells (exists_digit_spelling d) (spells_spelling d), toDecimal?_spelled wellFormed]
  rfl

end Numeral

open Decimal
variable {options : Options} {s : Stack} {d : Decimal}

theorem execute_number {run : List UInt8} (tokens : Token.scan Operator.startsWith run = [.number run])
    (read : Numeral.read? run = some (.ok d)) (room : s.length < options.maxStackDepth) :
    execute options run s = .ofOutcome [] none (.done (.number d :: s)) := by
  have pushed : Stack.pushResult options.maxStackDepth ((Except.ok d : Except Fault Decimal).map .number) s =
      .done (.number d :: s) := if_pos room
  rw [execute, tokens, runTokens_cons, Token.run, runNumber, read]
  change (Run.ofOutcome [] none (Stack.pushResult options.maxStackDepth (Except.map .number (.ok d)) s)).andThen _ = _
  rw [pushed]
  rfl

/-- The text of a number of the format is one token, and running it pushes the number with the
same coefficient and scale, and with its sign unless it is zero. -/
theorem execute_spelling (options : Options) (starts : UInt8 → Bool) (wellFormed : d.WellFormed)
    (room : s.length < options.maxStackDepth) :
    let text := Ascii.bytes (toString (Value.number d))
    Token.next? starts text = some (.number text, []) ∧
      execute options text s =
        .ofOutcome [] none (.done (.number ⟨d.negative && !d.isZero, d.coefficient, d.scale⟩ :: s)) := by
  intro text
  have spelling : text = d.spelling := Ascii.bytes_text d.spelling
  obtain ⟨b, among, _⟩ := exists_digit_spelling d
  have lexeme := (spells_spelling d).lexeme (List.ne_nil_of_mem among)
  rw [spelling]
  refine ⟨?_, ?_⟩
  · refine Token.next?_eq_some_iff.mpr ⟨[], nofun, ?_, lexeme starts, nofun⟩
    exact (List.append_nil d.spelling).symm
  · exact execute_number (lexeme Operator.startsWith).scan_bytes (Numeral.read?_spelling wellFormed) room

/-- A zero loses its sign, and nothing else. -/
theorem execute_spelling_zero :
    let d : Decimal := ⟨true, 0, 2⟩
    let options : Options := ⟨28, 1⟩
    let text := Ascii.bytes "-0.00"
    d.WellFormed ∧ ([] : Stack).length < options.maxStackDepth ∧
      Token.next? Operator.startsWith text = some (.number text, []) ∧
      execute options text [] = .ofOutcome [] none (.done [.number ⟨false, 0, 2⟩]) := by
  intro d options text
  have wellFormed : d.WellFormed := ⟨by decide, by decide⟩
  have room : ([] : Stack).length < options.maxStackDepth := by decide
  have written : Ascii.bytes (toString (Value.number d)) = text := by decide +kernel
  have ran := execute_spelling options Operator.startsWith wellFormed room
  rw [written] at ran
  exact ⟨wellFormed, room, ran⟩

end StackCalculator

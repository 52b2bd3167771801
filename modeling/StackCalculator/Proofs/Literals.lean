import StackCalculator.Proofs.Arithmetic
import StackCalculator.Proofs.Scanning
import StackCalculator.Proofs.WellFormed

/-! Numbers as they are written. A numeral of any length denotes a rational number. The number
that is read is this one where the format has it, and otherwise one that is at most half a
unit of its own last place away; only where the number is too large nothing is read. -/
namespace StackCalculator
open Ascii

namespace Decimal
variable {v : ℚ} {digits rest : List ℕ} {d n s : ℕ}

/-- The number of a row of digits, most significant first. -/
def numberOf (digits : List ℕ) : ℕ := Nat.ofDigits 10 digits.reverse

/-- The number of a row of digits behind a point. -/
def fractionOf (digits : List ℕ) : ℚ := numberOf digits / 10 ^ digits.length

theorem numberOf_nil : numberOf [] = 0 := rfl

theorem numberOf_append (first last : List ℕ) :
    numberOf (first ++ last) = numberOf first * pow10 last.length + numberOf last := by
  rw [numberOf, List.reverse_append, Nat.ofDigits_append, List.length_reverse, Nat.add_comm, Nat.mul_comm]
  rfl

theorem numberOf_singleton (d : ℕ) : numberOf [d] = d := Nat.ofDigits_singleton

theorem numberOf_cons (d : ℕ) (rest : List ℕ) :
    numberOf (d :: rest) = d * pow10 rest.length + numberOf rest := by
  rw [← List.singleton_append, numberOf_append, numberOf_singleton]

/-- A row of digits continued by its first one. -/
theorem continued_cons (n d : ℕ) (rest : List ℕ) : n * pow10 (d :: rest).length + numberOf (d :: rest) =
    (n * 10 + d) * pow10 rest.length + numberOf rest := by
  rw [numberOf_cons, List.length_cons, pow10_succ]
  ring

theorem numberOf_lt (decimal : ∀ d ∈ digits, d < 10) : numberOf digits < pow10 digits.length := by
  rw [numberOf, ← List.length_reverse]
  exact Nat.ofDigits_lt_base_pow_length (by decide) fun d member => decimal d (List.mem_reverse.mp member)

theorem fractionOf_nil : fractionOf [] = 0 := by
  rw [fractionOf, numberOf_nil, Nat.cast_zero, zero_div]

theorem fractionOf_cons (d : ℕ) (rest : List ℕ) : fractionOf (d :: rest) = (d + fractionOf rest) / 10 := by
  rw [fractionOf, fractionOf, numberOf_cons, List.length_cons, Nat.cast_add, Nat.cast_mul, pow10_cast, pow_succ]
  field_simp

theorem fractionOf_nonneg (digits : List ℕ) : 0 ≤ fractionOf digits := by
  unfold fractionOf
  positivity

theorem fractionOf_lt_one (decimal : ∀ d ∈ digits, d < 10) : fractionOf digits < 1 := by
  rw [fractionOf, div_lt_one (by positivity), ← pow10_cast]
  exact_mod_cast numberOf_lt decimal

theorem readWhole?_eq (small : n < capacity) (digits : List ℕ) : readWhole? n digits =
    if n * pow10 digits.length + numberOf digits < capacity then some (n * pow10 digits.length + numberOf digits)
    else none := by
  induction digits generalizing n with
  | nil =>
    have whole : n * pow10 ([] : List ℕ).length + numberOf [] = n := Nat.mul_one n
    rw [whole, if_pos small]
    rfl
  | cons d rest ih =>
    rw [continued_cons, readWhole?]
    split
    · next fits => exact ih fits
    · next full =>
      have longer : n * 10 + d ≤ (n * 10 + d) * pow10 rest.length := Nat.le_mul_of_pos_right _ (pow10_pos _)
      exact (if_neg (by omega)).symm

/-- A number of the format, in some encoding. -/
def Representable (v : ℚ) : Prop := ∃ m s : ℕ, m < capacity ∧ s ≤ maxScale ∧ |v| = m / 10 ^ s

/-- The coefficient and the scale that are read for `v`. -/
structure Taken (v : ℚ) (parts : ℕ × ℕ) : Prop where
  below : v < capacity - 1 / 2
  near : |magnitude parts - v| ≤ 1 / 2 / 10 ^ parts.2
  exact : Representable v → magnitude parts = v

/-- What is read for `v`, and that nothing is read only where `v` is too large. -/
def ReadsFraction (v : ℚ) : Option (ℕ × ℕ) → Prop
  | none => capacity - 1 / 2 ≤ v
  | some parts => Taken v parts

/-- At a scale beyond which a number has no coefficient it has none but whole ones. -/
theorem Representable.whole (representable : Representable v) (nonneg : 0 ≤ v)
    (full : s = maxScale ∨ capacity ≤ v * 10 ^ (s + 1)) : ∃ k : ℕ, v * 10 ^ s = k := by
  obtain ⟨m, t, small, le, equal⟩ := representable
  rw [abs_of_nonneg nonneg] at equal
  have places : t ≤ s := by
    rcases full with last | large
    · exact last ▸ le
    · by_contra more
      have longer : (10 : ℚ) ^ (s + 1) ≤ 10 ^ t := pow_le_pow_right₀ (by norm_num) (by omega)
      have scaled : v * 10 ^ t = m := by rw [equal, div_mul_cancel₀ _ (by positivity)]
      have above : (capacity : ℚ) ≤ m := by
        calc (capacity : ℚ) ≤ v * 10 ^ (s + 1) := large
          _ ≤ v * 10 ^ t := by gcongr
          _ = m := scaled
      exact absurd small (Nat.not_lt.mpr (by exact_mod_cast above))
  refine ⟨m * pow10 (s - t), ?_⟩
  rw [Nat.cast_mul, pow10_cast, equal, div_mul_eq_mul_div, ← Nat.add_sub_cancel' places, pow_add,
    Nat.add_sub_cancel_left]
  field_simp

theorem lt_of_scaled_lt {b : ℚ} (nonneg : 0 ≤ v) (less : v * 10 ^ s < b) : v < b := by
  have more : v ≤ v * 10 ^ s := le_mul_of_one_le_right nonneg (one_le_pow₀ (by norm_num))
  exact more.trans_lt less

theorem Taken.of_scaled {m t : ℕ} (nonneg : 0 ≤ v) (least : m - 1 / 2 ≤ v * 10 ^ t) (most : v * 10 ^ t ≤ m + 1 / 2)
    (below : v * 10 ^ t < capacity - 1 / 2) (exact : Representable v → magnitude (m, t) = v) : Taken v (m, t) := by
  refine ⟨lt_of_scaled_lt nonneg below, ?_, exact⟩
  have power : (0 : ℚ) < 10 ^ t := by positivity
  have close : |m - v * 10 ^ t| ≤ 1 / 2 := by
    rw [abs_le]
    constructor
    · linarith
    · linarith
  have scaled : magnitude (m, t) - v = (m - v * 10 ^ t) / 10 ^ t := by
    rw [magnitude]
    field_simp
  rw [scaled, abs_div, abs_of_pos power]
  gcongr

/-- The digit that does not fit rounds by halves, and what follows it does not matter. -/
theorem readsFraction_round (small : n < capacity) (nonneg : 0 ≤ v)
    (full : s = maxScale ∨ capacity ≤ v * 10 ^ (s + 1)) {down : Prop} [Decidable down]
    (least : n ≤ v * 10 ^ s) (less : v * 10 ^ s < n + 1) (half : down ↔ v * 10 ^ s < n + 1 / 2) :
    ReadsFraction v (if down then some (n, s) else if n + 1 < capacity then some (n + 1, s)
      else if s = 0 then none else some ((n + 5) / 10, s - 1)) := by
  have bound : (n : ℚ) + 1 ≤ capacity := by exact_mod_cast small
  -- A number of the format is whole at this scale, so nothing of it is rounded off.
  have exact : Representable v → v * 10 ^ s = n := by
    intro representable
    obtain ⟨k, whole⟩ := representable.whole nonneg full
    rw [whole] at least less ⊢
    have above : n ≤ k := by exact_mod_cast least
    have below : k < n + 1 := by exact_mod_cast less
    rw [show k = n by omega]
  split
  · next holds =>
    have before := half.mp holds
    refine .of_scaled nonneg (by linarith) (by linarith) (by linarith) fun representable => ?_
    rw [magnitude, div_eq_iff (by positivity), exact representable]
  next raised =>
  have above : n + 1 / 2 ≤ v * 10 ^ s := not_lt.mp fun before => raised (half.mpr before)
  have inexact : ¬Representable v := fun representable => by linarith [exact representable]
  split
  · next fits =>
    have room : (n : ℚ) + 1 + 1 ≤ capacity := by exact_mod_cast fits
    refine .of_scaled nonneg ?_ ?_ (by linarith) fun representable => absurd representable inexact
    · push_cast
      linarith
    · push_cast
      linarith
  next carried =>
  have last : n = 79228162514264337593543950335 := by
    have value : capacity = 79228162514264337593543950336 := rfl
    omega
  have top : (n : ℚ) = 79228162514264337593543950335 := by
    rw [last, Nat.cast_ofNat]
  rw [top] at above less
  split
  · next units =>
    rw [units, pow_zero, mul_one] at above
    change (capacity : ℚ) - 1 / 2 ≤ v
    rw [capacity_cast]
    linarith
  · next places =>
    obtain ⟨t, rfl⟩ := Nat.exists_eq_add_one_of_ne_zero places
    have shorter : ((n + 5) / 10 : ℕ) = 7922816251426433759354395034 := by rw [last]
    rw [pow_succ, ← mul_assoc] at above less
    rw [shorter, Nat.add_sub_cancel]
    refine .of_scaled nonneg ?_ ?_ ?_ fun representable => absurd representable inexact
    · rw [Nat.cast_ofNat]
      linarith
    · rw [Nat.cast_ofNat]
      linarith
    · rw [capacity_cast]
      linarith

theorem readFraction?_reads (small : n < capacity) (le : s ≤ maxScale) (decimal : ∀ d ∈ digits, d < 10)
    (equal : v * 10 ^ s = n + fractionOf digits) : ReadsFraction v (readFraction? n s digits) := by
  induction digits generalizing n s with
  | nil =>
    rw [fractionOf_nil, add_zero] at equal
    have itself : magnitude (n, s) = v := by
      rw [magnitude, div_eq_iff (by positivity), equal]
    have bound : (n : ℚ) + 1 ≤ capacity := by exact_mod_cast small
    have nonneg : 0 ≤ v := by
      rw [← itself, magnitude]
      positivity
    refine ⟨lt_of_scaled_lt (s := s) nonneg (by linarith), ?_, fun _ => itself⟩
    rw [itself, sub_self, abs_zero]
    positivity
  | cons d rest ih =>
    have digit : d < 10 := decimal d List.mem_cons_self
    have others : ∀ d ∈ rest, d < 10 := fun d member => decimal d (List.mem_cons_of_mem _ member)
    have digit_le : (d : ℚ) + 1 ≤ 10 := by exact_mod_cast digit
    have tail_nonneg := fractionOf_nonneg rest
    have tail_lt := fractionOf_lt_one others
    have further : v * 10 ^ (s + 1) = (n * 10 + d : ℕ) + fractionOf rest := by
      rw [pow_succ, ← mul_assoc, equal, fractionOf_cons]
      push_cast
      ring
    rw [fractionOf_cons] at equal
    rw [readFraction?]
    split
    · next more => exact ih more.2 more.1 others further
    · next full =>
      refine readsFraction_round small ?_ ?_ ?_ ?_ ?_
      · have scaled : 0 ≤ v * 10 ^ s := by
          rw [equal]
          positivity
        exact nonneg_of_mul_nonneg_left scaled (by positivity)
      · rcases le.eq_or_lt with last | before
        · exact .inl last
        · have large : capacity ≤ n * 10 + d := Nat.le_of_not_lt fun fits => full ⟨before, fits⟩
          have large : (capacity : ℚ) ≤ (n * 10 + d : ℕ) := by exact_mod_cast large
          exact .inr (by linarith)
      · rw [equal]
        have : 0 ≤ (d + fractionOf rest) / 10 := by positivity
        linarith
      · rw [equal]
        linarith
      · rw [equal]
        constructor
        · intro low
          have low : (d : ℚ) + 1 ≤ 5 := by exact_mod_cast low
          linarith
        · intro before
          have low : (d : ℚ) < 5 := by linarith
          exact_mod_cast low

/-- `d` is the number that is read where `v` is written. -/
structure ReadAs (v : ℚ) (d : Decimal) : Prop where
  wellFormed : d.WellFormed
  near : |d.value - v| ≤ 1 / 2 / 10 ^ d.scale
  exact : Representable v → d.value = v
  sign : d.isZero = false → SignType.sign d.value = SignType.sign v
  unsigned : d.isZero = true → d.negative = false

theorem representable_unit (negative : Bool) : Representable (unit negative * v) ↔ Representable v := by
  simp only [Representable, abs_mul, abs_unit, one_mul]

theorem representable_zero : Representable 0 :=
  ⟨0, 0, by decide, by decide, by norm_num⟩

theorem Taken.readAs {m t : ℕ} (taken : Taken v (m, t)) (fits : Fits (m, t)) (nonneg : 0 ≤ v)
    (negative : Bool) : ReadAs (unit negative * v) (ofParts negative m t) := by
  have value : (ofParts negative m t).value = unit negative * magnitude (m, t) := value_ofParts negative m t
  refine ⟨wellFormed_ofParts fits, ?_, ?_, ?_, ?_⟩
  · rw [value, ← mul_sub, abs_mul, abs_unit, one_mul]
    exact taken.near
  · intro representable
    rw [value, taken.exact ((representable_unit negative).mp representable)]
  · intro nonzero
    have some : 0 < magnitude (m, t) := by
      have positive : 0 < m := coefficient_pos nonzero
      unfold magnitude
      positivity
    have above : 0 < v := by
      refine lt_of_le_of_ne nonneg fun zero => some.ne' ?_
      rw [taken.exact (zero ▸ representable_zero), zero]
    rw [value, sign_mul, sign_mul, sign_pos some, sign_pos above]
  · intro zero
    have none : m = 0 := beq_iff_eq.mp zero
    rw [ofParts, none]
    exact Bool.and_false _

theorem ofDigits?_readAs {whole fraction : List ℕ} (negative : Bool) (decimal : ∀ d ∈ fraction, d < 10) :
    let v : ℚ := numberOf whole + fractionOf fraction
    match ofDigits? negative whole fraction with
    | none => capacity - 1 / 2 ≤ v
    | some d => v < capacity - 1 / 2 ∧ ReadAs (unit negative * v) d := by
  intro v
  have nonneg := fractionOf_nonneg fraction
  have start : readWhole? 0 whole = if numberOf whole < capacity then some (numberOf whole) else none := by
    rw [readWhole?_eq (by decide), Nat.zero_mul, Nat.zero_add]
  by_cases small : numberOf whole < capacity
  · rw [if_pos small] at start
    have reads : ReadsFraction v (readFraction? (numberOf whole) 0 fraction) :=
      readFraction?_reads small (Nat.zero_le _) decimal (by rw [pow_zero, mul_one])
    have fits := readFraction?_fits fraction ⟨small, Nat.zero_le _⟩
    simp only [ofDigits?, start, Option.bind_eq_bind, Option.bind_some]
    cases found : readFraction? (numberOf whole) 0 fraction with
    | none =>
      rw [found] at reads
      exact reads
    | some parts =>
      rw [found] at reads
      exact ⟨reads.below, reads.readAs (fits parts found) (by positivity) negative⟩
  · rw [if_neg small] at start
    have large : (capacity : ℚ) ≤ numberOf whole := by exact_mod_cast Nat.le_of_not_lt small
    simp only [ofDigits?, start, Option.bind_eq_bind, Option.bind_none]
    show (capacity : ℚ) - 1 / 2 ≤ numberOf whole + fractionOf fraction
    linarith

end Decimal

namespace Numeral
open Decimal
variable {run : List UInt8} {n : Numeral} {negative : Bool}

/-- The text `[0-9]*(\.[0-9]*)?` with the digits of `n`. -/
structure SpellsUnsigned (run : List UInt8) (n : Numeral) : Prop where
  whole : ∀ b ∈ n.whole, isDigit b = true
  fraction : ∀ b ∈ n.fraction, isDigit b = true
  text : run = n.whole ∧ n.fraction = [] ∨ run = n.whole ++ point :: n.fraction

def signBytes (negative : Bool) : List UInt8 := if negative then [minus] else []

/-- The text `-?[0-9]*(\.[0-9]*)?` with the parts `n`. -/
def Spells (run : List UInt8) (n : Numeral) : Prop :=
  ∃ unsigned, run = signBytes n.negative ++ unsigned ∧ SpellsUnsigned unsigned n

/-- The number that is written. -/
def number (n : Numeral) : ℚ :=
  unit n.negative * (numberOf (n.whole.map digitValue) + fractionOf (n.fraction.map digitValue))

theorem digitValue_lt {b : UInt8} (digit : isDigit b = true) : digitValue b < 10 := by
  simp only [isDigit, Bool.and_eq_true, decide_eq_true_eq, UInt8.le_iff_toNat_le] at digit
  change b.toNat - 48 < 10
  have most : b.toNat ≤ 57 := digit.2
  omega

theorem map_digitValue_lt {bytes : List UInt8} (digits : ∀ b ∈ bytes, isDigit b = true) :
    ∀ d ∈ bytes.map digitValue, d < 10 := by
  intro d member
  obtain ⟨b, among, rfl⟩ := List.mem_map.mp member
  exact digitValue_lt (digits b among)

theorem ofUnsigned?_eq_some_iff :
    ofUnsigned? negative run = some n ↔ n.negative = negative ∧ SpellsUnsigned run n := by
  constructor
  · intro read
    have parts := List.takeWhile_append_dropWhile (p := isDigit) (l := run)
    unfold ofUnsigned? at read
    split at read
    · next all =>
      cases read
      exact ⟨rfl, List.dropWhile_eq_nil_iff.mp all, nofun, .inl ⟨rfl, rfl⟩⟩
    · next b fraction found =>
      split at read
      · next pointed =>
        cases read
        rw [Bool.and_eq_true, beq_iff_eq] at pointed
        obtain ⟨rfl, digits⟩ := pointed
        refine ⟨rfl, fun b => List.mem_takeWhile_imp, List.all_eq_true.mp digits, .inr ?_⟩
        rw [← found, parts]
      · cases read
  · obtain ⟨sign, whole, fraction⟩ := n
    rintro ⟨rfl, digits, digits', ⟨rfl, rfl⟩ | rfl⟩
    · rw [ofUnsigned?, List.dropWhile_eq_nil_iff.mpr digits]
    · have stop : ∀ b ∈ (point :: fraction).head?, isDigit b = false := by
        rintro _ ⟨⟩
        rfl
      have all : fraction.all isDigit = true := List.all_eq_true.mpr digits'
      rw [ofUnsigned?, Token.dropWhile_append_of_ends digits stop, Token.takeWhile_append_of_ends digits stop]
      simp [all]

/-- Digits and points are no minus signs, so the sign of a run is seen in its first byte. -/
theorem SpellsUnsigned.head_ne (spells : SpellsUnsigned run n) : ∀ b ∈ run.head?, b ≠ minus := by
  rintro _ first rfl
  obtain ⟨sign, whole, fraction⟩ := n
  obtain ⟨digits, -, text⟩ := spells
  cases whole with
  | nil => rcases text with ⟨rfl, -⟩ | rfl <;> cases first
  | cons b whole =>
    have digit : isDigit b = true := digits b List.mem_cons_self
    rcases text with ⟨rfl, -⟩ | rfl
    · cases first
      cases digit
    · cases first
      cases digit

theorem ofRun?_of_head_ne (unsigned : ∀ b ∈ run.head?, b ≠ minus) : ofRun? run = ofUnsigned? false run := by
  cases run with
  | nil => rfl
  | cons b rest => exact if_neg (mt beq_iff_eq.mp (unsigned b rfl))

/-- The parts of a run are found exactly where it is a numeral. -/
theorem ofRun?_eq_some_iff : ofRun? run = some n ↔ Spells run n := by
  constructor
  · intro read
    by_cases unsigned : ∀ b ∈ run.head?, b ≠ minus
    · rw [ofRun?_of_head_ne unsigned] at read
      obtain ⟨sign, spells⟩ := ofUnsigned?_eq_some_iff.mp read
      exact ⟨run, sign ▸ rfl, spells⟩
    · cases run with
      | nil => exact absurd nofun unsigned
      | cons b rest =>
        obtain rfl : b = minus := by simpa using unsigned
        obtain ⟨sign, spells⟩ := ofUnsigned?_eq_some_iff.mp read
        exact ⟨rest, sign ▸ rfl, spells⟩
  · rintro ⟨unsigned, rfl, spells⟩
    cases sign : n.negative with
    | true => exact ofUnsigned?_eq_some_iff.mpr ⟨sign, spells⟩
    | false =>
      change ofRun? unsigned = some n
      rw [ofRun?_of_head_ne spells.head_ne]
      exact ofUnsigned?_eq_some_iff.mpr ⟨sign, spells⟩

theorem abs_number (n : Numeral) :
    |n.number| = numberOf (n.whole.map digitValue) + fractionOf (n.fraction.map digitValue) := by
  have nonneg := fractionOf_nonneg (n.fraction.map digitValue)
  rw [number, abs_mul, abs_unit, one_mul, abs_of_nonneg (by positivity)]

theorem toDecimal?_readAs (spells : Spells run n) : match n.toDecimal? with
    | none => capacity - 1 / 2 ≤ |n.number|
    | some d => |n.number| < capacity - 1 / 2 ∧ ReadAs n.number d := by
  obtain ⟨unsigned, -, spells⟩ := spells
  rw [abs_number]
  exact ofDigits?_readAs n.negative (map_digitValue_lt spells.fraction)

theorem read?_eq_none_iff : read? run = none ↔ ∀ b ∈ run, isDigit b = false := by
  rw [read?]
  split
  · next digit =>
    obtain ⟨b, among, digit⟩ := List.any_eq_true.mp digit
    refine iff_of_false nofun fun none => ?_
    rw [none b among] at digit
    cases digit
  · next none =>
    rw [List.any_eq_true, not_exists] at none
    exact iff_of_true rfl fun b among => Bool.eq_false_iff.mpr fun digit => none b ⟨among, digit⟩

theorem read?_of_digit (digit : ∃ b ∈ run, isDigit b = true) : read? run =
    some (((ofRun? run).bind toDecimal?).elim (.error (.malformedNumber (text run))) .ok) :=
  if_pos (List.any_eq_true.mpr digit)

theorem read?_of_spells (digit : ∃ b ∈ run, isDigit b = true) (spells : Spells run n) :
    read? run = some (n.toDecimal?.elim (.error (.malformedNumber (text run))) .ok) := by
  rw [read?_of_digit digit, ofRun?_eq_some_iff.mpr spells]
  rfl

theorem read?_of_not_spells (digit : ∃ b ∈ run, isDigit b = true) (other : ¬∃ n, Spells run n) :
    read? run = some (.error (.malformedNumber (text run))) := by
  have unread : ofRun? run = .none :=
    Option.eq_none_iff_forall_not_mem.mpr fun n read => other ⟨n, ofRun?_eq_some_iff.mp read⟩
  rw [read?_of_digit digit, unread]
  rfl

/-- A numeral is malformed if its number is too large, and otherwise a number is read for it. -/
theorem read?_cases (digit : ∃ b ∈ run, isDigit b = true) (spells : Spells run n) :
    capacity - 1 / 2 ≤ |n.number| ∧ read? run = some (.error (.malformedNumber (text run))) ∨
      |n.number| < capacity - 1 / 2 ∧ ∃ d, read? run = some (.ok d) ∧ ReadAs n.number d := by
  have found := toDecimal?_readAs spells
  rw [read?_of_spells digit spells]
  cases read : n.toDecimal? with
  | none =>
    rw [read] at found
    exact .inl ⟨found, rfl⟩
  | some d =>
    rw [read] at found
    exact .inr ⟨found.1, d, rfl, found.2⟩

/-- A run without digits is no number; a run that is no numeral, or one for a number that is
too large, is malformed; of the others the number is read, exactly if the format has it. -/
theorem read?_numeral (run : List UInt8) :
    (read? run = none ↔ ∀ b ∈ run, isDigit b = false) ∧
    (read? run = some (.error (.malformedNumber (text run))) ↔ (∃ b ∈ run, isDigit b = true) ∧
      ((¬∃ n, Spells run n) ∨ ∃ n, Spells run n ∧ 2 ^ 96 - 1 / 2 ≤ |n.number|)) ∧
    ∀ n, Spells run n → (∃ b ∈ run, isDigit b = true) → |n.number| < 2 ^ 96 - 1 / 2 →
      ∃ d, read? run = some (.ok d) ∧ ReadAs n.number d := by
  rw [← capacity_eq_pow]
  refine ⟨read?_eq_none_iff, ⟨fun malformed => ?_, ?_⟩, fun n spells digit small => ?_⟩
  · have digit : ∃ b ∈ run, isDigit b = true := by
      by_contra blank
      have unread : read? run = none := read?_eq_none_iff.mpr fun b among =>
        Bool.eq_false_iff.mpr fun digit => blank ⟨b, among, digit⟩
      rw [unread] at malformed
      cases malformed
    refine ⟨digit, or_iff_not_imp_left.mpr fun some => ?_⟩
    obtain ⟨n, spells⟩ := not_not.mp some
    rcases read?_cases digit spells with ⟨large, _⟩ | ⟨_, d, read, _⟩
    · exact ⟨n, spells, large⟩
    · rw [read] at malformed
      cases malformed
  · rintro ⟨digit, other | ⟨n, spells, large⟩⟩
    · exact read?_of_not_spells digit other
    · rcases read?_cases digit spells with ⟨_, malformed⟩ | ⟨small, _⟩
      · exact malformed
      · exact absurd large (not_le.mpr small)
  · rcases read?_cases digit spells with ⟨large, _⟩ | ⟨_, found⟩
    · exact absurd small (not_lt.mpr large)
    · exact found

/-- The digits before the point and the first behind it fill the format, the next one carries. -/
theorem read?_numeral_carry :
    let run := bytes "-7922816251426433759354395033.55"
    let n : Numeral := ⟨true, bytes "7922816251426433759354395033", bytes "55"⟩
    let d : Decimal := ⟨true, 7922816251426433759354395034, 0⟩
    Spells run n ∧ (∃ b ∈ run, isDigit b = true) ∧ |n.number| < 2 ^ 96 - 1 / 2 ∧
      read? run = some (.ok d) ∧ ReadAs n.number d := by
  intro run n d
  have spells : Spells run n := ofRun?_eq_some_iff.mp (by decide +kernel)
  have digit : ∃ b ∈ run, isDigit b = true := ⟨55, by decide +kernel, rfl⟩
  have whole : numberOf (n.whole.map digitValue) = 7922816251426433759354395033 := by decide +kernel
  have fraction : numberOf (n.fraction.map digitValue) = 55 := by decide +kernel
  have small : |n.number| < 2 ^ 96 - 1 / 2 := by
    rw [abs_number, whole, fractionOf, fraction]
    have length : (n.fraction.map digitValue).length = 2 := by decide +kernel
    rw [length]
    norm_num
  obtain ⟨e, read, readAs⟩ := (read?_numeral run).2.2 n spells digit small
  have computed : read? run = some (.ok d) := by rfl
  have same : e = d := by
    rw [computed] at read
    cases read
    rfl
  exact ⟨spells, digit, small, computed, same ▸ readAs⟩

end Numeral

end StackCalculator

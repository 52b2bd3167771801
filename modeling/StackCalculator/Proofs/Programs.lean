import StackCalculator.Proofs.Runs
import StackCalculator.Proofs.Scanning

/-! Programs as sequences of tokens. Two programs with a separator between them run
one after the other, wherever the first one ends. What a program does to the stack
is decided by the tokens that have an effect; written with single blanks between
them they are a program that does the same. -/
namespace StackCalculator
open Ascii

variable {options : Options} {s : Stack}

/-- The stack, the log and the error of the whole are those of the parts; a part after
an error does not run. -/
theorem execute_separated (options : Options) (first last : List UInt8) {separator : List UInt8}
    (present : separator ≠ []) (ignorable : ∀ b ∈ separator, isIgnorable b = true) (s : Stack) :
    execute options (first ++ separator ++ last) s =
      (execute options first s).andThen (execute options last) := by
  have tokens : Token.scan Operator.startsWith (first ++ separator ++ last) =
      Token.scan Operator.startsWith first ++ Token.scan Operator.startsWith last := by
    rw [List.append_assoc, Token.scan_append (.of_ignorable present ignorable last),
      Token.scan_blanks_append ignorable]
  unfold execute
  rw [tokens, runTokens_append]

/-- The first program ends in the middle of a number run, which would swallow the
number after it. -/
theorem execute_separated_runs :
    let first := bytes "1 2 add -"
    let last := bytes "3mul)"
    let separator := bytes "\n\x7d"
    separator ≠ [] ∧ (∀ b ∈ separator, isIgnorable b = true) ∧
      execute {} (first ++ separator ++ last) [.boolean true] =
        (execute {} first [.boolean true]).andThen (execute {} last) ∧
      (execute {} (first ++ separator ++ last) [.boolean true]).stack = [.ofInt 9, .boolean true] := by
  intro first last separator
  have present : separator ≠ [] := by decide
  have ignorable : ∀ b ∈ separator, isIgnorable b = true := List.all_eq_true.mp (by decide)
  exact ⟨present, ignorable, execute_separated {} first last present ignorable [.boolean true],
    by decide +kernel⟩

/-- Stray bytes and number runs without a digit do nothing but report themselves. -/
def Token.isEffective : Token → Bool
  | number run => run.any isDigit
  | operator _ => true
  | stray _ => false

def effectiveTokens (script : List UInt8) : List Token :=
  (Token.scan Operator.startsWith script).filter Token.isEffective

def blank : UInt8 := 32

/-- The tokens of a program that have an effect, with single blanks between them. -/
def canonical (script : List UInt8) : List UInt8 :=
  [blank].intercalate ((effectiveTokens script).map Token.bytes)

theorem effectiveTokens_canonical (script : List UInt8) :
    effectiveTokens (canonical script) = effectiveTokens script := by
  have lexemes : ∀ t ∈ effectiveTokens script, Token.Lexeme Operator.startsWith t :=
    fun t member => Token.lexeme_of_mem_scan (List.mem_filter.mp member).1
  have tokens : Token.scan Operator.startsWith (canonical script) = effectiveTokens script :=
    Token.scan_intercalate (List.cons_ne_nil _ _) (List.forall_mem_singleton.mpr rfl) lexemes
  have again : (effectiveTokens script).filter Token.isEffective = effectiveTokens script :=
    List.filter_eq_self.mpr fun t member => (List.mem_filter.mp member).2
  rw [effectiveTokens, tokens, again]

theorem Token.effect_of_ineffective {t : Token} (ineffective : t.isEffective = false) :
    (t.run options s).effect = (s, .ok ()) := by
  cases t with
  | number run =>
    have skipped : Numeral.read? run = none := if_neg (by simpa [isEffective] using ineffective)
    simp only [Token.run, runNumber, skipped]
    rfl
  | operator run => contradiction
  | stray byte => rfl

theorem effect_runTokens_filter (tokens : List Token) (s : Stack) :
    (runTokens options (tokens.filter Token.isEffective) s).effect =
      (runTokens options tokens s).effect := by
  induction tokens generalizing s with
  | nil => rfl
  | cons t rest ih =>
    cases effective : t.isEffective with
    | true =>
      rw [List.filter_cons_of_pos effective, runTokens_cons, runTokens_cons]
      exact Run.effect_andThen rfl ih
    | false =>
      -- The token is dropped on the left and runs like an empty step on the right.
      have nothing : (t.run options s).effect = (s, .ok ()) := Token.effect_of_ineffective effective
      have same : (Run.ofOutcome [] none (.done s)).effect = (t.run options s).effect := nothing.symm
      rw [List.filter_cons_of_neg (by simp [effective]), runTokens_cons,
        ← Run.effect_andThen same ih, Run.done_andThen]

theorem effect_execute (script : List UInt8) (s : Stack) :
    (execute options script s).effect = (runTokens options (effectiveTokens script) s).effect :=
  (effect_runTokens_filter _ s).symm

/-- A program leaves the stack and the error that its canonical text leaves, and that
any other program with the same effective tokens leaves. -/
theorem execute_canonical (options : Options) (script : List UInt8) (s : Stack) :
    (execute options (canonical script) s).effect = (execute options script s).effect ∧
      ∀ other, effectiveTokens other = effectiveTokens script →
        (execute options other s).effect = (execute options script s).effect := by
  have decided : ∀ other, effectiveTokens other = effectiveTokens script →
      (execute options other s).effect = (execute options script s).effect := by
    intro other same
    rw [effect_execute, effect_execute, same]
  exact ⟨decided _ (effectiveTokens_canonical script), decided⟩

/-- A letter that starts no operator is skipped in front of one, and so are braces, a
lone minus sign and a lone point. -/
theorem execute_effective_tokens :
    let script := bytes "\x7bh1 - 2%add hdup\x7d."
    let other := bytes "1 2 add dup"
    effectiveTokens other = effectiveTokens script ∧
      (execute {} (canonical script) []).effect = (execute {} script []).effect ∧
      (execute {} other []).effect = (execute {} script []).effect := by
  intro script other
  have same : effectiveTokens other = effectiveTokens script := by decide +kernel
  have decided := execute_canonical {} script []
  exact ⟨same, decided.1, decided.2 other same⟩

end StackCalculator

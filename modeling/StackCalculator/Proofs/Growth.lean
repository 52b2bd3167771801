import StackCalculator.Proofs.Calls
import StackCalculator.Proofs.Depth
import StackCalculator.Proofs.Rules

/-! How much the stack grows. An operator that completes adds or takes a number of entries
of its own, whatever the entries are; only `copy` is told that number by one of them. So
the text of a program without `copy` decides alone how many entries it leaves more than it
found, and a function with that program returns as many numbers as its arguments and that
growth make. -/
namespace StackCalculator

/-- The entries that an operator leaves more than it found. `copy` has no such number and is
left out where this is used. -/
def Operator.growth : Operator → Int
  | unary _ | stack .exch | stack .index | stack .copy => 0
  | binary _ | stack .pop => -1
  | constant _ | stack .dup => 1
  | stack .roll => -2

def Token.growth : Token → Int
  | number run => if run.any Ascii.isDigit then 1 else 0
  | operator run => (Operator.ofSpelling? run).elim 0 Operator.growth
  | stray _ => 0

def growth : List Token → Int
  | [] => 0
  | t :: rest => t.growth + growth rest

/-- The only token that makes a stack grow by as much as an entry says. -/
def copyToken : Token := .operator (Operator.spelling (.stack .copy))

namespace Operator
variable {options : Options} {op : Operator} {s left : Stack}

theorem Completes.growth (completes : op.Completes options s left) (other : op ≠ .stack .copy) :
    (left.length : Int) = s.length + op.growth := by
  cases completes with
  | copy counted present room => exact absurd rfl other
  | roll taken positive present turned =>
    simp only [Stack.length_rotate, Operator.growth, List.length_cons]
    omega
  | unary | binary | constant | pop | dup | exch | index | rollNone =>
    simp only [Operator.growth, List.length_cons]
    omega

theorem spelling_of_ofSpelling? {run : List UInt8} (found : ofSpelling? run = some op) :
    op.spelling = run := by
  have spelled := List.find?_some (p := fun op : Operator => op.spelling == run) found
  exact beq_iff_eq.mp spelled

end Operator

variable {options : Options} {s : Stack}

theorem Token.run_growth (t : Token) (other : t ≠ copyToken)
    (completed : (t.run options s).result = .ok ()) :
    ((t.run options s).stack.length : Int) = s.length + t.growth := by
  cases t with
  | number digits =>
    simp only [Token.run, runNumber, Token.growth] at completed ⊢
    by_cases present : digits.any Ascii.isDigit = true
    · obtain ⟨number, read⟩ : ∃ number, Numeral.read? digits = some number := ⟨_, if_pos present⟩
      rw [read] at completed ⊢
      rw [if_pos present]
      obtain ⟨v, _, pushed⟩ := Stack.pushResult_eq_done (Run.done_of_ofOutcome completed)
      exact congrArg (fun left => (List.length left : Int)) pushed
    · have skipped : Numeral.read? digits = none := if_neg present
      rw [skipped, if_neg present]
      exact (Int.add_zero _).symm
  | operator name =>
    simp only [Token.run, runOperator, Token.growth] at completed ⊢
    cases found : Operator.ofSpelling? name with
    | none =>
      rw [found] at completed
      cases completed
    | some op =>
      rw [found] at completed
      have named : op.spelling = name := Operator.spelling_of_ofSpelling? found
      have another : op ≠ .stack .copy := by
        rintro rfl
        exact other (congrArg Token.operator named.symm)
      exact (Operator.completes_of_done (Run.done_of_ofOutcome completed)).growth another
  | stray byte => exact (Int.add_zero _).symm

theorem runTokens_growth (tokens : List Token) (absent : copyToken ∉ tokens)
    (completed : (runTokens options tokens s).result = .ok ()) :
    ((runTokens options tokens s).stack.length : Int) = s.length + growth tokens := by
  induction tokens generalizing s with
  | nil => exact (Int.add_zero _).symm
  | cons t rest ih =>
    rw [runTokens_cons] at completed ⊢
    cases ended : (t.run options s).result with
    | error e =>
      rw [Run.andThen_of_error ended, ended] at completed
      cases completed
    | ok =>
      rw [Run.andThen_of_ok ended] at completed ⊢
      have other : t ≠ copyToken := (List.ne_of_not_mem_cons absent).symm
      have first : ((t.run options s).stack.length : Int) = s.length + t.growth :=
        t.run_growth other ended
      have continued := ih (List.not_mem_of_not_mem_cons absent) completed
      simp only [growth] at continued ⊢
      omega

theorem length_pushAll (arguments : List Decimal)
    (completed : (pushAll options arguments s).result = .ok ()) :
    (pushAll options arguments s).stack.length = s.length + arguments.length := by
  induction arguments generalizing s with
  | nil => rfl
  | cons d rest ih =>
    simp only [pushAll] at completed ⊢
    cases ended : (Run.ofOutcome [] none (Stack.push options.maxStackDepth (.number d) s)).result with
    | error e =>
      rw [Run.andThen_of_error ended, ended] at completed
      cases completed
    | ok =>
      have pushed := Stack.push_eq_done (Run.done_of_ofOutcome ended)
      rw [Run.andThen_of_ok ended] at completed ⊢
      have continued := ih completed
      simp only [Run.ofOutcome, pushed.2, List.length_cons] at continued ⊢
      omega

theorem Stack.length_outputs {numbers : List Decimal} (returned : s.outputs = .ok numbers) :
    numbers.length = s.length := by
  have each : ∀ (values : List Value) (position : Nat) (numbers : List Decimal),
      numbersFrom position values = .ok numbers → numbers.length = values.length := by
    intro values
    induction values with
    | nil =>
      intro position numbers found
      cases found
      rfl
    | cons v rest ih =>
      intro position numbers found
      cases v with
      | boolean b => cases found
      | number d =>
        simp only [numbersFrom] at found
        cases continued : numbersFrom (position + 1) rest with
        | error fault =>
          rw [continued] at found
          cases found
        | ok others =>
          rw [continued] at found
          cases found
          exact congrArg (· + 1) (ih (position + 1) others continued)
  exact (each s.reverse 0 numbers returned).trans List.length_reverse

theorem evaluate_growth {script : List UInt8} {arguments outputs : List Decimal}
    (absent : copyToken ∉ Token.scan Operator.startsWith script)
    (returned : (evaluate options script arguments).result = .ok outputs) :
    (outputs.length : Int) = arguments.length + growth (Token.scan Operator.startsWith script) := by
  obtain ⟨completed, found⟩ := Run.outputs_of_finish returned
  rw [Stack.length_outputs found]
  cases pushed : (pushAll options arguments []).result with
  | error e =>
    rw [Run.andThen_of_error pushed, pushed] at completed
    cases completed
  | ok =>
    simp only [Run.andThen_of_ok pushed, execute] at completed ⊢
    have present : (pushAll options arguments []).stack.length = arguments.length :=
      (length_pushAll arguments pushed).trans (Nat.zero_add _)
    rw [runTokens_growth _ absent completed, present]

/-- The number of outputs of a call, delivered or refused for their number. -/
def Call.outputCount? (c : Call) : Option Nat :=
  match c.result with
  | .ok outputs => some outputs.length
  | .error (.outputCount _ returned) => some returned
  | .error _ => none

theorem CalcFunction.eval_of_exec {f : CalcFunction} {arguments : List Single}
    (counted : (f.exec arguments).outputCount? = some count) :
    ∃ decimals outputs, decimals.length = arguments.length ∧
      (f.eval decimals).result = .ok outputs ∧ outputs.length = count := by
  have called := f.calls_exec arguments
  generalize f.exec arguments = call at called counted
  cases called with
  | rejected | failed => cases counted
  | miscounted converted returned =>
    exact ⟨_, _, (List.Forall₂.length_eq converted).symm, returned, Option.some.inj counted⟩
  | delivered converted returned _ delivered =>
    refine ⟨_, _, (List.Forall₂.length_eq converted).symm, returned, ?_⟩
    exact (List.Forall₂.length_eq delivered).trans (Option.some.inj counted)

/-- A program without `copy` that succeeds makes every stack grow by one and the same number
of entries. A function with it returns, or refuses, as many outputs as its arguments and that
number make. -/
theorem execute_growth (script : List UInt8)
    (absent : copyToken ∉ Token.scan Operator.startsWith script) :
    (∀ options s, (execute options script s).result = .ok () →
      ((execute options script s).stack.length : Int) =
        s.length + growth (Token.scan Operator.startsWith script)) ∧
    ∀ f : CalcFunction, f.script = script →
      (∀ arguments outputs, (f.eval arguments).result = .ok outputs →
        (outputs.length : Int) =
          arguments.length + growth (Token.scan Operator.startsWith script)) ∧
      ∀ arguments count, (f.exec arguments).outputCount? = some count →
        (count : Int) = arguments.length + growth (Token.scan Operator.startsWith script) := by
  refine ⟨?_, ?_⟩
  · intro options s completed
    exact runTokens_growth _ absent completed
  · rintro f rfl
    refine ⟨fun arguments outputs returned => evaluate_growth absent returned, ?_⟩
    intro arguments count counted
    obtain ⟨decimals, outputs, given, returned, rfl⟩ := CalcFunction.eval_of_exec counted
    rw [evaluate_growth absent returned, given]

/-- A roll of no entries, a skipped letter and a lone minus sign; the function wants more
outputs than its program can leave. -/
theorem execute_growth_rolled :
    let script := Ascii.bytes "\x7b dup 0 9 roll hexch - 1 index div true not pop . \x7d"
    let f : CalcFunction := ⟨script, 3, {}⟩
    let seven : Single := ⟨1088421888⟩
    copyToken ∉ Token.scan Operator.startsWith script ∧
      growth (Token.scan Operator.startsWith script) = 1 ∧
      ((execute {} script [.ofInt 7]).result = .ok () ∧
        ((execute {} script [.ofInt 7]).stack.length : Int) = 1 + 1) ∧
      ((f.eval [.ofInt 7]).result = .ok [.ofInt 7, .ofInt 1] ∧
        ([.ofInt 7, .ofInt 1] : List Decimal).length = (1 + 1 : Int)) ∧
      (f.exec [seven]).outputCount? = some 2 ∧ ((2 : Nat) : Int) = 1 + 1 := by
  intro script f seven
  have absent : copyToken ∉ Token.scan Operator.startsWith script := by decide +kernel
  have one : growth (Token.scan Operator.startsWith script) = 1 := by decide +kernel
  have completed : (execute {} script [.ofInt 7]).result = .ok () := by decide +kernel
  have returned : (f.eval [.ofInt 7]).result = .ok [.ofInt 7, .ofInt 1] := by decide +kernel
  have refused : (f.exec [seven]).outputCount? = some 2 := by decide +kernel
  obtain ⟨run, calls⟩ := execute_growth script absent
  have left := run {} [.ofInt 7] completed
  obtain ⟨evaluations, counts⟩ := calls f rfl
  have outputs := evaluations [.ofInt 7] _ returned
  have counted := counts [seven] 2 refused
  rw [one] at left outputs counted
  exact ⟨absent, one, ⟨completed, left⟩, ⟨returned, outputs⟩, refused, counted⟩

end StackCalculator

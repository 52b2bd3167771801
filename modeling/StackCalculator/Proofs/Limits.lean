import StackCalculator.Proofs.Runs

/-! Evaluations under a higher limit on the depth. The limit is asked for arguments,
numbers and the values of operators that are pushed, and for entries that are copied,
and each time it only stops what would pass it. So an evaluation that does not end in
an overflow reports and returns the same under every higher limit. -/
namespace StackCalculator

/-- A sequence ends with a fault only where one of its parts does. -/
theorem Outcome.andThen_result_ne {o : Outcome} {next : Stack → Outcome}
    (absent : (o.andThen next).result ≠ .error fault) :
    o.result ≠ .error fault ∧ (o.result = .ok () → (next o.stack).result ≠ .error fault) := by
  constructor
  · intro failed
    rw [andThen_of_error failed] at absent
    exact absent failed
  · intro completed
    rwa [andThen_of_ok completed] at absent

namespace Stack
variable {limit higher : Nat} {s : Stack}

theorem push_of_le (v : Value) (le : limit ≤ higher)
    (fits : (s.push limit v).result ≠ .error .stackOverflow) : s.push higher v = s.push limit v := by
  unfold push at fits ⊢
  by_cases room : s.length < limit
  · rw [if_pos room, if_pos (Nat.lt_of_lt_of_le room le)]
  · rw [if_neg room] at fits
    exact absurd rfl fits

theorem pushResult_of_le (result : Except Fault Value) (le : limit ≤ higher)
    (fits : (s.pushResult limit result).result ≠ .error .stackOverflow) :
    s.pushResult higher result = s.pushResult limit result := by
  cases result with
  | ok v => exact push_of_le v le fits
  | error fault => rfl

theorem dup_of_le (le : limit ≤ higher) (fits : (dup limit s).result ≠ .error .stackOverflow) :
    dup higher s = dup limit s := by
  cases s with
  | nil => rfl
  | cons v rest => exact push_of_le v le fits

theorem exch_of_le (le : limit ≤ higher) (fits : (exch limit s).result ≠ .error .stackOverflow) :
    exch higher s = exch limit s := by
  match s with
  | [] | [_] => rfl
  | w :: v :: rest =>
    obtain ⟨first, second⟩ := Outcome.andThen_result_ne fits
    have lower : push higher w rest = push limit w rest := push_of_le w le first
    simp only [exch, lower]
    cases ended : (push limit w rest).result with
    | error fault => rw [Outcome.andThen_of_error ended, Outcome.andThen_of_error ended]
    | ok =>
      rw [Outcome.andThen_of_ok ended, Outcome.andThen_of_ok ended]
      exact push_of_le v le (second ended)

/-- An underflow comes before an overflow under both limits. -/
theorem copyTop_of_le (n : Nat) (le : limit ≤ higher)
    (fits : (copyTop limit n s).result ≠ .error .stackOverflow) :
    copyTop higher n s = copyTop limit n s := by
  unfold copyTop at fits ⊢
  by_cases shallow : s.length < n
  · rw [if_pos shallow, if_pos shallow]
  · rw [if_neg shallow] at fits ⊢
    by_cases full : limit < s.length + n
    · rw [if_pos full] at fits
      exact absurd rfl fits
    · have room : ¬higher < s.length + n := by omega
      rw [if_neg shallow, if_neg full, if_neg room]

theorem copy_of_le (le : limit ≤ higher) (fits : (copy limit s).result ≠ .error .stackOverflow) :
    copy higher s = copy limit s := by
  cases s with
  | nil => rfl
  | cons count rest =>
    simp only [copy] at fits ⊢
    cases counted : count.toCount 1 with
    | error fault => rfl
    | ok n =>
      rw [counted] at fits
      exact copyTop_of_le n le fits

theorem index_of_le (le : limit ≤ higher) (fits : (index limit s).result ≠ .error .stackOverflow) :
    index higher s = index limit s := by
  cases s with
  | nil => rfl
  | cons count rest =>
    simp only [index, pick] at fits ⊢
    cases counted : count.toCount 1 with
    | error fault => rfl
    | ok n =>
      simp only [counted] at fits ⊢
      cases found : rest[n]? with
      | none => rfl
      | some v =>
        rw [found] at fits
        exact push_of_le v le fits

end Stack

/-- The same precision and another depth. -/
def Options.withDepth (options : Options) (depth : Nat) : Options :=
  { options with maxStackDepth := depth }

variable {options : Options} {higher : Nat} {s : Stack}

theorem UnaryOp.run_withDepth (op : UnaryOp) (le : options.maxStackDepth ≤ higher)
    (fits : (op.run options s).result ≠ .error .stackOverflow) :
    op.run (options.withDepth higher) s = op.run options s := by
  cases s with
  | nil => rfl
  | cons v rest => exact Stack.pushResult_of_le _ le fits

theorem BinaryOp.run_withDepth (op : BinaryOp) (le : options.maxStackDepth ≤ higher)
    (fits : (op.run options s).result ≠ .error .stackOverflow) :
    op.run (options.withDepth higher) s = op.run options s := by
  match s with
  | [] | [_] => rfl
  | w :: v :: rest => exact Stack.pushResult_of_le _ le fits

theorem StackOp.run_of_le {limit : Nat} (op : StackOp) (le : limit ≤ higher)
    (fits : (op.run limit s).result ≠ .error .stackOverflow) : op.run higher s = op.run limit s := by
  cases op with
  | pop => rfl
  | dup => exact Stack.dup_of_le le fits
  | exch => exact Stack.exch_of_le le fits
  | copy => exact Stack.copy_of_le le fits
  | index => exact Stack.index_of_le le fits
  | roll => rfl

theorem Operator.run_withDepth (op : Operator) (le : options.maxStackDepth ≤ higher)
    (fits : (op.run options s).result ≠ .error .stackOverflow) :
    op.run (options.withDepth higher) s = op.run options s := by
  cases op with
  | unary op => exact op.run_withDepth le fits
  | binary op => exact op.run_withDepth le fits
  | constant b => exact Stack.push_of_le _ le fits
  | stack op => exact op.run_of_le le fits

/-- Whether a run or an evaluation ended because the stack was full. -/
def overflows (result : Except EvalError α) : Bool :=
  match result with
  | .ok _ => false
  | .error e => e.fault == .stackOverflow

namespace Run

theorem overflows_ofOutcome {log : List Event} {operator : Option Operator} {o : Outcome}
    (fits : overflows (ofOutcome log operator o).result = false) :
    o.result ≠ .error .stackOverflow := by
  intro full
  simp [overflows, result_ofOutcome log operator full] at fits

/-- The sequence stays as it is if its parts do as long as they fit. -/
theorem andThen_of_fits {r r' : Run} {next next' : Stack → Run}
    (fits : overflows (r.andThen next).result = false)
    (first : overflows r.result = false → r' = r)
    (rest : ∀ s, overflows (next s).result = false → next' s = next s) :
    r'.andThen next' = r.andThen next := by
  cases ended : r.result with
  | error e =>
    rw [andThen_of_error ended] at fits
    rw [first fits, andThen_of_error ended, andThen_of_error ended]
  | ok =>
    have completed : overflows r.result = false := by rw [ended]; rfl
    rw [andThen_of_ok ended] at fits
    rw [first completed, andThen_of_ok ended, andThen_of_ok ended, rest r.stack fits]

theorem overflows_finish {r : Run} (fits : overflows r.finish.result = false) :
    overflows r.result = false := by
  cases ended : r.result with
  | ok => rfl
  | error e =>
    simp only [finish, ended] at fits
    exact fits

end Run

theorem Token.run_withDepth (t : Token) (le : options.maxStackDepth ≤ higher)
    (fits : overflows (t.run options s).result = false) :
    t.run (options.withDepth higher) s = t.run options s := by
  cases t with
  | number run =>
    simp only [Token.run, runNumber] at fits ⊢
    cases read : Numeral.read? run with
    | none => rfl
    | some number =>
      rw [read] at fits
      exact congrArg (Run.ofOutcome [] none) (Stack.pushResult_of_le _ le (Run.overflows_ofOutcome fits))
  | operator run =>
    simp only [Token.run, runOperator] at fits ⊢
    cases known : Operator.ofSpelling? run with
    | none => rfl
    | some op =>
      rw [known] at fits
      exact congrArg (Run.ofOutcome _ (some op)) (op.run_withDepth le (Run.overflows_ofOutcome fits))
  | stray byte => rfl

theorem runTokens_withDepth (tokens : List Token) (le : options.maxStackDepth ≤ higher)
    (fits : overflows (runTokens options tokens s).result = false) :
    runTokens (options.withDepth higher) tokens s = runTokens options tokens s := by
  induction tokens generalizing s with
  | nil => rfl
  | cons t rest ih => exact Run.andThen_of_fits fits (t.run_withDepth le) fun _ => ih

theorem pushAll_withDepth (arguments : List Decimal) (le : options.maxStackDepth ≤ higher)
    (fits : overflows (pushAll options arguments s).result = false) :
    pushAll (options.withDepth higher) arguments s = pushAll options arguments s := by
  induction arguments generalizing s with
  | nil => rfl
  | cons d rest ih =>
    refine Run.andThen_of_fits fits ?_ fun _ => ih
    intro pushed
    exact congrArg (Run.ofOutcome [] none) (Stack.push_of_le _ le (Run.overflows_ofOutcome pushed))

/-- What an evaluation returns and reports, if that is not an overflow, it returns and
reports under every higher limit. -/
theorem evaluate_withDepth (options : Options) (script : List UInt8) (arguments : List Decimal)
    {higher : Nat} (le : options.maxStackDepth ≤ higher)
    (fits : overflows (evaluate options script arguments).result = false) :
    evaluate (options.withDepth higher) script arguments = evaluate options script arguments := by
  refine congrArg Run.finish (Run.andThen_of_fits (Run.overflows_finish fits) ?_ ?_)
  · exact pushAll_withDepth arguments le
  · intro s
    exact runTokens_withDepth (Token.scan Operator.startsWith script) le

/-- The copy fills the stack to its limit, and the negative count that comes after it is
the fault under both limits. -/
theorem evaluate_withDepth_full :
    let options : Options := { precision := 5, maxStackDepth := 6 }
    let script := Ascii.bytes "3 copy div -1 copy"
    let arguments : List Decimal := [.ofNat 1, .ofNat 2, .ofNat 3]
    options.maxStackDepth ≤ 7 ∧
      overflows (evaluate options script arguments).result = false ∧
      evaluate (options.withDepth 7) script arguments = evaluate options script arguments := by
  intro options script arguments
  have le : options.maxStackDepth ≤ 7 := by decide
  have fits : overflows (evaluate options script arguments).result = false := by decide +kernel
  exact ⟨le, fits, evaluate_withDepth options script arguments le fits⟩

end StackCalculator

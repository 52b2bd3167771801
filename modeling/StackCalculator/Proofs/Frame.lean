import StackCalculator.Proofs.Runs

/-! The entries below those that a program uses. With more entries at the bottom and
as much more room, an operator that finds its operands does the same on top and
leaves the bottom alone; so does a whole program, unless it asks for an entry that
is not there. What it fails with, other than that, is the same too. -/
namespace StackCalculator

/-- The same outcome with more entries at the bottom. -/
def Outcome.onto (o : Outcome) (below : Stack) : Outcome := ⟨o.stack ++ below, o.result⟩

theorem Outcome.andThen_onto {o : Outcome} {next next' : Stack → Outcome} {below : Stack}
    (same : ∀ s, next' (s ++ below) = (next s).onto below) :
    (o.onto below).andThen next' = (o.andThen next).onto below := by
  cases ended : o.result with
  | error fault =>
    have failed : (o.onto below).result = .error fault := ended
    rw [andThen_of_error ended, andThen_of_error failed]
  | ok =>
    have completed : (o.onto below).result = .ok () := ended
    rw [andThen_of_ok ended, andThen_of_ok completed]
    exact same o.stack

namespace Stack
variable {limit : Nat} {s : Stack} {below : Stack}

theorem push_onto (v : Value) (s below : Stack) :
    (s ++ below).push (limit + below.length) v = (s.push limit v).onto below := by
  simp only [push, List.length_append, Nat.add_lt_add_iff_right]
  split <;> rfl

theorem pushResult_onto (result : Except Fault Value) (s below : Stack) :
    (s ++ below).pushResult (limit + below.length) result = (s.pushResult limit result).onto below := by
  cases result with
  | ok v => exact push_onto v s below
  | error fault => rfl

theorem pop_onto (present : (pop s).result ≠ .error .stackUnderflow) :
    pop (s ++ below) = (pop s).onto below := by
  cases s with
  | nil => exact absurd rfl present
  | cons v rest => rfl

theorem dup_onto (present : (dup limit s).result ≠ .error .stackUnderflow) :
    dup (limit + below.length) (s ++ below) = (dup limit s).onto below := by
  cases s with
  | nil => exact absurd rfl present
  | cons v rest => exact push_onto v (v :: rest) below

theorem exch_onto (present : (exch limit s).result ≠ .error .stackUnderflow) :
    exch (limit + below.length) (s ++ below) = (exch limit s).onto below := by
  match s with
  | [] | [_] => exact absurd rfl present
  | w :: v :: rest =>
    calc exch (limit + below.length) (w :: v :: rest ++ below)
      _ = (push (limit + below.length) w (rest ++ below)).andThen (push (limit + below.length) v) := rfl
      _ = ((push limit w rest).onto below).andThen (push (limit + below.length) v) := by
        rw [push_onto w rest below]
      _ = (exch limit (w :: v :: rest)).onto below :=
        Outcome.andThen_onto fun s => push_onto v s below

theorem copyTop_onto {n : Nat} (present : (copyTop limit n s).result ≠ .error .stackUnderflow) :
    copyTop (limit + below.length) n (s ++ below) = (copyTop limit n s).onto below := by
  unfold copyTop at present ⊢
  by_cases shallow : s.length < n
  · rw [if_pos shallow] at present
    exact absurd rfl present
  · have deeper : ¬(s ++ below).length < n := by
      rw [List.length_append]
      omega
    rw [if_neg shallow, if_neg deeper]
    by_cases full : limit < s.length + n
    · have fuller : limit + below.length < (s ++ below).length + n := by
        rw [List.length_append]
        omega
      rw [if_pos full, if_pos fuller]
      rfl
    · have room : ¬limit + below.length < (s ++ below).length + n := by
        rw [List.length_append]
        omega
      rw [if_neg full, if_neg room, List.take_append_of_le_length (by omega), ← List.append_assoc]
      rfl

theorem copy_onto (present : (copy limit s).result ≠ .error .stackUnderflow) :
    copy (limit + below.length) (s ++ below) = (copy limit s).onto below := by
  cases s with
  | nil => exact absurd rfl present
  | cons count rest =>
    simp only [copy, List.cons_append] at present ⊢
    cases counted : count.toCount 1 with
    | error fault => rfl
    | ok n =>
      rw [counted] at present
      exact copyTop_onto present

theorem pick_onto {n : Nat} (present : (pick limit n s).result ≠ .error .stackUnderflow) :
    pick (limit + below.length) n (s ++ below) = (pick limit n s).onto below := by
  unfold pick at present ⊢
  cases found : s[n]? with
  | none =>
    rw [found] at present
    exact absurd rfl present
  | some v =>
    have inside : n < s.length := (List.getElem?_eq_some_iff.mp found).1
    rw [List.getElem?_append_left inside, found]
    exact push_onto v s below

theorem index_onto (present : (index limit s).result ≠ .error .stackUnderflow) :
    index (limit + below.length) (s ++ below) = (index limit s).onto below := by
  cases s with
  | nil => exact absurd rfl present
  | cons count rest =>
    simp only [index, List.cons_append] at present ⊢
    cases counted : count.toCount 1 with
    | error fault => rfl
    | ok n =>
      rw [counted] at present
      exact pick_onto present

theorem rotate_append {n : Nat} (shift : Nat) (inside : n ≤ s.length) :
    rotate n shift (s ++ below) = rotate n shift s ++ below := by
  simp only [rotate, List.take_append_of_le_length inside, List.drop_append_of_le_length inside,
    List.append_assoc]

theorem rollTop_onto {n : Nat} {j : Decimal}
    (present : (rollTop n j s).result ≠ .error .stackUnderflow) :
    rollTop n j (s ++ below) = (rollTop n j s).onto below := by
  unfold rollTop at present ⊢
  by_cases shallow : s.length < n
  · rw [if_pos shallow] at present
    exact absurd rfl present
  · have deeper : ¬(s ++ below).length < n := by
      rw [List.length_append]
      omega
    rw [if_neg shallow, if_neg deeper]
    by_cases empty : n = 0
    · rw [if_pos empty, if_pos empty]
      rfl
    · rw [if_neg empty, if_neg empty]
      cases rollShift n j with
      | error fault => rfl
      | ok shift =>
        simp only [rotate_append shift (Nat.le_of_not_lt shallow)]
        rfl

theorem roll_onto (present : (roll s).result ≠ .error .stackUnderflow) :
    roll (s ++ below) = (roll s).onto below := by
  match s with
  | [] | [_] => exact absurd rfl present
  | amount :: count :: rest =>
    simp only [roll, List.cons_append] at present ⊢
    cases operands : rollOperands count amount with
    | error fault => rfl
    | ok block =>
      rw [operands] at present
      exact rollTop_onto present

end Stack

variable {options : Options} {s below : Stack}

/-- Room for more entries. -/
def Options.deepened (options : Options) (extra : Nat) : Options :=
  { options with maxStackDepth := options.maxStackDepth + extra }

theorem UnaryOp.run_onto (op : UnaryOp) (present : (op.run options s).result ≠ .error .stackUnderflow) :
    op.run (options.deepened below.length) (s ++ below) = (op.run options s).onto below := by
  cases s with
  | nil => exact absurd rfl present
  | cons v rest => exact Stack.pushResult_onto _ rest below

theorem BinaryOp.run_onto (op : BinaryOp)
    (present : (op.run options s).result ≠ .error .stackUnderflow) :
    op.run (options.deepened below.length) (s ++ below) = (op.run options s).onto below := by
  match s with
  | [] | [_] => exact absurd rfl present
  | w :: v :: rest => exact Stack.pushResult_onto _ rest below

theorem StackOp.run_onto {limit : Nat} (op : StackOp)
    (present : (op.run limit s).result ≠ .error .stackUnderflow) :
    op.run (limit + below.length) (s ++ below) = (op.run limit s).onto below := by
  cases op with
  | pop => exact Stack.pop_onto present
  | dup => exact Stack.dup_onto present
  | exch => exact Stack.exch_onto present
  | copy => exact Stack.copy_onto present
  | index => exact Stack.index_onto present
  | roll => exact Stack.roll_onto present

theorem Operator.run_onto (op : Operator)
    (present : (op.run options s).result ≠ .error .stackUnderflow) :
    op.run (options.deepened below.length) (s ++ below) = (op.run options s).onto below := by
  cases op with
  | unary op => exact op.run_onto present
  | binary op => exact op.run_onto present
  | constant b => exact Stack.push_onto _ s below
  | stack op => exact op.run_onto present

namespace Run

/-- Whether a run ended because an entry was missing. -/
def underflows (r : Run) : Bool :=
  match r.result with
  | .ok () => false
  | .error e => e.fault == .stackUnderflow

/-- The first run is the second with more entries at the bottom. The logs differ,
since they tell the depth. -/
structure Onto (framed r : Run) (below : Stack) : Prop where
  stack_eq : framed.stack = r.stack ++ below
  result_eq : framed.result = r.result

theorem Onto.andThen {framed r : Run} {next next' : Stack → Run} (first : framed.Onto r below)
    (rest : r.result = .ok () → (next' (r.stack ++ below)).Onto (next r.stack) below) :
    (framed.andThen next').Onto (r.andThen next) below := by
  cases ended : r.result with
  | error e => rwa [andThen_of_error ended, andThen_of_error (first.result_eq.trans ended)]
  | ok =>
    rw [andThen_of_ok ended, andThen_of_ok (first.result_eq.trans ended), first.stack_eq]
    exact ⟨(rest ended).stack_eq, (rest ended).result_eq⟩

variable {log log' : List Event} {operator : Option Operator} {o : Outcome}

theorem Onto.ofOutcome (same : framed = o.onto below) :
    (ofOutcome log' operator framed).Onto (ofOutcome log operator o) below := by
  subst same
  exact ⟨rfl, rfl⟩

theorem present_of_ofOutcome (present : (ofOutcome log operator o).underflows = false) :
    o.result ≠ .error .stackUnderflow := by
  intro missing
  simp [underflows, result_ofOutcome log operator missing] at present

end Run

theorem Token.run_onto (t : Token) (present : (t.run options s).underflows = false) :
    (t.run (options.deepened below.length) (s ++ below)).Onto (t.run options s) below := by
  cases t with
  | number run =>
    simp only [Token.run, runNumber]
    cases Numeral.read? run with
    | none => exact ⟨rfl, rfl⟩
    | some number => exact .ofOutcome (Stack.pushResult_onto _ s below)
  | operator run =>
    simp only [Token.run, runOperator] at present ⊢
    cases known : Operator.ofSpelling? run with
    | none => exact ⟨rfl, rfl⟩
    | some op =>
      rw [known] at present
      exact .ofOutcome (op.run_onto (Run.present_of_ofOutcome present))
  | stray byte => exact ⟨rfl, rfl⟩

theorem runTokens_onto (tokens : List Token) (present : (runTokens options tokens s).underflows = false) :
    (runTokens (options.deepened below.length) tokens (s ++ below)).Onto
      (runTokens options tokens s) below := by
  induction tokens generalizing s with
  | nil => exact ⟨rfl, rfl⟩
  | cons t rest ih =>
    rw [runTokens_cons] at present
    cases ended : (t.run options s).result with
    | error e =>
      rw [Run.andThen_of_error ended] at present
      exact (t.run_onto present).andThen fun completed => by simp [ended] at completed
    | ok =>
      have first : (t.run options s).underflows = false := by simp only [Run.underflows, ended]
      rw [Run.andThen_of_ok ended] at present
      exact (t.run_onto first).andThen fun _ => ih present

/-- A program that does not ask for a missing entry ends the same on top of any other
entries, with room for them, and leaves those as they are. -/
theorem execute_frame (options : Options) (script : List UInt8) (s below : Stack)
    (present : (execute options script s).underflows = false) :
    let framed := execute (options.deepened below.length) script (s ++ below)
    framed.result = (execute options script s).result ∧
      framed.stack = (execute options script s).stack ++ below := by
  have ran : (runTokens (options.deepened below.length) _ (s ++ below)).Onto _ below :=
    runTokens_onto (Token.scan Operator.startsWith script) present
  exact ⟨ran.result_eq, ran.stack_eq⟩

/-- The block that is rolled, the entries that are copied and the one that is picked
reach down to the last entry of the program's own, and the last push finds no room. -/
theorem execute_frame_full :
    let options : Options := { maxStackDepth := 6 }
    let script := Ascii.bytes "3 1 roll 2 copy 4 index dup"
    let s : Stack := [.ofInt 30, .ofInt 20, .ofInt 10]
    let below : Stack := [.boolean true, .ofInt 5]
    let framed := execute (options.deepened below.length) script (s ++ below)
    (execute options script s).underflows = false ∧
      framed.result = (execute options script s).result ∧
      framed.stack = (execute options script s).stack ++ below := by
  intro options script s below framed
  have present : (execute options script s).underflows = false := by decide +kernel
  exact ⟨present, execute_frame options script s below present⟩

end StackCalculator

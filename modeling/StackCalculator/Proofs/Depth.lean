import StackCalculator.Proofs.Trace

/-! The limit on the depth of the stack. Every operator keeps it, those included that
fail halfway and `copy`, which does not push; so does every token, and from the
empty stack on no session goes through a stack that is deeper. -/
namespace StackCalculator
namespace Stack
variable {limit : Nat} {s : Stack}

theorem push_length_le (v : Value) (bound : s.length ≤ limit) :
    (s.push limit v).stack.length ≤ limit := by
  unfold push
  split
  · next room => exact room
  · exact bound

theorem pushResult_length_le (result : Except Fault Value) (bound : s.length ≤ limit) :
    (s.pushResult limit result).stack.length ≤ limit := by
  cases result with
  | ok v => exact push_length_le v bound
  | error fault => exact bound

theorem pop_length_le (bound : s.length ≤ limit) : (pop s).stack.length ≤ limit := by
  cases s with
  | nil => exact bound
  | cons v rest => exact Nat.le_of_succ_le bound

theorem dup_length_le (bound : s.length ≤ limit) : (dup limit s).stack.length ≤ limit := by
  cases s with
  | nil => exact bound
  | cons v rest => exact push_length_le v bound

theorem exch_length_le (bound : s.length ≤ limit) : (exch limit s).stack.length ≤ limit := by
  match s with
  | [] | [_] => exact bound
  | w :: v :: rest =>
    have below : rest.length ≤ limit := Nat.le_of_succ_le (Nat.le_of_succ_le bound)
    exact Outcome.andThen_forall (P := fun s => s.length ≤ limit) (push_length_le w below)
      fun _ => push_length_le v

/-- The one operator that adds several entries at once checks them all before. -/
theorem copyTop_length_le (n : Nat) (bound : s.length ≤ limit) :
    (copyTop limit n s).stack.length ≤ limit := by
  unfold copyTop
  split
  · exact bound
  · split
    · exact bound
    · simp only [Outcome.done, List.length_append, List.length_take]
      omega

theorem copy_length_le (bound : s.length ≤ limit) : (copy limit s).stack.length ≤ limit := by
  cases s with
  | nil => exact bound
  | cons count rest =>
    have below : rest.length ≤ limit := Nat.le_of_succ_le bound
    simp only [copy]
    split
    · next n _ => exact copyTop_length_le n below
    · exact below

theorem pick_length_le (n : Nat) (bound : s.length ≤ limit) :
    (pick limit n s).stack.length ≤ limit := by
  unfold pick
  split
  · next v _ => exact push_length_le v bound
  · exact bound

theorem index_length_le (bound : s.length ≤ limit) : (index limit s).stack.length ≤ limit := by
  cases s with
  | nil => exact bound
  | cons count rest =>
    have below : rest.length ≤ limit := Nat.le_of_succ_le bound
    simp only [index]
    split
    · next n _ => exact pick_length_le n below
    · exact below

theorem length_rotate (n shift : Nat) (s : Stack) : (rotate n shift s).length = s.length := by
  simp only [rotate, List.length_append, List.length_drop, List.length_take]
  omega

theorem length_rollTop (n : Nat) (j : Decimal) (s : Stack) : (rollTop n j s).stack.length = s.length := by
  unfold rollTop
  split
  · rfl
  · split
    · rfl
    · split
      · next shift _ => exact length_rotate n shift s
      · rfl

theorem roll_length_le (bound : s.length ≤ limit) : (roll s).stack.length ≤ limit := by
  match s with
  | [] | [_] => exact bound
  | amount :: count :: rest =>
    have below : rest.length ≤ limit := Nat.le_of_succ_le (Nat.le_of_succ_le bound)
    simp only [roll]
    split
    · next n j _ => exact Nat.le_trans (Nat.le_of_eq (length_rollTop n j rest)) below
    · exact below

end Stack

variable {options : Options} {s : Stack}

theorem UnaryOp.run_length_le (op : UnaryOp) (bound : s.length ≤ options.maxStackDepth) :
    (op.run options s).stack.length ≤ options.maxStackDepth := by
  cases s with
  | nil => exact bound
  | cons v rest => exact Stack.pushResult_length_le _ (Nat.le_of_succ_le bound)

theorem BinaryOp.run_length_le (op : BinaryOp) (bound : s.length ≤ options.maxStackDepth) :
    (op.run options s).stack.length ≤ options.maxStackDepth := by
  match s with
  | [] | [_] => exact bound
  | w :: v :: rest =>
    exact Stack.pushResult_length_le _ (Nat.le_of_succ_le (Nat.le_of_succ_le bound))

theorem StackOp.run_length_le {limit : Nat} (op : StackOp) (bound : s.length ≤ limit) :
    (op.run limit s).stack.length ≤ limit := by
  cases op with
  | pop => exact Stack.pop_length_le bound
  | dup => exact Stack.dup_length_le bound
  | exch => exact Stack.exch_length_le bound
  | copy => exact Stack.copy_length_le bound
  | index => exact Stack.index_length_le bound
  | roll => exact Stack.roll_length_le bound

theorem Operator.run_length_le (op : Operator) (bound : s.length ≤ options.maxStackDepth) :
    (op.run options s).stack.length ≤ options.maxStackDepth := by
  cases op with
  | unary op => exact op.run_length_le bound
  | binary op => exact op.run_length_le bound
  | constant b => exact Stack.push_length_le _ bound
  | stack op => exact op.run_length_le bound

theorem Token.run_length_le (t : Token) (bound : s.length ≤ options.maxStackDepth) :
    (t.run options s).stack.length ≤ options.maxStackDepth := by
  cases t with
  | number run =>
    simp only [Token.run, runNumber]
    split
    · exact bound
    · exact Stack.pushResult_length_le _ bound
  | operator run =>
    simp only [Token.run, runOperator]
    split
    · exact bound
    · next op _ => exact op.run_length_le bound
  | stray byte => exact bound

theorem sessionStacks_length_le (commands : List Command) (bound : s.length ≤ options.maxStackDepth) :
    ∀ visited ∈ sessionStacks options commands s, visited.length ≤ options.maxStackDepth :=
  sessionStacks_forall (P := fun s => s.length ≤ options.maxStackDepth)
    (fun v _ => Stack.push_length_le v) (fun t _ => t.run_length_le) bound

theorem Reachable.length_le (reached : Reachable options s) : s.length ≤ options.maxStackDepth := by
  obtain ⟨commands, visited⟩ := reached
  have empty : ([] : Stack).length ≤ options.maxStackDepth := Nat.zero_le _
  exact sessionStacks_length_le commands empty s visited

/-- From the empty stack on the limit holds after every command, failed ones included,
and before and after every token that a program runs. -/
theorem session_depth_le (options : Options) (commands : List Command) :
    (∀ left ∈ (session options commands []).map Run.stack, left.length ≤ options.maxStackDepth) ∧
      ∀ visited ∈ sessionStacks options commands [], visited.length ≤ options.maxStackDepth := by
  have visits : ∀ visited ∈ sessionStacks options commands [],
      visited.length ≤ options.maxStackDepth :=
    sessionStacks_length_le commands (Nat.zero_le options.maxStackDepth)
  refine ⟨?_, visits⟩
  intro left member
  obtain ⟨r, ran, rfl⟩ := List.mem_map.mp member
  exact visits r.stack (left_mem_sessionStacks ran)

/-- A copy fills the stack, and what comes after it fails, in the same program and in
the next one. -/
theorem session_depth_reached :
    let options : Options := { maxStackDepth := 3 }
    let commands : List Command := [.push (.boolean true),
      .execute (Ascii.bytes "2 1 copy 4"), .execute (Ascii.bytes "dup")]
    let full : Stack := [.ofInt 2, .ofInt 2, .boolean true]
    (full ∈ (session options commands []).map Run.stack ∧ full.length ≤ 3) ∧
      full ∈ sessionStacks options commands [] ∧ full.length ≤ 3 := by
  intro options commands full
  have left : full ∈ (session options commands []).map Run.stack := by decide +kernel
  have visited : full ∈ sessionStacks options commands [] := by decide +kernel
  exact ⟨⟨left, (session_depth_le options commands).1 full left⟩,
    visited, (session_depth_le options commands).2 full visited⟩

end StackCalculator

import StackCalculator.Operator.Run

/-! What operators do, as rules. A rule tells under which conditions an operator
completes or fails, and what it leaves; on a stack within the limit the rules and the
operators agree. There an operator that has taken an entry finds room for another, so
no rule lets it overflow when it puts back a value. -/
namespace StackCalculator
namespace Operator

/-- The operator has its operands and leaves another stack. -/
inductive Completes (options : Options) : Operator → Stack → Stack → Prop where
  | unary {op : UnaryOp} (computed : op.eval options.precision v = .ok result) :
      Completes options (.unary op) (v :: s) (result :: s)
  | binary {op : BinaryOp} (computed : op.eval options.precision v w = .ok result) :
      Completes options (.binary op) (w :: v :: s) (result :: s)
  | constant (room : s.length < options.maxStackDepth) :
      Completes options (.constant b) s (.boolean b :: s)
  | pop : Completes options (.stack .pop) (v :: s) s
  | dup (room : (v :: s).length < options.maxStackDepth) :
      Completes options (.stack .dup) (v :: s) (v :: v :: s)
  | exch : Completes options (.stack .exch) (w :: v :: s) (v :: w :: s)
  | copy {count : Value} (counted : count.toCount 1 = .ok n) (present : n ≤ s.length)
      (room : s.length + n ≤ options.maxStackDepth) :
      Completes options (.stack .copy) (count :: s) (s.take n ++ s)
  | index {count : Value} (counted : count.toCount 1 = .ok n) (found : s[n]? = some v) :
      Completes options (.stack .index) (count :: s) (v :: s)
  | rollNone (taken : Stack.rollOperands count amount = .ok (0, j)) :
      Completes options (.stack .roll) (amount :: count :: s) s
  | roll (taken : Stack.rollOperands count amount = .ok (n, j)) (positive : 0 < n)
      (present : n ≤ s.length) (turned : Stack.rollShift n j = .ok places) :
      Completes options (.stack .roll) (amount :: count :: s) (Stack.rotate n places s)

/-- The operator fails and leaves what is in the last place. -/
inductive Fails (options : Options) : Operator → Stack → Fault → Stack → Prop where
  | shallow (missing : s.length < op.operands) : Fails options op s .stackUnderflow s
  | unary {op : UnaryOp} (refused : op.eval options.precision v = .error fault) :
      Fails options (.unary op) (v :: s) fault s
  | binary {op : BinaryOp} (refused : op.eval options.precision v w = .error fault) :
      Fails options (.binary op) (w :: v :: s) fault s
  | constant (full : s.length = options.maxStackDepth) :
      Fails options (.constant b) s .stackOverflow s
  | dup (full : (v :: s).length = options.maxStackDepth) :
      Fails options (.stack .dup) (v :: s) .stackOverflow (v :: s)
  | copyCount {count : Value} (refused : count.toCount 1 = .error fault) :
      Fails options (.stack .copy) (count :: s) fault s
  | copyUnderflow {count : Value} (counted : count.toCount 1 = .ok n) (missing : s.length < n) :
      Fails options (.stack .copy) (count :: s) .stackUnderflow s
  | copyOverflow {count : Value} (counted : count.toCount 1 = .ok n) (present : n ≤ s.length)
      (full : options.maxStackDepth < s.length + n) :
      Fails options (.stack .copy) (count :: s) .stackOverflow s
  | indexCount {count : Value} (refused : count.toCount 1 = .error fault) :
      Fails options (.stack .index) (count :: s) fault s
  | indexUnderflow {count : Value} (counted : count.toCount 1 = .ok n) (missing : s.length ≤ n) :
      Fails options (.stack .index) (count :: s) .stackUnderflow s
  | rollOperands (refused : Stack.rollOperands count amount = .error fault) :
      Fails options (.stack .roll) (amount :: count :: s) fault s
  | rollUnderflow (taken : Stack.rollOperands count amount = .ok (n, j)) (missing : s.length < n) :
      Fails options (.stack .roll) (amount :: count :: s) .stackUnderflow s
  | rollShift (taken : Stack.rollOperands count amount = .ok (n, j)) (positive : 0 < n)
      (present : n ≤ s.length) (refused : Stack.rollShift n j = .error fault) :
      Fails options (.stack .roll) (amount :: count :: s) fault s

end Operator

namespace Stack

theorem push_of_room {v : Value} {s : Stack} (room : s.length < limit) :
    s.push limit v = .done (v :: s) := if_pos room

theorem push_eq_done {v : Value} {s left : Stack} (pushed : s.push limit v = .done left) :
    s.length < limit ∧ left = v :: s := by
  unfold push at pushed
  split at pushed
  · next room =>
    cases pushed
    exact ⟨room, rfl⟩
  · cases pushed

theorem pushResult_eq_done {result : Except Fault Value} {s left : Stack}
    (pushed : s.pushResult limit result = .done left) : ∃ v, result = .ok v ∧ left = v :: s := by
  cases result with
  | error fault => cases pushed
  | ok v => exact ⟨v, rfl, (push_eq_done pushed).2⟩

theorem push_of_full {v : Value} {s : Stack} (full : s.length = limit) :
    s.push limit v = .failed s .stackOverflow := if_neg (by omega)

theorem rollOperands_eq_ok_iff {count amount : Value} : rollOperands count amount = .ok (n, j) ↔
    count.toCount 2 = .ok n ∧ amount = .number j ∧ j.isIntegral = true := by
  unfold rollOperands
  cases counted : count.toCount 2 with
  | error fault => exact ⟨nofun, nofun⟩
  | ok m =>
    cases amount with
    | boolean b => exact ⟨nofun, nofun⟩
    | number d =>
      change (if d.isIntegral = true then .ok (m, d) else .error (.typeMismatch 1) :
        Except Fault (Nat × Decimal)) = .ok (n, j) ↔ _
      constructor
      · intro taken
        split at taken
        · next integral =>
          cases taken
          exact ⟨rfl, rfl, integral⟩
        · cases taken
      · rintro ⟨⟨⟩, ⟨⟩, integral⟩
        exact if_pos integral

end Stack

namespace Operator
variable {options : Options} {op : Operator} {s left : Stack}

theorem Completes.run_eq (completes : op.Completes options s left)
    (bound : s.length ≤ options.maxStackDepth) : op.run options s = .done left := by
  cases completes with
  | @unary v result s op computed =>
    -- The operand was within the limit, and the result stands in its place.
    simp only [run, UnaryOp.run, computed, Stack.pushResult]
    exact Stack.push_of_room bound
  | @binary v w result s op computed =>
    simp only [run, BinaryOp.run, computed, Stack.pushResult]
    exact Stack.push_of_room (Nat.lt_of_succ_lt bound)
  | constant room => exact Stack.push_of_room room
  | pop => rfl
  | dup room => exact Stack.push_of_room room
  | @exch w v s =>
    have room : s.length < options.maxStackDepth := Nat.lt_of_succ_lt bound
    simp only [run, StackOp.run, Stack.exch, Stack.push_of_room room]
    exact Stack.push_of_room bound
  | @copy n s count counted present room =>
    simp only [run, StackOp.run, Stack.copy, counted, Stack.copyTop]
    rw [if_neg (Nat.not_lt.mpr present), if_neg (Nat.not_lt.mpr room)]
  | @index n v s count counted found =>
    simp only [run, StackOp.run, Stack.index, counted, Stack.pick, found]
    exact Stack.push_of_room bound
  | rollNone taken =>
    simp only [run, StackOp.run, Stack.roll, taken, Stack.rollTop]
    rfl
  | roll taken positive present turned =>
    simp only [run, StackOp.run, Stack.roll, taken, Stack.rollTop, turned]
    rw [if_neg (Nat.not_lt.mpr present), if_neg (Nat.ne_of_gt positive)]

/-- An operator that completes does so by a rule, on stacks beyond the limit too. -/
theorem stack_completes_of_done {op : StackOp} (completed : op.run options.maxStackDepth s = .done left) :
    Completes options (.stack op) s left := by
  cases op with
  | pop =>
    cases s with
    | nil => cases completed
    | cons v rest =>
      cases completed
      exact .pop
  | dup =>
    cases s with
    | nil => cases completed
    | cons v rest =>
      obtain ⟨room, rfl⟩ := Stack.push_eq_done completed
      exact .dup room
  | exch =>
    match s with
    | [] | [_] => cases completed
    | w :: v :: rest =>
      simp only [StackOp.run, Stack.exch] at completed
      by_cases room : rest.length < options.maxStackDepth
      · rw [Stack.push_of_room room] at completed
        obtain ⟨_, rfl⟩ := Stack.push_eq_done completed
        exact .exch
      · rw [Stack.push, if_neg room] at completed
        cases completed
  | copy =>
    cases s with
    | nil => cases completed
    | cons count rest =>
      simp only [StackOp.run, Stack.copy, Stack.copyTop] at completed
      split at completed
      · next n counted =>
        split at completed
        · cases completed
        · next present =>
          split at completed
          · cases completed
          · next room =>
            cases completed
            exact .copy counted (Nat.le_of_not_lt present) (Nat.le_of_not_lt room)
      · cases completed
  | index =>
    cases s with
    | nil => cases completed
    | cons count rest =>
      simp only [StackOp.run, Stack.index, Stack.pick] at completed
      split at completed
      · next n counted =>
        split at completed
        · next v found =>
          obtain ⟨_, rfl⟩ := Stack.push_eq_done completed
          exact .index counted found
        · cases completed
      · cases completed
  | roll =>
    match s with
    | [] | [_] => cases completed
    | amount :: count :: rest =>
      simp only [StackOp.run, Stack.roll, Stack.rollTop] at completed
      split at completed
      · next n j taken =>
        split at completed
        · cases completed
        · next present =>
          split at completed
          · next empty =>
            cases completed
            exact .rollNone (empty ▸ taken)
          · next some =>
            split at completed
            · next places turned =>
              cases completed
              exact .roll taken (Nat.pos_of_ne_zero some) (Nat.le_of_not_lt present) turned
            · cases completed
      · cases completed

theorem completes_of_done (completed : op.run options s = .done left) : op.Completes options s left := by
  cases op with
  | unary op =>
    cases s with
    | nil => cases completed
    | cons v rest =>
      obtain ⟨result, computed, rfl⟩ := Stack.pushResult_eq_done completed
      exact .unary computed
  | binary op =>
    match s with
    | [] | [_] => cases completed
    | w :: v :: rest =>
      obtain ⟨result, computed, rfl⟩ := Stack.pushResult_eq_done completed
      exact .binary computed
  | constant b =>
    obtain ⟨room, rfl⟩ := Stack.push_eq_done completed
    exact .constant room
  | stack op => exact stack_completes_of_done completed

theorem operands_le (op : Operator) : op.operands ≤ 2 := by
  cases op with
  | unary op | binary op | constant b => simp only [operands, Nat.reduceLeDiff, Nat.le_refl, Nat.zero_le]
  | stack op => cases op <;> simp only [operands, Nat.reduceLeDiff, Nat.le_refl]

theorem run_of_shallow (options : Options) (op : Operator) (missing : s.length < op.operands) :
    op.run options s = .failed s .stackUnderflow := by
  match s with
  | [] =>
    cases op with
    | unary op | binary op => rfl
    | constant b => contradiction
    | stack op => cases op <;> rfl
  | [v] =>
    cases op with
    | unary op | constant b => contradiction
    | binary op => rfl
    | stack op =>
      cases op with
      | pop | dup | copy | index => contradiction
      | exch | roll => rfl
  | w :: v :: rest =>
    have most : op.operands ≤ 2 := op.operands_le
    simp only [List.length_cons] at missing
    omega

theorem Fails.run_eq (fails : op.Fails options s fault left) : op.run options s = .failed left fault := by
  cases fails with
  | shallow missing => exact run_of_shallow options op missing
  | unary refused => simp only [run, UnaryOp.run, refused, Stack.pushResult]
  | binary refused => simp only [run, BinaryOp.run, refused, Stack.pushResult]
  | constant full => exact Stack.push_of_full full
  | dup full => exact Stack.push_of_full full
  | copyCount refused => simp only [run, StackOp.run, Stack.copy, refused]
  | copyUnderflow counted missing =>
    simp only [run, StackOp.run, Stack.copy, counted, Stack.copyTop]
    rw [if_pos missing]
  | copyOverflow counted present full =>
    simp only [run, StackOp.run, Stack.copy, counted, Stack.copyTop]
    rw [if_neg (Nat.not_lt.mpr present), if_pos full]
  | indexCount refused => simp only [run, StackOp.run, Stack.index, refused]
  | indexUnderflow counted missing =>
    simp only [run, StackOp.run, Stack.index, counted, Stack.pick, List.getElem?_eq_none missing]
  | rollOperands refused => simp only [run, StackOp.run, Stack.roll, refused]
  | rollUnderflow taken missing =>
    simp only [run, StackOp.run, Stack.roll, taken, Stack.rollTop]
    rw [if_pos missing]
  | rollShift taken positive present refused =>
    simp only [run, StackOp.run, Stack.roll, taken, Stack.rollTop, refused]
    rw [if_neg (Nat.not_lt.mpr present), if_neg (Nat.ne_of_gt positive)]

theorem stack_completes_or_fails (op : StackOp) (bound : s.length ≤ options.maxStackDepth) :
    (∃ left, Completes options (.stack op) s left) ∨
      ∃ fault left, Fails options (.stack op) s fault left := by
  cases op with
  | pop =>
    match s with
    | [] => exact .inr ⟨_, _, .shallow Nat.one_pos⟩
    | v :: rest => exact .inl ⟨_, .pop⟩
  | dup =>
    match s with
    | [] => exact .inr ⟨_, _, .shallow Nat.one_pos⟩
    | v :: rest =>
      rcases Nat.lt_or_eq_of_le bound with room | full
      · exact .inl ⟨_, .dup room⟩
      · exact .inr ⟨_, _, .dup full⟩
  | exch =>
    match s with
    | [] => exact .inr ⟨_, _, .shallow Nat.two_pos⟩
    | [_] => exact .inr ⟨_, _, .shallow Nat.one_lt_two⟩
    | w :: v :: rest => exact .inl ⟨_, .exch⟩
  | copy =>
    match s with
    | [] => exact .inr ⟨_, _, .shallow Nat.one_pos⟩
    | count :: rest =>
      cases counted : count.toCount 1 with
      | error fault => exact .inr ⟨_, _, .copyCount counted⟩
      | ok n =>
        rcases Nat.lt_or_ge rest.length n with missing | present
        · exact .inr ⟨_, _, .copyUnderflow counted missing⟩
        · rcases Nat.lt_or_ge options.maxStackDepth (rest.length + n) with full | room
          · exact .inr ⟨_, _, .copyOverflow counted present full⟩
          · exact .inl ⟨_, .copy counted present room⟩
  | index =>
    match s with
    | [] => exact .inr ⟨_, _, .shallow Nat.one_pos⟩
    | count :: rest =>
      cases counted : count.toCount 1 with
      | error fault => exact .inr ⟨_, _, .indexCount counted⟩
      | ok n =>
        rcases Nat.lt_or_ge n rest.length with present | missing
        · exact .inl ⟨_, .index counted (List.getElem?_eq_getElem present)⟩
        · exact .inr ⟨_, _, .indexUnderflow counted missing⟩
  | roll =>
    match s with
    | [] => exact .inr ⟨_, _, .shallow Nat.two_pos⟩
    | [_] => exact .inr ⟨_, _, .shallow Nat.one_lt_two⟩
    | amount :: count :: rest =>
      cases taken : Stack.rollOperands count amount with
      | error fault => exact .inr ⟨_, _, .rollOperands taken⟩
      | ok block =>
        obtain ⟨n, j⟩ := block
        rcases Nat.lt_or_ge rest.length n with missing | present
        · exact .inr ⟨_, _, .rollUnderflow taken missing⟩
        · rcases Nat.eq_zero_or_pos n with rfl | positive
          · exact .inl ⟨_, .rollNone taken⟩
          · cases turned : Stack.rollShift n j with
            | ok places => exact .inl ⟨_, .roll taken positive present turned⟩
            | error fault => exact .inr ⟨_, _, .rollShift taken positive present turned⟩

/-- There is a rule for every operator on every stack within the limit. -/
theorem completes_or_fails (op : Operator) (bound : s.length ≤ options.maxStackDepth) :
    (∃ left, op.Completes options s left) ∨ ∃ fault left, op.Fails options s fault left := by
  cases op with
  | unary op =>
    match s with
    | [] => exact .inr ⟨_, _, .shallow Nat.one_pos⟩
    | v :: rest =>
      cases computed : op.eval options.precision v with
      | ok result => exact .inl ⟨_, .unary computed⟩
      | error fault => exact .inr ⟨_, _, .unary computed⟩
  | binary op =>
    match s with
    | [] => exact .inr ⟨_, _, .shallow Nat.two_pos⟩
    | [_] => exact .inr ⟨_, _, .shallow Nat.one_lt_two⟩
    | w :: v :: rest =>
      cases computed : op.eval options.precision v w with
      | ok result => exact .inl ⟨_, .binary computed⟩
      | error fault => exact .inr ⟨_, _, .binary computed⟩
  | constant b =>
    rcases Nat.lt_or_eq_of_le bound with room | full
    · exact .inl ⟨_, .constant room⟩
    · exact .inr ⟨_, _, .constant full⟩
  | stack op => exact stack_completes_or_fails op bound

theorem run_eq_done_iff (bound : s.length ≤ options.maxStackDepth) :
    op.run options s = .done left ↔ op.Completes options s left := by
  constructor
  · exact completes_of_done
  · intro completes
    exact completes.run_eq bound

theorem run_eq_failed_iff (bound : s.length ≤ options.maxStackDepth) :
    op.run options s = .failed left fault ↔ op.Fails options s fault left := by
  constructor
  · intro failed
    rcases op.completes_or_fails bound with ⟨other, completes⟩ | ⟨found, other, fails⟩
    · have contrary : Outcome.failed left fault = .done other := failed.symm.trans (completes.run_eq bound)
      cases congrArg Outcome.result contrary
    · have same : Outcome.failed left fault = .failed other found := failed.symm.trans fails.run_eq
      cases same
      exact fails
  · exact Fails.run_eq

theorem completes_of_ok (bound : s.length ≤ options.maxStackDepth)
    (completed : (op.run options s).result = .ok ()) :
    op.Completes options s (op.run options s).stack := by
  apply (run_eq_done_iff bound).mp
  rw [Outcome.done, ← completed]

theorem fails_of_error (bound : s.length ≤ options.maxStackDepth)
    (failed : (op.run options s).result = .error fault) :
    op.Fails options s fault (op.run options s).stack := by
  apply (run_eq_failed_iff bound).mp
  rw [Outcome.failed, ← failed]

end Operator
end StackCalculator

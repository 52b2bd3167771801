import StackCalculator.Proofs.Agreement
import StackCalculator.Proofs.Runs

/-! Programs on two encodings of one stack. As long as no operator sees how its operands are
encoded, both runs report the same, end alike and leave the same values. -/
namespace StackCalculator

/-- The same values from top to bottom. -/
def Stack.Alike (s t : Stack) : Prop := List.Forall₂ Value.Matches s t

/-- The same result, and the same values left. -/
structure Outcome.Alike (o o' : Outcome) : Prop where
  stack : Stack.Alike o.stack o'.stack
  result : o.result = o'.result

namespace Stack
variable {limit : ℕ} {s t : Stack} {v w : Value}

theorem push_alike (entries : s.Alike t) (values : v.Matches w) :
    Outcome.Alike (s.push limit v) (t.push limit w) := by
  unfold push
  rw [entries.length_eq]
  split
  · exact ⟨.cons values entries, rfl⟩
  · exact ⟨entries, rfl⟩

theorem pushResult_alike (entries : s.Alike t) {result result' : Except Fault Value}
    (results : Agree Value.Matches result result') :
    Outcome.Alike (s.pushResult limit result) (t.pushResult limit result') := by
  cases results with
  | ok values => exact push_alike entries values
  | error fault => exact ⟨entries, rfl⟩

theorem failed_alike (entries : s.Alike t) (fault : Fault) :
    Outcome.Alike (.failed s fault) (.failed t fault) := ⟨entries, rfl⟩

theorem done_alike (entries : s.Alike t) : Outcome.Alike (.done s) (.done t) := ⟨entries, rfl⟩

theorem exch_alike (entries : s.Alike t) : Outcome.Alike (exch limit s) (exch limit t) := by
  cases entries with
  | nil => exact failed_alike .nil _
  | @cons w w' s t first rest =>
    cases rest with
    | nil => exact failed_alike (.cons first .nil) _
    | @cons v v' s t second rest =>
      have pushed : Outcome.Alike (push limit w s) (push limit w' t) := push_alike rest first
      simp only [exch]
      cases ended : (push limit w s).result with
      | error fault =>
        rw [Outcome.andThen_of_error ended, Outcome.andThen_of_error (pushed.result ▸ ended)]
        exact pushed
      | ok =>
        rw [Outcome.andThen_of_ok ended, Outcome.andThen_of_ok (pushed.result ▸ ended)]
        exact push_alike pushed.stack second

theorem copy_alike {count count' : Value} (rest : s.Alike t)
    (counted : count.toCount 1 = count'.toCount 1) :
    Outcome.Alike (copy limit (count :: s)) (copy limit (count' :: t)) := by
  simp only [copy, counted, copyTop, rest.length_eq]
  split
  · next n _ =>
    split
    · exact failed_alike rest _
    · split
      · exact failed_alike rest _
      · exact ⟨List.rel_append (List.forall₂_take n rest) rest, rfl⟩
  · exact failed_alike rest _

theorem getElem?_alike (entries : s.Alike t) (n : ℕ) : Option.Rel Value.Matches s[n]? t[n]? := by
  induction entries generalizing n with
  | nil => exact .none
  | cons values rest ih =>
    cases n with
    | zero => exact .some values
    | succ n => exact ih n

theorem index_alike {count count' : Value} (rest : s.Alike t)
    (counted : count.toCount 1 = count'.toCount 1) :
    Outcome.Alike (index limit (count :: s)) (index limit (count' :: t)) := by
  simp only [index, counted]
  split
  · next n _ =>
    have picked : Option.Rel Value.Matches s[n]? t[n]? := getElem?_alike rest n
    simp only [pick]
    generalize s[n]? = found, t[n]? = found' at picked ⊢
    cases picked with
    | none => exact failed_alike rest _
    | some values => exact push_alike rest values
  · exact failed_alike rest _

open Decimal in
theorem ofParts_not_negativeZero (negative : Bool) (n scale : ℕ) :
    (ofParts negative n scale).isNegativeZero = false := by
  simp only [isNegativeZero, ofParts, isZero]
  cases n with
  | zero => simp
  | succ n => simp

open Decimal in
theorem rem?_not_negativeZero (a b : Decimal) : Gives (fun r => r.isNegativeZero = false) (a.rem? b) := by
  unfold rem?
  extract_lets scale dividend divisor
  split
  · next undefined => exact .none
  · split
    · next zero => exact .some rfl
    · next nonzero =>
      split
      · next equal => exact .some rfl
      · split
        · next less =>
          refine .some ?_
          simp [isNegativeZero, nonzero]
        · next more => exact .some (ofParts_not_negativeZero _ _ _)

open Decimal in
theorem add?_not_negativeZero {a b : Decimal} (first : a.isNegativeZero = false)
    (second : b.isNegativeZero = false) : Gives (fun r => r.isNegativeZero = false) (a.add? b) := by
  unfold add?
  split
  · next zero => exact .some second
  · split
    · next zero => exact .some first
    · next both => exact .map (.trivial _) fun parts _ => ofParts_not_negativeZero _ _ _

/-- No zero with a minus sign comes up on the way, so the sign that is asked for in the end
is that of the residue. -/
theorem rollShift_eq {n : ℕ} {j j' : Decimal} (alike : j.Alike j') (small : n < Decimal.capacity) :
    rollShift n j = rollShift n j' := by
  have block : Decimal.Alike (.ofNat n) (.ofNat n) := .refl (Decimal.wellFormed_ofNat small)
  have exact : ∀ d : Decimal, d.WellFormed → Decimal.RemainderExact d (.ofNat n) :=
    fun d wellFormed => Decimal.remainderExact_of_scale_le wellFormed (Nat.zero_le _)
  have rests := rel_and (alike.rem? block (exact j alike.left) (exact j' alike.right))
    (rem?_not_negativeZero j _) (rem?_not_negativeZero j' _)
  have positive : (Decimal.ofNat n).isNegativeZero = false := rfl
  have finish : ∀ r r' : Decimal, (r.Alike r' ∧ r.isNegativeZero = false ∧ r'.isNegativeZero = false) →
      (if r.negative = true then throw .rangeCheck >>= fun _ : PUnit => pure r.whole else pure r.whole :
        Except Fault ℕ) =
      if r'.negative = true then throw .rangeCheck >>= fun _ : PUnit => pure r'.whole else pure r'.whole := by
    rintro r r' ⟨alike, first, second⟩
    rw [alike.sign first second, alike.whole]
  unfold rollShift
  refine (Agree.inRange rests).bind_eq ?_
  rintro rest rest' ⟨alike, first, second⟩
  dsimp only
  rw [alike.isNegative]
  split
  · have sums := rel_and (alike.add? block) (add?_not_negativeZero first positive)
      (add?_not_negativeZero second positive)
    exact (Agree.faulting _ (.assumed sums)).bind_eq finish
  · exact finish rest rest' ⟨alike, first, second⟩

theorem toCount_le (count : Value) (argument : ℕ) :
    Yields (fun n => n ≤ Value.maxCount) (count.toCount argument) := by
  cases count with
  | boolean b => exact .error _
  | number d =>
    change Yields _ (if (!d.isIntegral || d.isNegative) = true then _ else _)
    split
    · next refused => exact .error _
    · next count =>
      refine .ok ?_
      split
      · exact Nat.le_refl _
      · exact Nat.min_le_right _ _

theorem rollOperands_alike {count count' amount amount' : Value} (amounts : amount.Matches amount')
    (sizes : count.toCount 2 = count'.toCount 2) :
    Agree (fun block block' => block.1 = block'.1 ∧ block.1 ≤ Value.maxCount ∧ block.2.Alike block'.2)
      (rollOperands count amount) (rollOperands count' amount') := by
  have bound := toCount_le count 2
  unfold rollOperands
  rw [← sizes]
  cases counted : count.toCount 2 with
  | error fault => exact .error fault
  | ok n =>
    refine .bind (R := fun m m' => m = n ∧ m' = n) (.ok ⟨rfl, rfl⟩) ?_
    rintro _ _ ⟨rfl, rfl⟩
    refine .bind (amounts.toNumber 1) fun j j' (alike : Decimal.Alike j j') => ?_
    rw [← alike.isIntegral]
    split
    · next integral => exact .ok ⟨rfl, bound _ counted, alike⟩
    · next fractional => exact .error _

theorem roll_alike {count count' amount amount' : Value} (rest : s.Alike t)
    (amounts : amount.Matches amount') (sizes : count.toCount 2 = count'.toCount 2) :
    Outcome.Alike (roll (amount :: count :: s)) (roll (amount' :: count' :: t)) := by
  have blocks := rollOperands_alike amounts sizes
  simp only [roll]
  generalize rollOperands count amount = operands, rollOperands count' amount' = operands' at blocks ⊢
  cases blocks with
  | error fault => exact failed_alike rest fault
  | @ok block block' related =>
    obtain ⟨n, j⟩ := block
    obtain ⟨_, j'⟩ := block'
    obtain ⟨rfl, bound, alike⟩ := related
    have small : n < Decimal.capacity := Nat.lt_of_le_of_lt bound (by decide)
    simp only [rollTop, rest.length_eq, rollShift_eq alike small]
    split
    · exact failed_alike rest _
    split
    · exact ⟨rest, rfl⟩
    split
    · next shift _ =>
      have block := List.forall₂_take n rest
      exact ⟨List.rel_append (List.rel_append (List.forall₂_drop shift block) (List.forall₂_take shift block))
        (List.forall₂_drop n rest), rfl⟩
    · exact failed_alike rest _

end Stack

/-- Whether the operator sees of its operands only which numbers they are. Counts are the
top entry, and below the amount where a block is rolled. -/
def Operator.seesNumbers : Operator → Stack → Bool
  | unary op, v :: _ => op.seesNumber v
  | binary op, w :: v :: _ => op.seesNumbers v w
  | stack .copy, count :: _ | stack .index, count :: _ => !count.isNegativeZero
  | stack .roll, _ :: count :: _ => !count.isNegativeZero
  | _, _ => true

variable {options : Options} {s t : Stack}

theorem Operator.run_alike (op : Operator) (entries : s.Alike t) (first : op.seesNumbers s = true)
    (second : op.seesNumbers t = true) : Outcome.Alike (op.run options s) (op.run options t) := by
  have counted : ∀ {v w : Value}, v.Matches w → (!v.isNegativeZero) = true → (!w.isNegativeZero) = true →
      ∀ k, v.toCount k = w.toCount k := fun alike left right =>
    alike.toCount (Bool.not_eq_true' _ ▸ left) (Bool.not_eq_true' _ ▸ right)
  match entries with
  | .nil =>
    cases op with
    | unary op | binary op => exact Stack.failed_alike .nil _
    | constant b => exact Stack.push_alike .nil (.boolean b)
    | stack op => cases op <;> exact Stack.failed_alike .nil _
  | .cons top .nil =>
    cases op with
    | unary op => exact Stack.pushResult_alike .nil (op.eval_alike _ top first second)
    | binary op => exact Stack.failed_alike (.cons top .nil) _
    | constant b => exact Stack.push_alike (.cons top .nil) (.boolean b)
    | stack op =>
      cases op with
      | pop => exact ⟨.nil, rfl⟩
      | dup => exact Stack.push_alike (.cons top .nil) top
      | copy => exact Stack.copy_alike .nil (counted top first second 1)
      | index => exact Stack.index_alike .nil (counted top first second 1)
      | exch | roll => exact Stack.failed_alike (.cons top .nil) _
  | .cons top (.cons deeper rest) =>
    cases op with
    | unary op => exact Stack.pushResult_alike (.cons deeper rest) (op.eval_alike _ top first second)
    | binary op => exact Stack.pushResult_alike rest (op.eval_alike _ deeper top first second)
    | constant b => exact Stack.push_alike (.cons top (.cons deeper rest)) (.boolean b)
    | stack op =>
      cases op with
      | pop => exact ⟨.cons deeper rest, rfl⟩
      | dup => exact Stack.push_alike (.cons top (.cons deeper rest)) top
      | exch => exact Stack.exch_alike (.cons top (.cons deeper rest))
      | copy => exact Stack.copy_alike (.cons deeper rest) (counted top first second 1)
      | index => exact Stack.index_alike (.cons deeper rest) (counted top first second 1)
      | roll => exact Stack.roll_alike rest top (counted deeper first second 2)

/-- The same report, the same result, and the same values left. -/
structure Run.Alike (r r' : Run) : Prop where
  stack : Stack.Alike r.stack r'.stack
  log : r.log = r'.log
  result : r.result = r'.result

theorem Run.ofOutcome_alike {o o' : Outcome} (outcomes : o.Alike o') (log : List Event)
    (operator : Option Operator) : Run.Alike (ofOutcome log operator o) (ofOutcome log operator o') :=
  ⟨outcomes.stack, rfl, congrArg (Except.mapError (EvalError.mk operator)) outcomes.result⟩

theorem Run.andThen_alike {r r' : Run} {next next' : Stack → Run} (first : r.Alike r')
    (rest : r.result = .ok () → (next r.stack).Alike (next' r'.stack)) :
    Run.Alike (r.andThen next) (r'.andThen next') := by
  cases ended : r.result with
  | error e =>
    rw [andThen_of_error ended, andThen_of_error (first.result ▸ ended)]
    exact first
  | ok =>
    have continued := rest ended
    rw [andThen_of_ok ended, andThen_of_ok (first.result ▸ ended)]
    exact ⟨continued.stack, by rw [first.log, continued.log], continued.result⟩

def Token.seesNumbers : Token → Stack → Bool
  | operator run, s => (Operator.ofSpelling? run).all (·.seesNumbers s)
  | _, _ => true

/-- Whether no operator of the run sees how its operands are encoded. -/
def runSeesNumbers (options : Options) : List Token → Stack → Bool
  | [], _ => true
  | t :: rest, s => t.seesNumbers s &&
    match (t.run options s).result with
    | .ok () => runSeesNumbers options rest (t.run options s).stack
    | .error _ => true

theorem Token.run_alike (token : Token) (entries : s.Alike t) (first : token.seesNumbers s = true)
    (second : token.seesNumbers t = true) : Run.Alike (token.run options s) (token.run options t) := by
  cases token with
  | number digits =>
    simp only [Token.run, runNumber]
    split
    · exact Run.ofOutcome_alike (Stack.done_alike entries) _ _
    · next number read =>
      have literal : Agree Value.Matches (number.map .number) (number.map .number) :=
        .self (fun _ => .refl) (.map (Numeral.read?_wellFormed digits number read) fun _ fits => fits)
      exact Run.ofOutcome_alike (Stack.pushResult_alike entries literal) _ _
  | operator name =>
    simp only [Token.run, runOperator]
    cases found : Operator.ofSpelling? name with
    | none => exact Run.ofOutcome_alike (Stack.failed_alike entries _) _ _
    | some op =>
      simp only [Token.seesNumbers, found, Option.all_some] at first second
      simp only [entries.length_eq]
      exact Run.ofOutcome_alike (op.run_alike entries first second) _ _
  | stray byte => exact Run.ofOutcome_alike (Stack.done_alike entries) _ _

theorem runTokens_alike (tokens : List Token) (entries : s.Alike t)
    (first : runSeesNumbers options tokens s = true) (second : runSeesNumbers options tokens t = true) :
    Run.Alike (runTokens options tokens s) (runTokens options tokens t) := by
  induction tokens generalizing s t with
  | nil => exact Run.ofOutcome_alike (Stack.done_alike entries) _ _
  | cons token rest ih =>
    rw [runTokens_cons, runTokens_cons]
    simp only [runSeesNumbers, Bool.and_eq_true] at first second
    have step : Run.Alike (token.run options s) (token.run options t) :=
      token.run_alike entries first.1 second.1
    refine Run.andThen_alike step fun completed => ih step.stack ?_ ?_
    · simpa only [completed] using first.2
    · simpa only [← step.result, completed] using second.2

/-- The same values entry by entry, as `eq` compares them. -/
def Stack.Same (s t : Stack) : Prop := List.Forall₂ (fun v w => v.same w = true) s t

theorem Value.alike_of_same {v w : Value} (left : v.WellFormed) (right : w.WellFormed)
    (same : v.same w = true) : v.Matches w := by
  match v, w with
  | .number a, .number b => exact .number ⟨left, right, Decimal.same_iff.mp same⟩
  | .boolean a, .boolean b =>
    obtain rfl : a = b := beq_iff_eq.mp same
    exact .boolean a
  | .number _, .boolean _ | .boolean _, .number _ => contradiction

theorem Value.Matches.same {v w : Value} (alike : v.Matches w) : v.same w = true := by
  cases alike with
  | number alike => exact Decimal.same_iff.mpr alike.value
  | boolean b => exact beq_self_eq_true b

theorem Stack.alike_of_same (left : s.WellFormed) (right : t.WellFormed) (same : s.Same t) : s.Alike t := by
  induction same with
  | nil => exact .nil
  | @cons v w s t top rest ih =>
    obtain ⟨first, left⟩ := List.forall_mem_cons.mp left
    obtain ⟨second, right⟩ := List.forall_mem_cons.mp right
    exact .cons (Value.alike_of_same first second top) (ih left right)

/-- On two encodings of one stack a program reports the same, has the same result and leaves
the same values, if on neither of them one of its operators sees how operands are encoded. -/
theorem execute_same (options : Options) (script : List UInt8) (s t : Stack)
    (left : s.WellFormed) (right : t.WellFormed) (same : s.Same t)
    (first : runSeesNumbers options (Token.scan Operator.startsWith script) s = true)
    (second : runSeesNumbers options (Token.scan Operator.startsWith script) t = true) :
    (execute options script s).result = (execute options script t).result ∧
      (execute options script s).log = (execute options script t).log ∧
      (execute options script s).stack.Same (execute options script t).stack := by
  have runs := runTokens_alike _ (Stack.alike_of_same left right same) first second
  exact ⟨runs.result, runs.log, runs.stack.imp fun _ _ => Value.Matches.same⟩

/-- A zero with a minus sign loses it before it is a count. -/
theorem execute_same_padded :
    let script := Ascii.bytes "exch abs copy dup add 3 div sqrt"
    let s : Stack := [.number ⟨false, 50, 2⟩, .number ⟨true, 0, 3⟩, .boolean true]
    let t : Stack := [.number ⟨false, 5, 1⟩, .ofInt 0, .boolean true]
    let tokens := Token.scan Operator.startsWith script
    s.WellFormed ∧ t.WellFormed ∧ s.Same t ∧ runSeesNumbers {} tokens s = true ∧
      runSeesNumbers {} tokens t = true ∧
      (execute {} script s).result = (execute {} script t).result ∧
      (execute {} script s).log = (execute {} script t).log ∧
      (execute {} script s).stack.Same (execute {} script t).stack := by
  intro script s t tokens
  have fits : ∀ a b : Decimal, a.WellFormed → b.WellFormed →
      Stack.WellFormed [.number a, .number b, .boolean true] := fun a b first second =>
    List.forall_mem_cons.mpr
      ⟨first, List.forall_mem_cons.mpr ⟨second, List.forall_mem_singleton.mpr True.intro⟩⟩
  have left : s.WellFormed := fits _ _ ⟨by decide, by decide⟩ ⟨by decide, by decide⟩
  have right : t.WellFormed := fits _ _ ⟨by decide, by decide⟩ ⟨by decide, by decide⟩
  have same : s.Same t := .cons rfl (.cons rfl (.cons rfl .nil))
  have first : runSeesNumbers {} tokens s = true := by decide +kernel
  have second : runSeesNumbers {} tokens t = true := by decide +kernel
  exact ⟨left, right, same, first, second, execute_same {} script s t left right same first second⟩

/-- Each kind of operands that is left out is seen: one of two encodings of a zero is no count
of one entry and has no root, and zeros behind the point change an integer quotient and a
power. -/
theorem execute_same_excluded :
    let zero : Value := .ofInt 0
    let negativeZero : Value := .number ⟨true, 0, 0⟩
    let ran (name : String) (s : Stack) : Stack × Except EvalError Unit :=
      (execute {} (Ascii.bytes name) s).effect
    Stack.Same [negativeZero, .ofInt 1] [zero, .ofInt 1] ∧
      ran "copy" [negativeZero, .ofInt 1] = ([.ofInt 1], .error ⟨some (.stack .copy), .stackUnderflow⟩) ∧
      ran "copy" [zero, .ofInt 1] = ([.ofInt 1], .ok ()) ∧
    Stack.Same [negativeZero] [zero] ∧
      ran "sqrt" [negativeZero] = ([], .error ⟨some (.unary (.arithmetic .sqrt)), .rangeCheck⟩) ∧
      ran "sqrt" [zero] = ([zero], .ok ()) ∧
    Stack.Same [.number ⟨false, 7000000000000000000000000, 22⟩, .number ⟨false, 300647710650000000000000, 11⟩]
        [.ofInt 700, .ofInt 3006477106500] ∧
      ran "idiv" [.number ⟨false, 7000000000000000000000000, 22⟩,
        .number ⟨false, 300647710650000000000000, 11⟩] = ([.ofInt 4294967294], .ok ()) ∧
      ran "idiv" [.ofInt 700, .ofInt 3006477106500] = ([.ofInt 4294967295], .ok ()) ∧
    Stack.Same [.ofInt 1027, .number ⟨false, 100802000000000, 14⟩]
        [.ofInt 1027, .number ⟨false, 100802, 5⟩] ∧
      ran "exp" [.ofInt 1027, .number ⟨false, 100802000000000, 14⟩] =
        ([.number ⟨false, 3654399311730553225004055194, 24⟩], .ok ()) ∧
      ran "exp" [.ofInt 1027, .number ⟨false, 100802, 5⟩] =
        ([.number ⟨false, 3654399311730553225004055193, 24⟩], .ok ()) := by
  refine ⟨.cons rfl (.cons rfl .nil), ?_, ?_, .cons rfl .nil, ?_, ?_, .cons rfl (.cons rfl .nil), ?_, ?_,
    .cons rfl (.cons rfl .nil), ?_, ?_⟩
  all_goals decide +kernel

end StackCalculator

import StackCalculator.Session

/-! Steps and runs one after the other. Sequencing is associative, so the tokens of a
program may be grouped at will. The effect of a run is the stack and the error that
it leaves, and it depends on nothing but the effects of its parts. -/
namespace StackCalculator
namespace Outcome
variable {o : Outcome} {next : Stack → Outcome}

theorem andThen_of_ok (completed : o.result = .ok ()) : o.andThen next = next o.stack := by
  simp only [andThen, completed]

theorem andThen_of_error (failed : o.result = .error fault) : o.andThen next = o := by
  simp only [andThen, failed]

/-- What two steps keep their sequence keeps, also where it stops in between. -/
theorem andThen_forall {P : Stack → Prop} (first : P o.stack)
    (kept : ∀ s, P s → P (next s).stack) : P (o.andThen next).stack := by
  cases ended : o.result with
  | error fault => rwa [andThen_of_error ended]
  | ok => exact andThen_of_ok ended ▸ kept _ first

end Outcome

namespace Run
variable {r : Run} {next : Stack → Run}

theorem andThen_of_ok (completed : r.result = .ok ()) :
    r.andThen next = ⟨(next r.stack).stack, r.log ++ (next r.stack).log, (next r.stack).result⟩ := by
  simp only [andThen, completed]

theorem andThen_of_error (failed : r.result = .error e) : r.andThen next = r := by
  simp only [andThen, failed]

theorem andThen_forall {P : Stack → Prop} (first : P r.stack) (kept : ∀ s, P s → P (next s).stack) :
    P (r.andThen next).stack := by
  cases ended : r.result with
  | error e => rwa [andThen_of_error ended]
  | ok => exact andThen_of_ok ended ▸ kept _ first

theorem done_andThen (s : Stack) (operator : Option Operator) :
    (ofOutcome [] operator (.done s)).andThen next = next s := rfl

theorem result_ofOutcome {o : Outcome} (log : List Event) (operator : Option Operator)
    (failed : o.result = .error fault) : (ofOutcome log operator o).result = .error ⟨operator, fault⟩ :=
  congrArg (Except.mapError (EvalError.mk operator)) failed

theorem done_of_ofOutcome {o : Outcome} {log : List Event} {operator : Option Operator}
    (completed : (ofOutcome log operator o).result = .ok ()) : o = .done o.stack := by
  obtain ⟨left, ended⟩ := o
  cases ended with
  | error fault => cases completed
  | ok => rfl

theorem andThen_assoc (r : Run) (next last : Stack → Run) :
    (r.andThen next).andThen last = r.andThen fun s => (next s).andThen last := by
  cases first : r.result with
  | error e => rw [andThen_of_error first, andThen_of_error first, andThen_of_error first]
  | ok =>
    rw [andThen_of_ok first, andThen_of_ok first]
    cases second : (next r.stack).result with
    | error e => rw [andThen_of_error rfl, andThen_of_error second, second]
    | ok =>
      rw [andThen_of_ok rfl, andThen_of_ok second]
      simp only [List.append_assoc]

/-- What a run leaves and how it ends, whatever it reports. -/
def effect (r : Run) : Stack × Except EvalError Unit := (r.stack, r.result)

theorem effect_andThen {first second : Run} {next : Stack → Run}
    (same : first.effect = second.effect)
    (continued : ∀ s, (next s).effect = (next' s).effect) :
    (first.andThen next).effect = (second.andThen next').effect := by
  obtain ⟨sameStack, sameResult⟩ := Prod.mk.inj same
  cases ended : second.result with
  | error e => rw [andThen_of_error ended, andThen_of_error (sameResult.trans ended), same]
  | ok =>
    rw [andThen_of_ok ended, andThen_of_ok (sameResult.trans ended), sameStack]
    exact continued second.stack

/-- What is returned are the outputs of the stack that was left. -/
theorem outputs_of_finish {numbers : List Decimal} (returned : r.finish.result = .ok numbers) :
    r.result = .ok () ∧ r.stack.outputs = .ok numbers := by
  cases ended : r.result with
  | error e =>
    simp only [finish, ended] at returned
    cases returned
  | ok =>
    simp only [finish, ended] at returned
    cases found : r.stack.outputs with
    | error fault =>
      rw [found] at returned
      cases returned
    | ok outputs =>
      rw [found] at returned
      cases returned
      exact ⟨rfl, rfl⟩

end Run

variable {options : Options}

theorem runTokens_nil (s : Stack) : runTokens options [] s = .ofOutcome [] none (.done s) := rfl

theorem runTokens_cons (t : Token) (rest : List Token) (s : Stack) :
    runTokens options (t :: rest) s = (t.run options s).andThen (runTokens options rest) := rfl

theorem runTokens_append (first last : List Token) (s : Stack) :
    runTokens options (first ++ last) s =
      (runTokens options first s).andThen (runTokens options last) := by
  induction first generalizing s with
  | nil => rfl
  | cons t rest ih =>
    rw [List.cons_append, runTokens_cons, runTokens_cons, Run.andThen_assoc]
    exact congrArg _ (funext ih)

end StackCalculator

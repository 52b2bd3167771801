import StackCalculator.CalcFunction
import StackCalculator.Proofs.Binades
import StackCalculator.Proofs.Trace
import StackCalculator.Proofs.WellFormed

/-! How a call of a function ends. Four things can happen, in this order: an argument has no
decimal, the program fails, its outputs are not as many as they should be, or each of them
becomes a single-precision number. That last step cannot fail: arguments and program only
make decimals of the format, and those all have a pattern. -/
namespace StackCalculator

section Format
variable {options : Options} {arguments outputs : List Decimal} {s : Stack}

theorem pushAll_wellFormed (fits : ∀ d ∈ arguments, d.WellFormed) (wellFormed : s.WellFormed) :
    Stack.WellFormed (pushAll options arguments s).stack := by
  induction arguments generalizing s with
  | nil => exact wellFormed
  | cons d rest ih =>
    obtain ⟨first, others⟩ := List.forall_mem_cons.mp fits
    have pushed : Stack.WellFormed (s.push options.maxStackDepth (.number d)).stack :=
      Stack.push_wellFormed first wellFormed
    exact Run.andThen_forall pushed fun s kept => ih others kept

theorem evaluate_wellFormed {script : List UInt8} (fits : ∀ d ∈ arguments, d.WellFormed)
    (returned : (evaluate options script arguments).result = .ok outputs) :
    ∀ d ∈ outputs, d.WellFormed := by
  have pushed : Stack.WellFormed (pushAll options arguments []).stack :=
    pushAll_wellFormed fits (List.forall_mem_nil _)
  have left : Stack.WellFormed
      ((pushAll options arguments []).andThen (execute options script)).stack := by
    refine Run.andThen_forall pushed fun s start => ?_
    exact tokenStacks_forall (fun t s => t.run_wellFormed s) start _
      ((mem_tokenStacks_iff _ _ _).mpr ⟨_, List.prefix_rfl, rfl⟩)
  exact Stack.outputs_wellFormed left outputs (Run.outputs_of_finish returned).2

end Format

/-- Only a wrong number of outputs is worth a warning. -/
def Event.isWarning : Event → Bool
  | outputMismatch _ _ => true
  | _ => false

section Log
variable {options : Options} {s : Stack}

def Run.Quiet (r : Run) : Prop := ∀ event ∈ r.log, event.isWarning = false

theorem Run.Quiet.andThen {r : Run} {next : Stack → Run} (first : r.Quiet)
    (continued : ∀ s, (next s).Quiet) : (r.andThen next).Quiet := by
  cases ended : r.result with
  | error e => rwa [andThen_of_error ended]
  | ok =>
    rw [andThen_of_ok ended]
    exact List.forall_mem_append.mpr ⟨first, continued r.stack⟩

theorem pushAll_quiet (arguments : List Decimal) (s : Stack) :
    (pushAll options arguments s).Quiet := by
  induction arguments generalizing s with
  | nil => exact List.forall_mem_nil _
  | cons d rest ih => exact .andThen (List.forall_mem_nil _) ih

theorem Token.run_quiet (t : Token) (s : Stack) : (t.run options s).Quiet := by
  cases t with
  | number run =>
    simp only [Token.run, runNumber]
    split
    · exact List.forall_mem_singleton.mpr rfl
    · exact List.forall_mem_nil _
  | operator run =>
    simp only [Token.run, runOperator]
    split
    · exact List.forall_mem_nil _
    · exact List.forall_mem_singleton.mpr rfl
  | stray byte => exact List.forall_mem_singleton.mpr rfl

theorem runTokens_quiet (tokens : List Token) (s : Stack) :
    (runTokens options tokens s).Quiet := by
  induction tokens generalizing s with
  | nil => exact List.forall_mem_nil _
  | cons t rest ih => exact .andThen (t.run_quiet s) ih

theorem evaluate_quiet (options : Options) (script : List UInt8) (arguments : List Decimal) :
    ∀ event ∈ (evaluate options script arguments).log, event.isWarning = false := by
  have quiet : ((pushAll options arguments []).andThen (execute options script)).Quiet :=
    .andThen (pushAll_quiet arguments []) (runTokens_quiet _)
  simp only [evaluate, Run.finish]
  split
  · exact List.forall_mem_append.mpr ⟨quiet, List.forall_mem_singleton.mpr rfl⟩
  · exact quiet

end Log

namespace CalcFunction

/-- The places of the arguments that have no decimal. -/
def unconvertible (arguments : List Single) : Set ℕ :=
  {i | ∃ a, arguments[i]? = some a ∧ a.toDecimal? = none}

/-- Each argument has its decimal. -/
def Converted (arguments : List Single) (decimals : List Decimal) : Prop :=
  List.Forall₂ (fun a d => a.toDecimal? = some d) arguments decimals

/-- Each output has its single-precision number. -/
def Delivered (outputs : List Decimal) (floats : List Single) : Prop :=
  List.Forall₂ (fun d a => Single.ofDecimal? d = some a) outputs floats

/-- The ways in which a call can end. -/
inductive Calls (f : CalcFunction) (arguments : List Single) : Call → Prop where
  /-- The program does not run. -/
  | rejected (first : IsLeast (unconvertible arguments) i) (place : arguments[i]? = some a) :
      Calls f arguments ⟨[], .error (.notFinite i a)⟩
  | failed (converted : Converted arguments decimals)
      (raised : (f.eval decimals).result = .error e) :
      Calls f arguments ⟨(f.eval decimals).log, .error (.evaluation e)⟩
  | miscounted (converted : Converted arguments decimals)
      (returned : (f.eval decimals).result = .ok outputs)
      (other : outputs.length ≠ f.outputCount) :
      Calls f arguments
        ⟨(f.eval decimals).log ++ [.outputMismatch outputs.length f.outputCount],
          .error (.outputCount f.outputCount outputs.length)⟩
  | delivered (converted : Converted arguments decimals)
      (returned : (f.eval decimals).result = .ok outputs)
      (counted : outputs.length = f.outputCount) (delivered : Delivered outputs floats) :
      Calls f arguments ⟨(f.eval decimals).log, .ok floats⟩

section Conversions
variable {index i : ℕ} {a : Single} {arguments floats : List Single} {decimals outputs : List Decimal}

theorem unconvertible_cons {d : Decimal} (convertible : a.toDecimal? = some d)
    (first : IsLeast (unconvertible arguments) i) :
    IsLeast (unconvertible (a :: arguments)) (i + 1) := by
  obtain ⟨member, least⟩ := first
  refine ⟨member, ?_⟩
  rintro j ⟨b, place, none⟩
  cases j with
  | zero =>
    cases place
    rw [convertible] at none
    cases none
  | succ j => exact Nat.succ_le_succ (least ⟨b, place, none⟩)

/-- The first argument without a decimal is found, if there is one. -/
theorem decimalsFrom_cases (arguments : List Single) (index : ℕ) :
    (∃ decimals, Converted arguments decimals ∧ decimalsFrom index arguments = .ok decimals) ∨
      ∃ i a, IsLeast (unconvertible arguments) i ∧ arguments[i]? = some a ∧
        decimalsFrom index arguments = .error (.notFinite (index + i) a) := by
  induction arguments generalizing index with
  | nil => exact .inl ⟨[], .nil, rfl⟩
  | cons a rest ih =>
    cases found : a.toDecimal? with
    | none =>
      refine .inr ⟨0, a, ⟨⟨a, rfl, found⟩, fun _ _ => Nat.zero_le _⟩, rfl, ?_⟩
      simp only [decimalsFrom, found, Nat.add_zero]
    | some d =>
      rcases ih (index + 1) with ⟨decimals, converted, others⟩ | ⟨i, b, first, place, others⟩
      · refine .inl ⟨d :: decimals, .cons found converted, ?_⟩
        simp only [decimalsFrom, found, others]
        rfl
      · refine .inr ⟨i + 1, b, unconvertible_cons found first, place, ?_⟩
        simp only [decimalsFrom, found, others, Nat.add_right_comm]
        rfl

theorem Converted.not_mem_unconvertible (converted : Converted arguments decimals) :
    i ∉ unconvertible arguments := by
  rintro ⟨a, place, none⟩
  induction converted generalizing i with
  | nil => cases place
  | cons first _ ih =>
    cases i with
    | zero =>
      cases place
      rw [first] at none
      cases none
    | succ i => exact ih place

theorem decimalsFrom_of_converted (converted : Converted arguments decimals) (index : ℕ) :
    decimalsFrom index arguments = .ok decimals := by
  induction converted generalizing index with
  | nil => rfl
  | cons first _ ih =>
    simp only [decimalsFrom, first, ih (index + 1)]
    rfl

theorem decimalsFrom_of_unconvertible (first : IsLeast (unconvertible arguments) i)
    (place : arguments[i]? = some a) : decimalsFrom 0 arguments = .error (.notFinite i a) := by
  rcases decimalsFrom_cases arguments 0 with ⟨decimals, converted, -⟩ | ⟨j, b, other, found, failed⟩
  · exact absurd first.1 converted.not_mem_unconvertible
  · obtain rfl := first.unique other
    obtain rfl := Option.some.inj (place.symm.trans found)
    rwa [Nat.zero_add] at failed

theorem Converted.wellFormed (converted : Converted arguments decimals) :
    ∀ d ∈ decimals, d.WellFormed := by
  induction converted with
  | nil => exact List.forall_mem_nil _
  | @cons a d _ _ first _ ih =>
    exact List.forall_mem_cons.mpr ⟨a.toDecimal?_wellFormed d first, ih⟩

theorem singles_of_delivered (delivered : Delivered outputs floats) :
    singles outputs = .ok floats := by
  induction delivered with
  | nil => rfl
  | cons first _ ih =>
    simp only [singles, single, first, ih]
    rfl

theorem exists_delivered (fits : ∀ d ∈ outputs, d.WellFormed) :
    ∃ floats, Delivered outputs floats := by
  induction outputs with
  | nil => exact ⟨[], .nil⟩
  | cons d rest ih =>
    obtain ⟨first, others⟩ := List.forall_mem_cons.mp fits
    obtain ⟨a, converted⟩ := Option.isSome_iff_exists.mp (Single.ofDecimal?_isSome first)
    obtain ⟨floats, delivered⟩ := ih others
    exact ⟨a :: floats, .cons converted delivered⟩

end Conversions

section Calls
variable {f : CalcFunction} {arguments : List Single} {call : Call}

theorem Calls.exec_eq (called : f.Calls arguments call) : f.exec arguments = call := by
  cases called with
  | rejected first place => simp only [exec, decimalsFrom_of_unconvertible first place]
  | failed converted raised => simp only [exec, decimalsFrom_of_converted converted, deliver, raised]
  | miscounted converted returned other =>
    simp only [exec, decimalsFrom_of_converted converted, deliver, returned, if_neg other]
  | delivered converted returned counted delivered =>
    simp only [exec, decimalsFrom_of_converted converted, deliver, returned, if_pos counted,
      singles_of_delivered delivered]

theorem calls_exec (f : CalcFunction) (arguments : List Single) :
    f.Calls arguments (f.exec arguments) := by
  rcases decimalsFrom_cases arguments 0 with ⟨decimals, converted, -⟩ | ⟨i, a, first, place, -⟩
  · cases returned : (f.eval decimals).result with
    | error e =>
      have called := Calls.failed converted returned
      rwa [called.exec_eq]
    | ok outputs =>
      by_cases counted : outputs.length = f.outputCount
      · obtain ⟨floats, delivered⟩ :=
          exists_delivered (evaluate_wellFormed converted.wellFormed returned)
        have called := Calls.delivered converted returned counted delivered
        rwa [called.exec_eq]
      · have called := Calls.miscounted converted returned counted
        rwa [called.exec_eq]
  · have called := Calls.rejected (f := f) first place
    rwa [called.exec_eq]

theorem Calls.result_ne (called : f.Calls arguments call) (output : Decimal) :
    call.result ≠ .error (.notRepresentable output) := by
  intro unreachable
  cases called <;> cases unreachable

theorem Calls.length_eq {floats : List Single} (called : f.Calls arguments call)
    (returned : call.result = .ok floats) : floats.length = f.outputCount := by
  cases called with
  | rejected | failed | miscounted => cases returned
  | delivered _ _ counted delivered =>
    cases returned
    exact (List.Forall₂.length_eq delivered).symm.trans counted

theorem Calls.warnings (called : f.Calls arguments call) :
    call.log.filter Event.isWarning =
      match call.result with
      | .error (.outputCount expected returned) => [.outputMismatch returned expected]
      | _ => [] := by
  have quiet (decimals : List Decimal) : (f.eval decimals).log.filter Event.isWarning = [] :=
    List.filter_eq_nil_iff.mpr fun event member =>
      Bool.eq_false_iff.mp (evaluate_quiet f.options f.script decimals event member)
  cases called with
  | rejected => rfl
  | failed | delivered => exact quiet _
  | miscounted =>
    rw [List.filter_append, quiet]
    rfl

end Calls

/-- A call ends in exactly one of the four ways, and says which. It never fails to convert an
output, the outputs it delivers are as many as they should be, and it warns once where they
are not and nowhere else. -/
theorem exec_outcomes (f : CalcFunction) (arguments : List Single) :
    (∀ call, f.exec arguments = call ↔ f.Calls arguments call) ∧
    (∀ output, (f.exec arguments).result ≠ .error (.notRepresentable output)) ∧
    (∀ floats, (f.exec arguments).result = .ok floats → floats.length = f.outputCount) ∧
    (f.exec arguments).log.filter Event.isWarning =
      match (f.exec arguments).result with
      | .error (.outputCount expected returned) => [.outputMismatch returned expected]
      | _ => [] := by
  have called := f.calls_exec arguments
  refine ⟨?_, called.result_ne, fun floats => called.length_eq, called.warnings⟩
  intro call
  constructor
  · rintro rfl
    exact called
  · exact Calls.exec_eq

/-- The largest finite argument comes before one that is not a number, and neither has a
decimal; a third is delivered, and with one output wanted there is one too many. -/
theorem exec_outcomes_third :
    let script := Ascii.bytes "\x7b dup 3 div \x7d"
    let pair : CalcFunction := ⟨script, 2, {}⟩
    let alone : CalcFunction := ⟨script, 1, {}⟩
    let one : Single := ⟨1065353216⟩
    let third : Single := ⟨1051372203⟩
    let largest : Single := ⟨2139095039⟩
    let nan : Single := ⟨2143289344⟩
    let events : List Event := [.executing "dup" 1, .executing "div" 3, .finished 2]
    pair.Calls [one, largest, nan] ⟨[], .error (.notFinite 1 largest)⟩ ∧
      pair.Calls [one] ⟨events, .ok [one, third]⟩ ∧ [one, third].length = 2 ∧
      alone.Calls [one] ⟨events ++ [.outputMismatch 2 1], .error (.outputCount 1 2)⟩ ∧
      pair.Calls [] ⟨[.executing "dup" 0],
        .error (.evaluation ⟨some (.stack .dup), .stackUnderflow⟩)⟩ ∧
      (CallError.notFinite 1 nan).message = "argument 1 is not finite: NaN" ∧
      (Event.outputMismatch 2 1).line = "WARN type 4 function returns 2 values, expected 1" := by
  intro script pair alone one third largest nan events
  have ended {f : CalcFunction} {arguments : List Single} {log : List Event}
      {result : Except CallError (List Single)} (logged : (f.exec arguments).log = log)
      (returned : (f.exec arguments).result = result) : f.Calls arguments ⟨log, result⟩ :=
    ((exec_outcomes f arguments).1 _).mp (congrArg₂ Call.mk logged returned)
  have delivered : (pair.exec [one]).result = .ok [one, third] := by decide +kernel
  refine ⟨ended ?_ ?_, ended ?_ delivered, (exec_outcomes pair [one]).2.2.1 _ delivered,
    ended ?_ ?_, ended ?_ ?_, ?_, ?_⟩
  all_goals decide +kernel

end CalcFunction
end StackCalculator

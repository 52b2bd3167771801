import StackCalculator.Proofs.Runs

/-! The stacks that a machine goes through: before and after every command, and in a
program before and after every token. Those inside a program are the stacks that
its beginnings leave. What holds at first and is kept by every push and every token
holds of all of them. -/
namespace StackCalculator

/-- The stack before the first token and those after each token that runs. The token
that fails is the last to run. -/
def tokenStacks (options : Options) : List Token → Stack → List Stack
  | [], s => [s]
  | t :: rest, s =>
    let r := t.run options s
    match r.result with
    | .ok () => s :: tokenStacks options rest r.stack
    | .error _ => [s, r.stack]

def Command.visited (options : Options) (c : Command) (s : Stack) : List Stack :=
  match c with
  | .push _ => [s, (c.run options s).stack]
  | .execute script => tokenStacks options (Token.scan Operator.startsWith script) s

/-- The stacks of all commands, each command on the stack that the one before it left. -/
def sessionStacks (options : Options) : List Command → Stack → List Stack
  | [], s => [s]
  | c :: rest, s => c.visited options s ++ sessionStacks options rest (c.run options s).stack

/-- A stack that a machine can come to, between two commands or between two tokens of a
program. -/
def Reachable (options : Options) (s : Stack) : Prop :=
  ∃ commands, s ∈ sessionStacks options commands []

variable {options : Options}

theorem tokenStacks_of_ok {t : Token} (completed : (t.run options s).result = .ok ()) :
    tokenStacks options (t :: rest) s = s :: tokenStacks options rest (t.run options s).stack := by
  simp only [tokenStacks, completed]

theorem tokenStacks_of_error {t : Token} (failed : (t.run options s).result = .error e) :
    tokenStacks options (t :: rest) s = [s, (t.run options s).stack] := by
  simp only [tokenStacks, failed]

theorem start_mem_tokenStacks (tokens : List Token) (s : Stack) : s ∈ tokenStacks options tokens s := by
  cases tokens with
  | nil => exact List.mem_singleton_self s
  | cons t rest =>
    cases ended : (t.run options s).result with
    | error e =>
      rw [tokenStacks_of_error ended]
      exact List.mem_cons_self
    | ok =>
      rw [tokenStacks_of_ok ended]
      exact List.mem_cons_self

/-- The stacks inside a program are those that its beginnings leave. -/
theorem mem_tokenStacks_iff (tokens : List Token) (s visited : Stack) :
    visited ∈ tokenStacks options tokens s ↔
      ∃ done, done <+: tokens ∧ visited = (runTokens options done s).stack := by
  induction tokens generalizing s with
  | nil => simp [tokenStacks, runTokens_nil, Run.ofOutcome, Outcome.done]
  | cons t rest ih =>
    constructor
    · intro member
      cases ended : (t.run options s).result with
      | error e =>
        rw [tokenStacks_of_error ended] at member
        simp only [List.mem_cons, List.not_mem_nil, or_false] at member
        rcases member with rfl | rfl
        · exact ⟨[], List.nil_prefix, rfl⟩
        · exact ⟨[t], ⟨rest, rfl⟩, by rw [runTokens_cons, Run.andThen_of_error ended]⟩
      | ok =>
        rw [tokenStacks_of_ok ended] at member
        rcases List.mem_cons.mp member with rfl | later
        · exact ⟨[], List.nil_prefix, rfl⟩
        · obtain ⟨done, beginning, rfl⟩ := (ih _).mp later
          exact ⟨t :: done, List.cons_prefix_cons.mpr ⟨rfl, beginning⟩,
            by rw [runTokens_cons, Run.andThen_of_ok ended]⟩
    · rintro ⟨done, beginning, left⟩
      cases done with
      | nil => exact left ▸ start_mem_tokenStacks _ _
      | cons first done =>
        obtain ⟨rfl, shorter⟩ := List.cons_prefix_cons.mp beginning
        rw [runTokens_cons] at left
        cases ended : (first.run options s).result with
        | error e =>
          rw [Run.andThen_of_error ended] at left
          rw [tokenStacks_of_error ended, left]
          exact List.mem_of_getLast? rfl
        | ok =>
          rw [Run.andThen_of_ok ended] at left
          rw [tokenStacks_of_ok ended]
          exact List.mem_cons_of_mem s ((ih _).mpr ⟨done, shorter, left⟩)

/-- The stack that a command leaves is one of those that it goes through. -/
theorem Command.left_mem_visited (c : Command) (s : Stack) :
    (c.run options s).stack ∈ c.visited options s := by
  cases c with
  | push v => exact List.mem_of_getLast? rfl
  | execute script => exact (mem_tokenStacks_iff _ _ _).mpr ⟨_, List.prefix_rfl, rfl⟩

theorem left_mem_sessionStacks {commands : List Command} {r : Run}
    (member : r ∈ session options commands s) : r.stack ∈ sessionStacks options commands s := by
  induction commands generalizing s with
  | nil => cases member
  | cons c rest ih =>
    rcases List.mem_cons.mp member with rfl | later
    · exact List.mem_append_left _ (c.left_mem_visited s)
    · exact List.mem_append_right _ (ih later)

section Invariant
variable {P : Stack → Prop} {tokens : List Token} {s : Stack}

theorem tokenStacks_forall (kept : ∀ (t : Token) s, P s → P (t.run options s).stack) (start : P s) :
    ∀ visited ∈ tokenStacks options tokens s, P visited := by
  induction tokens generalizing s with
  | nil => exact List.forall_mem_singleton.mpr start
  | cons t rest ih =>
    have after : P (t.run options s).stack := kept t s start
    cases ended : (t.run options s).result with
    | error e =>
      rw [tokenStacks_of_error ended]
      exact List.forall_mem_cons.mpr ⟨start, List.forall_mem_singleton.mpr after⟩
    | ok =>
      rw [tokenStacks_of_ok ended]
      exact List.forall_mem_cons.mpr ⟨start, ih after⟩

theorem sessionStacks_forall {commands : List Command}
    (pushed : ∀ v s, P s → P (s.push options.maxStackDepth v).stack)
    (kept : ∀ (t : Token) s, P s → P (t.run options s).stack) (start : P s) :
    ∀ visited ∈ sessionStacks options commands s, P visited := by
  induction commands generalizing s with
  | nil => exact List.forall_mem_singleton.mpr start
  | cons c rest ih =>
    have inside : ∀ visited ∈ c.visited options s, P visited := by
      cases c with
      | push v =>
        exact List.forall_mem_cons.mpr ⟨start, List.forall_mem_singleton.mpr (pushed v s start)⟩
      | execute script => exact tokenStacks_forall kept start
    exact List.forall_mem_append.mpr ⟨inside, ih (inside _ (c.left_mem_visited s))⟩

end Invariant
end StackCalculator

import StackCalculator.Operator.Run
import StackCalculator.Proofs.Faults

/-! Operators on a stack that is kept by positions. The entries lie bottom first, and an operator
works out where its entries are from the depth. A position, a difference, a sum or a number of
places that is out of range stops the machine, and so does an internal fault: such a step has no
outcome. On a stack that fits into memory no position is out of range, and the operators do what
they do on lists. -/
namespace StackCalculator

/-- A step on entries, bottom first. A fault leaves entries behind; a step that stops does not. -/
abbrev Access := ExceptT Fault (StateT (List Value) Option)

namespace Access

def stop : Access α := fun _ => none

/-- A result that is in range, and a stop where there is none. -/
def present (result : Option α) : Access α := fun entries => result.map fun a => (.ok a, entries)

/-- The result of a computation, and a stop for a step of it that was relied on and failed. -/
def computed (result : Except Fault α) : Access α :=
  match result with
  | .ok a => pure a
  | .error .internal => stop
  | .error fault => throw fault

/-- Sizes do not go below zero. -/
def difference? (m n : Nat) : Option Nat := if n ≤ m then some (m - n) else none

/-- The most entries that fit into memory: half of the largest count. -/
def memory : Nat := 9223372036854775807

/-- Sizes do not go above the largest count. -/
def sum? (m n : Nat) : Option Nat := if m + n ≤ Value.maxCount then some (m + n) else none

/-- The entries from a position on. The position after the last one is in range. -/
def from? (start : Nat) (entries : List α) : Option (List α) :=
  if start ≤ entries.length then some (entries.drop start) else none

def put? (position : Nat) (a : α) (entries : List α) : Option (List α) :=
  if position < entries.length then some (entries.set position a) else none

/-- A block turned so that its last entries come first. -/
def rotateRight? (places : Nat) (block : List α) : Option (List α) := do
  let kept ← difference? block.length places
  return block.drop kept ++ block.take kept

def pop : Access Value := do
  let entries ← get
  match entries.getLast? with
  | none => throw .stackUnderflow
  | some v =>
    set entries.dropLast
    return v

def top : Access Value := do
  let entries ← get
  match entries.getLast? with
  | none => throw .stackUnderflow
  | some v => return v

def push (limit : Nat) (v : Value) : Access Unit := do
  let entries ← get
  if limit ≤ entries.length then throw .stackOverflow
  else set (entries ++ [v])

/-- The last `n` entries, bottom first. -/
def popMany (n : Nat) : Access (List Value) := do
  let entries ← get
  if entries.length < n then throw .stackUnderflow
  else
    let start ← present (difference? entries.length n)
    let taken ← present (from? start entries)
    if taken.length = n then
      set (entries.take start)
      return taken
    else stop

/-- Values read as numbers, each put in its place of `numbers`; the next one is at `i` of `n`. -/
def readNumbers (n : Nat) : Nat → List Value → List Decimal → Access (List Decimal)
  | _, [], numbers => return numbers
  | i, v :: rest, numbers => do
    let argument ← present (difference? n i)
    let d ← computed (v.toNumber argument)
    let numbers ← present (put? i d numbers)
    readNumbers n (i + 1) rest numbers

def popNumbers (n : Nat) : Access (List Decimal) := do
  let values ← popMany n
  readNumbers n 0 values (List.replicate n .zero)

def popCount : Access Nat := do
  let count ← pop
  computed (count.toCount 1)

def dup (limit : Nat) : Access Unit := do
  let v ← top
  push limit v

def exch (limit : Nat) : Access Unit := do
  let [v, w] ← popMany 2 | stop
  push limit w
  push limit v

def copy (limit : Nat) : Access Unit := do
  let n ← popCount
  let entries ← get
  if entries.length < n then throw .stackUnderflow
  else
    let total ← present (sum? entries.length n)
    if limit < total then throw .stackOverflow
    else
      let start ← present (difference? entries.length n)
      let block ← present (from? start entries)
      set (entries ++ block)

def index (limit : Nat) : Access Unit := do
  let n ← popCount
  let entries ← get
  if entries.length ≤ n then throw .stackUnderflow
  else
    let last ← present (difference? entries.length 1)
    let position ← present (difference? last n)
    let v ← present entries[position]?
    push limit v

/-- The last `n` entries turned by as many places as the amount leaves. -/
def rollBlock (n : Nat) (j : Decimal) : Access Unit := do
  let entries ← get
  if entries.length < n then throw .stackUnderflow
  else if n = 0 then return
  else
    let places ← computed (Stack.rollShift n j)
    let start ← present (difference? entries.length n)
    let block ← present (from? start entries)
    let turned ← present (rotateRight? places block)
    set (entries.take start ++ turned)

def roll : Access Unit := do
  let [count, amount] ← popMany 2 | stop
  let (n, j) ← computed (Stack.rollOperands count amount)
  rollBlock n j

end Access

def UnaryOp.access (options : Options) (op : UnaryOp) : Access Unit := do
  let v ← Access.pop
  let result ← Access.computed (op.eval options.precision v)
  Access.push options.maxStackDepth result

def BinaryOp.access (options : Options) (op : BinaryOp) : Access Unit :=
  match op with
  | .arithmetic op => do
    let [a, b] ← Access.popNumbers 2 | Access.stop
    let result ← Access.computed (op.eval options.precision a b)
    Access.push options.maxStackDepth (.number result)
  | .comparison op => do
    let [a, b] ← Access.popNumbers 2 | Access.stop
    Access.push options.maxStackDepth (.boolean (op.holds a b))
  | op => do
    let [v, w] ← Access.popMany 2 | Access.stop
    let result ← Access.computed (op.eval options.precision v w)
    Access.push options.maxStackDepth result

def StackOp.access (limit : Nat) (op : StackOp) : Access Unit :=
  match op with
  | .pop => do
    let _ ← Access.pop
    return
  | .dup => Access.dup limit
  | .exch => Access.exch limit
  | .copy => Access.copy limit
  | .index => Access.index limit
  | .roll => Access.roll

def Operator.access (options : Options) (op : Operator) : Access Unit :=
  match op with
  | .unary op => op.access options
  | .binary op => op.access options
  | .constant b => Access.push options.maxStackDepth (.boolean b)
  | .stack op => op.access options.maxStackDepth

namespace Access
variable {step : Access α} {next : α → Access β} {a : α} {s left last : Stack} {fault : Fault}

/-- The step ends with the result, and what it leaves is the stack `left`. -/
def Gives (step : Access α) (s : Stack) (result : Except Fault α) (left : Stack) : Prop :=
  (step.run).run s.reverse = some (result, left.reverse)

def Stops (step : Access α) (s : Stack) : Prop := (step.run).run s.reverse = none

/-- The outcome of a step that returns nothing. -/
def Performs (step : Access Unit) (s : Stack) (o : Outcome) : Prop := step.Gives s o.result o.stack

theorem Gives.not_stops {result : Except Fault α} (gives : step.Gives s result left) : ¬step.Stops s := by
  intro stops
  cases gives.symm.trans stops

theorem Gives.bind {result : Except Fault β} (first : step.Gives s (.ok a) left)
    (rest : (next a).Gives left result last) : (step >>= next).Gives s result last := by
  unfold Gives
  rw [ExceptT.run_bind, StateT.run_bind, first]
  exact rest

theorem Gives.fails (first : step.Gives s (.error fault) left) : (step >>= next).Gives s (.error fault) left := by
  unfold Gives
  rw [ExceptT.run_bind, StateT.run_bind, first]
  rfl

theorem Gives.stops (first : step.Gives s (.ok a) left) (rest : (next a).Stops left) : (step >>= next).Stops s := by
  unfold Stops
  rw [ExceptT.run_bind, StateT.run_bind, first]
  exact rest

theorem Stops.bind (first : step.Stops s) : (step >>= next).Stops s := by
  unfold Stops
  rw [ExceptT.run_bind, StateT.run_bind, first]
  rfl

/-- The outcome is the fault of the first step, or else what its result leads to. -/
theorem Gives.performs {result : Except Fault α} {next : α → Access Unit} {o : Outcome} (first : step.Gives s result left)
    (failed : ∀ fault, result = .error fault → o = .failed left fault)
    (rest : ∀ a, result = .ok a → (next a).Performs left o) : (step >>= next).Performs s o := by
  cases result with
  | ok a => exact first.bind (rest a rfl)
  | error fault =>
    rw [failed fault rfl]
    exact first.fails

theorem Performs.andThen {step next : Access Unit} {o : Outcome} {f : Stack → Outcome} (first : step.Performs s o)
    (rest : ∀ left, next.Performs left (f left)) : (step >>= fun _ => next).Performs s (o.andThen f) := by
  match o with
  | ⟨left, .ok ()⟩ => exact Gives.bind first (rest left)
  | ⟨left, .error fault⟩ => exact Gives.fails first

theorem gives_pure (a : α) (s : Stack) : (pure a : Access α).Gives s (.ok a) s := rfl

theorem gives_throw (fault : Fault) (s : Stack) : (throw fault : Access α).Gives s (.error fault) s := rfl

theorem gives_get (s : Stack) : (get : Access (List Value)).Gives s (.ok s.reverse) s := rfl

theorem gives_set {entries : List Value} (same : entries = left.reverse) : (set entries : Access Unit).Gives s (.ok ()) left := by
  subst same
  rfl

theorem gives_present (s : Stack) {result : Option α} (found : result = some a) : (present result).Gives s (.ok a) s := by
  subst found
  rfl

theorem gives_computed {result : Except Fault α} (sound : result ≠ .error .internal) (s : Stack) :
    (computed result).Gives s result s := by
  match result with
  | .ok a => rfl
  | .error fault =>
    cases fault with
    | internal => exact absurd rfl sound
    | _ => rfl

theorem stops_computed (s : Stack) : (computed (.error .internal : Except Fault α)).Stops s := rfl

section Positions
variable {m n i places : Nat} {entries block : List α}

theorem difference?_of_le (le : n ≤ m) : difference? m n = some (m - n) := if_pos le

theorem sum?_of_le (le : n ≤ m) (fits : m ≤ memory) : sum? m n = some (m + n) := by
  have halves : memory + memory ≤ Value.maxCount := by decide
  exact if_pos (by omega)

theorem put?_of_lt (a : α) (inside : i < entries.length) : put? i a entries = some (entries.set i a) := if_pos inside

/-- What is at the top of the stack ends the entries. -/
theorem from?_reverse (s : List α) (present : n ≤ s.length) : from? (s.length - n) s.reverse = some (s.take n).reverse := by
  rw [from?, if_pos (by rw [List.length_reverse]; exact Nat.sub_le _ _), List.drop_reverse, Nat.sub_sub_self present]

theorem take_reverse_sub (s : List α) (present : n ≤ s.length) : s.reverse.take (s.length - n) = (s.drop n).reverse := by
  rw [List.take_reverse, Nat.sub_sub_self present]

theorem rotateRight?_reverse (le : places ≤ block.length) :
    rotateRight? places block.reverse = some (block.drop places ++ block.take places).reverse := by
  have kept : difference? block.reverse.length places = some (block.length - places) := by
    rw [List.length_reverse, difference?_of_le le]
  rw [rotateRight?, kept]
  change some (block.reverse.drop (block.length - places) ++ block.reverse.take (block.length - places)) = _
  rw [List.drop_reverse, List.take_reverse, Nat.sub_sub_self le, List.reverse_append]

end Positions

section Steps
variable {n i : Nat}

theorem pop_gives (v : Value) (s : Stack) : pop.Gives (v :: s) (.ok v) s := by
  refine (gives_get _).bind ?_
  rw [List.reverse_cons, List.getLast?_concat, List.dropLast_concat]
  exact (gives_set rfl).bind (gives_pure v s)

theorem pop_empty : pop.Gives [] (.error .stackUnderflow) [] := rfl

theorem top_gives (v : Value) (s : Stack) : top.Gives (v :: s) (.ok v) (v :: s) := by
  refine (gives_get _).bind ?_
  rw [List.reverse_cons, List.getLast?_concat]
  exact gives_pure v _

theorem push_performs (limit : Nat) (v : Value) (s : Stack) : (push limit v).Performs s (s.push limit v) := by
  refine (gives_get s).bind ?_
  rw [List.length_reverse, Stack.push]
  split
  · next full =>
    rw [if_neg (Nat.not_lt.mpr full)]
    exact gives_throw _ s
  · next room =>
    rw [if_pos (Nat.lt_of_not_le room)]
    exact gives_set List.reverse_cons.symm

theorem popMany_gives (present : n ≤ s.length) : (popMany n).Gives s (.ok (s.take n).reverse) (s.drop n) := by
  refine (gives_get s).bind ?_
  rw [List.length_reverse, if_neg (Nat.not_lt.mpr present)]
  refine (gives_present s (difference?_of_le present)).bind ?_
  refine (gives_present s (from?_reverse s present)).bind ?_
  have size : (s.take n).reverse.length = n := by
    rw [List.length_reverse, List.length_take_of_le present]
  rw [if_pos size]
  exact (gives_set (take_reverse_sub s present)).bind (gives_pure _ _)

theorem popMany_shallow (missing : s.length < n) : (popMany n).Gives s (.error .stackUnderflow) s := by
  refine (gives_get s).bind ?_
  rw [List.length_reverse, if_pos missing]
  exact gives_throw _ s

/-- The first of the values is the deepest argument. -/
def toNumbers : List Value → Except Fault (List Decimal)
  | [] => .ok []
  | v :: rest => do
    let d ← v.toNumber (rest.length + 1)
    let numbers ← toNumbers rest
    return d :: numbers

theorem toNumber_sound (position : Nat) (v : Value) : v.toNumber position ≠ .error .internal :=
  fun failed => v.toNumber_raises (P := (· ≠ .internal)) (fun _ => nofun) position _ failed rfl

theorem readNumbers_gives (values : List Value) (numbers : List Decimal) (s : Stack) (last : i + values.length = n)
    (room : numbers.length = n) :
    (readNumbers n i values numbers).Gives s ((toNumbers values).map (numbers.take i ++ ·)) s := by
  induction values generalizing i numbers with
  | nil =>
    have whole : numbers.take i ++ [] = numbers := by
      rw [List.append_nil, List.take_of_length_le (by rw [room, ← last]; exact Nat.le_refl i)]
    change (pure numbers : Access (List Decimal)).Gives s (.ok (numbers.take i ++ [])) s
    rw [whole]
    exact gives_pure numbers s
  | cons v rest ih =>
    rw [List.length_cons] at last
    have argument : difference? n i = some (rest.length + 1) := by
      rw [difference?_of_le (by omega)]
      congr 1
      omega
    have inside : i < numbers.length := by omega
    refine (gives_present s argument).bind ?_
    have reads := gives_computed (toNumber_sound (rest.length + 1) v) s
    rw [toNumbers]
    cases read : v.toNumber (rest.length + 1) with
    | error fault =>
      rw [read] at reads
      exact reads.fails
    | ok d =>
      rw [read] at reads
      refine reads.bind ((gives_present s (put?_of_lt d inside)).bind ?_)
      have next := ih (i := i + 1) (numbers.set i d) (by omega) (by rw [List.length_set, room])
      have filled : (numbers.set i d).take (i + 1) = numbers.take i ++ [d] := by
        rw [List.take_add_one, List.getElem?_set_self inside, List.take_set_of_le (Nat.le_refl i)]
        rfl
      rw [filled] at next
      cases others : toNumbers rest with
      | error fault =>
        rw [others] at next
        exact next
      | ok read =>
        rw [others] at next
        change (_ : Access (List Decimal)).Gives s (.ok (numbers.take i ++ d :: read)) s
        rw [List.append_cons]
        exact next

theorem popNumbers_gives (present : n ≤ s.length) : (popNumbers n).Gives s (toNumbers (s.take n).reverse) (s.drop n) := by
  refine (popMany_gives present).bind ?_
  have size : 0 + (s.take n).reverse.length = n := by
    rw [Nat.zero_add, List.length_reverse, List.length_take_of_le present]
  have reads := readNumbers_gives _ (List.replicate n .zero) (s.drop n) size List.length_replicate
  change Gives _ _ (Except.map id _) _ at reads
  rwa [Except.map_id] at reads

theorem popCount_gives (count : Value) (s : Stack) : popCount.Gives (count :: s) (count.toCount 1) s :=
  (pop_gives count s).bind (gives_computed
    (fun failed => count.toCount_raises (P := (· ≠ .internal)) (fun _ => nofun) 1 _ failed rfl) s)

end Steps

end Access
end StackCalculator

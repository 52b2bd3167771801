import StackCalculator.Proofs.Programs
import StackCalculator.Proofs.Rotation
import StackCalculator.Proofs.Spelling

/-! Programs of literals and stack operators that do the same. A program that comes to its end
leads from one stack to another, and what its parts lead to it leads to as a whole. Picking the
entry below a fixed number of others goes through a block from its bottom to its top, since
every entry that is picked pushes the block down by one. -/
namespace StackCalculator

/-- The tokens run to their end and leave another stack. -/
def Leads (options : Options) (tokens : List Token) (s left : Stack) : Prop :=
  (runTokens options tokens s).effect = (left, .ok ())

namespace Token

/-- A count as it stands in a program. -/
def literal (n : ℕ) : Token := .number (Decimal.ofNat n).spelling

def named (op : StackOp) : Token := .operator (Operator.stack op).spelling

/-- The tokens so many times in a row. -/
def repeated : ℕ → List Token → List Token
  | 0, _ => []
  | k + 1, tokens => tokens ++ repeated k tokens

end Token

/-- Tokens with single blanks between them. -/
def written (tokens : List Token) : List UInt8 := [blank].intercalate (tokens.map Token.bytes)

open Token

@[simp]
theorem literal_lexeme (n : ℕ) : Lexeme Operator.startsWith (literal n) := by
  obtain ⟨b, among, _⟩ := Decimal.exists_digit_spelling (.ofNat n)
  exact (Decimal.spells_spelling _).lexeme (List.ne_nil_of_mem among) _

@[simp]
theorem named_lexeme (op : StackOp) : Lexeme Operator.startsWith (named op) := by
  have scanned : named op ∈ scan Operator.startsWith (Operator.stack op).spelling := by
    cases op <;> decide +kernel
  exact lexeme_of_mem_scan scanned

theorem ofSpelling?_stack (op : StackOp) :
    Operator.ofSpelling? (Operator.stack op).spelling = some (.stack op) := by
  cases op <;> decide +kernel

theorem repeated_lexemes {starts : UInt8 → Bool} {tokens : List Token}
    (lexemes : ∀ t ∈ tokens, Lexeme starts t) (k : ℕ) : ∀ t ∈ repeated k tokens, Lexeme starts t := by
  induction k with
  | zero => nofun
  | succ k ih =>
    intro t member
    rcases List.mem_append.mp member with first | later
    · exact lexemes t first
    · exact ih t later

section Programs
variable {options : Options} {s mid left base block : Stack} {tokens tokens' : List Token} {n : ℕ}

theorem execute_written (lexemes : ∀ t ∈ tokens, Lexeme Operator.startsWith t) (s : Stack) :
    execute options (written tokens) s = runTokens options tokens s := by
  have scanned : scan Operator.startsWith (written tokens) = tokens :=
    scan_intercalate (List.cons_ne_nil _ _) (List.forall_mem_singleton.mpr rfl) lexemes
  rw [execute, scanned]

theorem Leads.execute (leads : Leads options tokens s left)
    (lexemes : ∀ t ∈ tokens, Lexeme Operator.startsWith t) :
    (execute options (written tokens) s).effect = (left, .ok ()) := by
  rw [execute_written lexemes]
  exact leads

theorem Leads.append (first : Leads options tokens s mid) (last : Leads options tokens' mid left) :
    Leads options (tokens ++ tokens') s left := by
  obtain ⟨stack, completed⟩ := Prod.mk.inj first
  rw [Leads, runTokens_append, Run.andThen_of_ok completed, stack]
  exact last

theorem Leads.nil : Leads options [] s s := rfl

theorem Leads.literal (small : n < Decimal.capacity) (room : s.length < options.maxStackDepth)
    (rest : Leads options tokens (.number (.ofNat n) :: s) left) :
    Leads options (literal n :: tokens) s left := by
  have read : Numeral.read? (Decimal.ofNat n).spelling = some (.ok (.ofNat n)) :=
    Numeral.read?_spelling (Decimal.wellFormed_ofNat small)
  have pushed : Stack.push options.maxStackDepth (.number (.ofNat n)) s = .done (.number (.ofNat n) :: s) :=
    Stack.push_of_room room
  have ran : Leads options [Token.literal n] s (.number (.ofNat n) :: s) := by
    simp only [Leads, runTokens_cons, Token.literal, Token.run, runNumber, read, Except.map,
      Stack.pushResult, pushed]
    rfl
  exact ran.append rest

theorem Leads.named {op : StackOp} (completes : (Operator.stack op).Completes options s mid)
    (bound : s.length ≤ options.maxStackDepth) (rest : Leads options tokens mid left) :
    Leads options (named op :: tokens) s left := by
  have ran : Leads options [Token.named op] s mid := by
    simp only [Leads, runTokens_cons, Token.named, Token.run, runOperator, ofSpelling?_stack,
      completes.run_eq bound]
    rfl
  exact ran.append rest

theorem toCount_ofNat (k : ℕ) (small : n ≤ Value.maxCount) : (Value.number (.ofNat n)).toCount k = .ok n := by
  have integral : (Decimal.ofNat n).isIntegral = true := beq_iff_eq.mpr (Nat.mod_one n)
  have passed : ¬(!(Decimal.ofNat n).isIntegral || (Decimal.ofNat n).isNegative) = true := by
    rw [integral]
    exact Bool.false_ne_true
  have whole : min (Decimal.ofNat n).whole Value.maxCount = n :=
    (congrArg (min · Value.maxCount) (Nat.div_one n)).trans (Nat.min_eq_left small)
  exact (if_neg passed).trans (congrArg Except.ok whole)

/-- Every entry that is picked goes on top of those above it in its block. -/
theorem leads_index (counted : block.length ≤ Value.maxCount) {i : ℕ} (inside : i < block.length)
    (room : (block ++ base).length + block.length ≤ options.maxStackDepth) :
    Leads options [.literal (block.length - 1), .named .index] (block.drop (block.length - i) ++ (block ++ base))
      (block.drop (block.length - (i + 1)) ++ (block ++ base)) := by
  let position := block.length - (i + 1)
  have small : block.length - 1 < Decimal.capacity := by
    have bound := Stack.maxCount_lt_capacity
    omega
  have length : (block.drop (block.length - i)).length = i := by
    rw [List.length_drop]
    omega
  have depth : (block.drop (block.length - i) ++ (block ++ base)).length < options.maxStackDepth := by
    rw [List.length_append, length]
    omega
  have next : position < block.length := by omega
  have picked : block.drop position = block[position] :: block.drop (block.length - i) := by
    rw [List.drop_eq_getElem_cons next]
    congr 2
    omega
  have found : (block.drop (block.length - i) ++ (block ++ base))[block.length - 1]? = some block[position] := by
    rw [List.getElem?_append_right (by omega), length, List.getElem?_append_left (by omega)]
    have same : block.length - 1 - i = position := by omega
    rw [same]
    exact List.getElem?_eq_getElem next
  apply Leads.literal small depth
  apply Leads.named (.index (toCount_ofNat 1 (by omega)) found) depth
  rw [picked]
  exact .nil

theorem leads_repeated_index (block base : Stack) (counted : block.length ≤ Value.maxCount)
    (room : (block ++ base).length + block.length ≤ options.maxStackDepth) {i k : ℕ}
    (inside : i + k ≤ block.length) :
    Leads options (repeated k [.literal (block.length - 1), .named .index])
      (block.drop (block.length - i) ++ (block ++ base))
      (block.drop (block.length - (i + k)) ++ (block ++ base)) := by
  induction k generalizing i with
  | zero => exact .nil
  | succ k ih =>
    have first := leads_index counted (Nat.lt_of_lt_of_le (Nat.lt_add_of_pos_right k.succ_pos) inside) room
    have others := ih (i := i + 1) (by omega)
    rw [Nat.add_right_comm] at others
    exact first.append others

theorem leads_copy (counted : n ≤ Value.maxCount) (present : n ≤ s.length)
    (literal : s.length + 1 ≤ options.maxStackDepth) (room : s.length + n ≤ options.maxStackDepth) :
    Leads options [.literal n, .named .copy] s (s.take n ++ s) := by
  apply Leads.literal (counted.trans_lt Stack.maxCount_lt_capacity) literal
  exact Leads.named (.copy (toCount_ofNat 1 counted) present room) literal .nil

theorem leads_dup {v : Value} (room : (v :: s).length < options.maxStackDepth) :
    Leads options [.named .dup] (v :: s) (v :: v :: s) :=
  Leads.named (.dup room) room.le .nil

theorem leads_pick {v : Value} (room : (v :: s).length < options.maxStackDepth) :
    Leads options [.literal 0, .named .index] (v :: s) (v :: v :: s) := by
  apply Leads.literal (by decide) room
  exact Leads.named (.index (toCount_ofNat 1 (Nat.zero_le _)) rfl) room .nil

theorem leads_exch {w v : Value} (bound : (w :: v :: s).length ≤ options.maxStackDepth)
    (rest : Leads options tokens (v :: w :: s) left) :
    Leads options (.named .exch :: tokens) (w :: v :: s) left :=
  Leads.named .exch bound rest

/-- A block of two turned by one place. -/
theorem leads_roll {w v : Value} (room : (w :: v :: s).length + 2 ≤ options.maxStackDepth) :
    Leads options [.literal 2, .literal 1, .named .roll] (w :: v :: s) (v :: w :: s) := by
  have counted : (Value.number (.ofNat 2)).toCount 2 = .ok [w, v].length :=
    toCount_ofNat 2 (show 2 ≤ Value.maxCount by decide)
  have small : (Decimal.ofNat 1).WellFormed := Decimal.wellFormed_ofNat (by decide)
  have integer : (Decimal.ofNat 1).value = (1 : ℤ) := Decimal.value_ofNat 1
  have turned : (Operator.stack .roll).run options (.number (.ofNat 1) :: .number (.ofNat 2) :: (w :: v :: s)) =
      .done (v :: w :: s) := Stack.roll_append s counted small integer
  have next : (Value.number (.ofNat 2) :: w :: v :: s).length < options.maxStackDepth := room
  apply Leads.literal (by decide) (Nat.lt_of_succ_lt room)
  apply Leads.literal (by decide) next
  exact Leads.named (Operator.completes_of_done turned) room .nil

/-- A duplicate for which there is no room is not put there. -/
theorem stack_dup_pop {v : Value} (bound : (v :: s).length ≤ options.maxStackDepth) :
    (runTokens options [.named .dup, .named .pop] (v :: s)).effect.1 = v :: s ∧
      ((v :: s).length < options.maxStackDepth → Leads options [.named .dup, .named .pop] (v :: s) (v :: s)) := by
  have undone : (v :: s).length < options.maxStackDepth →
      Leads options [.named .dup, .named .pop] (v :: s) (v :: s) := by
    intro room
    exact (leads_dup room).append (Leads.named .pop room .nil)
  refine ⟨?_, undone⟩
  rcases bound.lt_or_eq with room | full
  · exact congrArg Prod.fst (undone room)
  · have refused : Stack.push options.maxStackDepth v (v :: s) = .failed (v :: s) .stackOverflow :=
      Stack.push_of_full full
    simp only [runTokens_cons, Token.named, Token.run, runOperator, ofSpelling?_stack, Operator.run,
      StackOp.run, Stack.dup, refused]
    rfl

end Programs

/-- A copy of the top entries is what as many picks of the lowest of them give; an exchange is a
roll, a duplicate is a pick and a copy, and two programs that undo themselves leave the stack as
it was. -/
theorem execute_idioms (options : Options) (counts : options.maxStackDepth ≤ Value.maxCount) :
    let limit := options.maxStackDepth
    let ran (tokens : List Token) (s : Stack) := (execute options (written tokens) s).effect
    (∀ (n : ℕ) (s : Stack), 1 ≤ n → n ≤ s.length → s.length + n ≤ limit →
      ran [literal n, named .copy] s = (s.take n ++ s, .ok ()) ∧
      ran (repeated n [literal (n - 1), named .index]) s = (s.take n ++ s, .ok ())) ∧
    (∀ (w v : Value) (s : Stack), (w :: v :: s).length + 2 ≤ limit →
      ran [named .exch] (w :: v :: s) = (v :: w :: s, .ok ()) ∧
      ran [literal 2, literal 1, named .roll] (w :: v :: s) = (v :: w :: s, .ok ())) ∧
    (∀ (v : Value) (s : Stack), (v :: s).length + 1 ≤ limit →
      ran [named .dup] (v :: s) = (v :: v :: s, .ok ()) ∧
      ran [literal 0, named .index] (v :: s) = (v :: v :: s, .ok ()) ∧
      ran [literal 1, named .copy] (v :: s) = (v :: v :: s, .ok ())) ∧
    (∀ (v : Value) (s : Stack), (v :: s).length ≤ limit →
      (ran [named .dup, named .pop] (v :: s)).1 = v :: s ∧
      ((v :: s).length < limit → (ran [named .dup, named .pop] (v :: s)).2 = .ok ())) ∧
    ∀ (w v : Value) (s : Stack), (w :: v :: s).length ≤ limit →
      ran [named .exch, named .exch] (w :: v :: s) = (w :: v :: s, .ok ()) := by
  intro limit ran
  refine ⟨?copy, ?exch, ?dup, ?undone, ?twice⟩
  case copy =>
    intro n s positive present room
    have counted : n ≤ Value.maxCount := by omega
    have length : (s.take n).length = n := List.length_take_of_le present
    have whole : s.take n ++ s.drop n = s := List.take_append_drop n s
    have picked : Leads options (repeated n [.literal (n - 1), .named .index]) s (s.take n ++ s) := by
      have block := leads_repeated_index (s.take n) (s.drop n) (by rwa [length]) (by rwa [whole, length])
        (i := 0) (k := n) (by omega)
      simpa only [length, whole, Nat.sub_zero, Nat.zero_add, Nat.sub_self, List.drop_zero,
        List.drop_of_length_le length.le, List.nil_append] using block
    constructor
    · exact (leads_copy counted present (by omega) room).execute (by simp)
    · exact picked.execute (repeated_lexemes (by simp) n)
  case exch =>
    intro w v s room
    constructor
    · exact (leads_exch (by omega) .nil).execute (by simp)
    · exact (leads_roll room).execute (by simp)
  case dup =>
    intro v s room
    refine ⟨?_, ?_, ?_⟩
    · exact (leads_dup room).execute (by simp)
    · exact (leads_pick room).execute (by simp)
    · exact (leads_copy (by decide) (by simp) room room).execute (by simp)
  case undone =>
    intro v s bound
    obtain ⟨kept, undone⟩ := stack_dup_pop bound
    have lexemes : ∀ t ∈ [named .dup, named .pop], Lexeme Operator.startsWith t := by simp
    simp only [ran, execute_written lexemes]
    exact ⟨kept, fun room => congrArg Prod.snd (undone room)⟩
  case twice =>
    intro w v s bound
    exact (leads_exch bound (leads_exch bound .nil)).execute (by simp)

/-- On values of both kinds, with exactly the room that is needed. -/
theorem execute_idioms_mixed :
    let options : Options := ⟨28, 5⟩
    let s : Stack := [.boolean true, .number ⟨true, 15, 1⟩, .boolean false]
    let ran (tokens : List Token) (s : Stack) := (execute options (written tokens) s).effect
    options.maxStackDepth ≤ Value.maxCount ∧ s.length + 2 ≤ options.maxStackDepth ∧
      ran [literal 2, named .copy] s = (s.take 2 ++ s, .ok ()) ∧
      ran (repeated 2 [literal 1, named .index]) s = (s.take 2 ++ s, .ok ()) ∧
      ran [literal 2, literal 1, named .roll] s = ran [named .exch] s ∧
      ran [literal 0, named .index] s = ran [named .dup] s ∧
      ran [literal 1, named .copy] s = ran [named .dup] s ∧
      (ran [named .dup, named .pop] s).1 = s ∧ ran [named .exch, named .exch] s = (s, .ok ()) := by
  intro options s ran
  have counts : options.maxStackDepth ≤ Value.maxCount := by decide
  obtain ⟨copied, exchanged, doubled, undone, twice⟩ := execute_idioms options counts
  obtain ⟨copy, index⟩ := copied 2 s (by decide) (by decide) (by decide)
  obtain ⟨exch, roll⟩ := exchanged (.boolean true) (.number ⟨true, 15, 1⟩) [.boolean false] (by decide)
  obtain ⟨dup, pick, one⟩ := doubled (.boolean true) [.number ⟨true, 15, 1⟩, .boolean false] (by decide)
  exact ⟨counts, by decide, copy, index, roll.trans exch.symm, pick.trans dup.symm, one.trans dup.symm,
    (undone _ _ (by decide)).1, twice _ _ _ (by decide)⟩

example : written [literal 2, literal 1, named .roll] = Ascii.bytes "2 1 roll" := by decide +kernel

end StackCalculator

import StackCalculator.Proofs.Readings
import StackCalculator.Proofs.Rules
import StackCalculator.Proofs.Values
import Mathlib

/-! Integers of 32 bits as words of two's complement. The bits of a word are those of its
integer, so the logical operators act on each bit of their operands as on booleans. A shift is
a product or a quotient of the unsigned reading by a power of two, for every amount: those that
move all bits out give zero. Every result is an integer of 32 bits again. -/
namespace StackCalculator
variable {i j n : ℤ} {x : BitVec 32} {k : ℕ}

theorem within_toInt (x : BitVec 32) : Within Value.int32Bound x.toInt := ⟨x.le_toInt, x.toInt_lt⟩

theorem toInt_ofInt (inside : Within Value.int32Bound i) : (BitVec.ofInt 32 i).toInt = i :=
  BitVec.toInt_ofInt_eq_self (by decide) inside.1 inside.2

theorem getLsbD_ofInt (i : ℤ) (below : k < 32) : (BitVec.ofInt 32 i).getLsbD k = i.testBit k := by
  cases i with
  | ofNat m =>
    rw [Int.ofNat_eq_natCast, BitVec.ofInt_natCast, BitVec.getLsbD_ofNat, decide_eq_true below, Bool.true_and]
    rfl
  | negSucc m =>
    rw [BitVec.ofInt_negSucc_eq_not_ofNat, BitVec.getLsbD_not, BitVec.getLsbD_ofNat, decide_eq_true below,
      Bool.true_and, Bool.true_and]
    rfl

theorem testBit_toInt (x : BitVec 32) (below : k < 32) : x.toInt.testBit k = x.getLsbD k := by
  rw [← getLsbD_ofInt _ below, BitVec.ofInt_toInt]

theorem Logical.getLsbD_onBits (op : Logical) (x y : BitVec 32) (k : ℕ) :
    (op.onBits x y).getLsbD k = op.onBooleans (x.getLsbD k) (y.getLsbD k) := by
  cases op with
  | and => exact BitVec.getLsbD_and
  | or => exact BitVec.getLsbD_or
  | xor => exact BitVec.getLsbD_xor

theorem toInt_not (inside : Within Value.int32Bound i) : (~~~(BitVec.ofInt 32 i)).toInt = -i - 1 := by
  obtain ⟨least, most⟩ := inside
  rw [Value.int32Bound] at least most
  rw [BitVec.toInt_not, BitVec.toNat_ofInt, Int.bmod]
  split <;> omega

/-- An unsigned word moved by an amount of either sign. -/
def shifted (word n : ℤ) : ℤ := if 0 ≤ n then word * 2 ^ n.toNat % 2 ^ 32 else word / 2 ^ (-n).toNat

theorem shifted_of_far {word : ℤ} (nonneg : 0 ≤ word) (small : word < 2 ^ 32) (far : 32 ≤ n.natAbs) :
    shifted word n = 0 := by
  unfold shifted
  split
  · have divides : (2 : ℤ) ^ 32 ∣ 2 ^ n.toNat := pow_dvd_pow 2 (by omega)
    exact Int.emod_eq_zero_of_dvd (divides.mul_left word)
  · have large : (2 : ℤ) ^ 32 ≤ 2 ^ (-n).toNat := pow_le_pow_right₀ (by norm_num) (by omega)
    exact Int.ediv_eq_zero_of_lt nonneg (small.trans_le large)

theorem toNat_shiftBits (x : BitVec 32) (n : ℤ) : ((shiftBits x n).toNat : ℤ) = shifted x.toNat n := by
  unfold shiftBits
  split
  · next far => exact (shifted_of_far (Int.natCast_nonneg _) (by exact_mod_cast x.isLt) far).symm
  · split
    · next nonneg =>
      have amount : n.natAbs = n.toNat := by omega
      rw [shifted, if_pos nonneg, BitVec.toNat_shiftLeft, Nat.shiftLeft_eq, amount]
      push_cast
      rfl
    · next negative =>
      have amount : n.natAbs = (-n).toNat := by omega
      rw [shifted, if_neg negative, BitVec.toNat_ushiftRight, Nat.shiftRight_eq_div_pow, amount]
      push_cast
      rfl

theorem toInt_shiftBits (i n : ℤ) : (shiftBits (.ofInt 32 i) n).toInt = (shifted (i % 2 ^ 32) n).bmod (2 ^ 32) := by
  have unsigned : ((BitVec.ofInt 32 i).toNat : ℤ) = i % 2 ^ 32 := by
    rw [BitVec.toNat_ofInt]
    omega
  rw [BitVec.toInt_eq_toNat_bmod, toNat_shiftBits, unsigned]

namespace Value
variable {v w amount : Value}

theorem denotes_ofInt (i : ℤ) : (ofInt i).Denotes i := by
  refine ⟨.ofInt i, rfl, Decimal.value_eq_intCast_iff.mpr ?_⟩
  change (if decide (i < 0) = true then -(i.natAbs : ℤ) else i.natAbs) = i * 1
  simp only [decide_eq_true_iff]
  split <;> omega

theorem toInt32_of_within (position : ℕ) (denotes : v.Denotes i) (inside : Within int32Bound i) :
    v.toInt32 position = .ok i := by
  have wide : Within intBound i := by
    obtain ⟨least, most⟩ := inside
    rw [int32Bound] at least most
    constructor <;> rw [intBound] <;> omega
  rw [toInt32_of_denotes position denotes, if_pos wide, if_pos inside]

theorem toInt_of_within (position : ℕ) (denotes : v.Denotes n) (inside : Within intBound n) :
    v.toInt position = .ok n := by
  rw [toInt_of_denotes position denotes, if_pos inside]

end Value

section Evaluation
open Value
variable {v w amount : Value}

theorem Logical.eval_of_within (op : Logical) (first : v.Denotes i) (second : w.Denotes j)
    (inside : Within int32Bound i) (inside' : Within int32Bound j) :
    op.eval v w = .ok (.ofInt (op.onBits (.ofInt 32 i) (.ofInt 32 j)).toInt) := by
  have left := toInt32_of_within 2 first inside
  have right := toInt32_of_within 1 second inside'
  obtain ⟨a, rfl, _⟩ := first
  obtain ⟨b, rfl, _⟩ := second
  rw [eval, left, right]
  rfl

theorem complement_of_within (denotes : v.Denotes i) (inside : Within int32Bound i) :
    complement v = .ok (.ofInt (~~~(BitVec.ofInt 32 i)).toInt) := by
  have read := toInt32_of_within 1 denotes inside
  obtain ⟨a, rfl, _⟩ := denotes
  change ((Value.number a).toInt32 1 >>= fun i => .ok (ofBits (~~~(BitVec.ofInt 32 i)))) = _
  rw [read]
  rfl

theorem shift_of_within (denotes : v.Denotes i) (moved : amount.Denotes n) (inside : Within int32Bound i)
    (inside' : Within intBound n) : shift v amount = .ok (.ofInt (shiftBits (.ofInt 32 i) n).toInt) := by
  rw [shift, toInt32_of_within 2 denotes inside, toInt_of_within 1 moved inside']
  rfl

end Evaluation

/-- The step leaves an integer of 32 bits, written without a fraction, on top of the rest. -/
structure LeavesWord (o : Outcome) (r : ℤ) (rest : Stack) : Prop where
  done : o = .done (.ofInt r :: rest)
  within : Within Value.int32Bound r

namespace Operator
variable {options : Options} {rest : Stack} {v w amount : Value}

theorem run_logical (op : Logical) (first : v.Denotes i) (second : w.Denotes j) (inside : Within Value.int32Bound i)
    (inside' : Within Value.int32Bound j) (room : rest.length < options.maxStackDepth) :
    LeavesWord (run options (.binary (.logical op)) (w :: v :: rest)) (op.onBits (.ofInt 32 i) (.ofInt 32 j)).toInt rest := by
  refine ⟨?_, within_toInt _⟩
  change Stack.pushResult _ (op.eval v w) rest = _
  rw [op.eval_of_within first second inside inside']
  exact Stack.push_of_room room

theorem run_not (denotes : v.Denotes i) (inside : Within Value.int32Bound i) (room : rest.length < options.maxStackDepth) :
    LeavesWord (run options (.unary .not) (v :: rest)) (~~~(BitVec.ofInt 32 i)).toInt rest := by
  refine ⟨?_, within_toInt _⟩
  change Stack.pushResult _ (complement v) rest = _
  rw [complement_of_within denotes inside]
  exact Stack.push_of_room room

theorem run_bitshift (denotes : v.Denotes i) (moved : amount.Denotes n) (inside : Within Value.int32Bound i)
    (inside' : Within Value.intBound n) (room : rest.length < options.maxStackDepth) :
    LeavesWord (run options (.binary .bitshift) (amount :: v :: rest)) ((shifted (i % 2 ^ 32) n).bmod (2 ^ 32)) rest := by
  rw [← toInt_shiftBits]
  refine ⟨?_, within_toInt _⟩
  change Stack.pushResult _ (shift v amount) rest = _
  rw [shift_of_within denotes moved inside inside']
  exact Stack.push_of_room room

theorem run_not_not (denotes : v.Denotes i) (inside : Within Value.int32Bound i)
    (room : rest.length < options.maxStackDepth) :
    (run options (.unary .not) (v :: rest)).andThen (run options (.unary .not)) = .done (.ofInt i :: rest) := by
  have turned := run_not denotes inside room
  have again : LeavesWord (run options (.unary .not) (.ofInt _ :: rest)) _ rest :=
    run_not (Value.denotes_ofInt _) turned.within room
  rw [BitVec.ofInt_toInt, BitVec.not_not, toInt_ofInt inside] at again
  rw [turned.done]
  exact again.done

theorem run_xor_xor (first : v.Denotes i) (second : w.Denotes j) (inside : Within Value.int32Bound i)
    (inside' : Within Value.int32Bound j) (bound : (w :: v :: rest).length ≤ options.maxStackDepth) :
    ((run options (.binary (.logical .xor)) (w :: v :: rest)).andThen fun s =>
      (s.push options.maxStackDepth w).andThen (run options (.binary (.logical .xor)))) = .done (.ofInt i :: rest) := by
  have room : rest.length < options.maxStackDepth := Nat.lt_of_succ_lt bound
  have mixed := run_logical .xor first second inside inside' room
  have again : LeavesWord (run options (.binary (.logical .xor)) (w :: .ofInt _ :: rest)) _ rest :=
    run_logical .xor (Value.denotes_ofInt _) second mixed.within inside' room
  have pushed (u : Value) : Stack.push options.maxStackDepth w (u :: rest) = .done (w :: u :: rest) :=
    Stack.push_of_room bound
  rw [BitVec.ofInt_toInt, Logical.onBits, Logical.onBits, BitVec.xor_assoc, BitVec.xor_self, BitVec.xor_zero,
    toInt_ofInt inside] at again
  rw [mixed.done]
  change (Stack.push _ w (.ofInt _ :: rest)).andThen _ = _
  rw [pushed]
  exact again.done

/-- Operands that stand for integers of 32 bits, however they are written, are taken for words of
two's complement: a logical operator acts on all bits at once, a complement turns every bit, and a
shift by any integer of 64 bits multiplies or divides the unsigned word. Complements and
differences undo themselves. -/
theorem run_words (options : Options) (rest : Stack) (first : v.Denotes i) (second : w.Denotes j)
    (inside : Within Value.int32Bound i) (inside' : Within Value.int32Bound j)
    (room : rest.length < options.maxStackDepth) :
    let not := run options (.unary .not)
    let xor := run options (.binary (.logical .xor))
    (∀ op : Logical, ∃ r, LeavesWord (run options (.binary (.logical op)) (w :: v :: rest)) r rest ∧
      r = (op.onBits (.ofInt 32 i) (.ofInt 32 j)).toInt ∧
      ∀ k < 32, r.testBit k = op.onBooleans (i.testBit k) (j.testBit k)) ∧
    (∃ r, LeavesWord (not (v :: rest)) r rest ∧
      r = (~~~(BitVec.ofInt 32 i)).toInt ∧ r = -i - 1 ∧ ∀ k < 32, r.testBit k = !i.testBit k) ∧
    (∀ amount n, Value.Denotes amount n → Within Value.intBound n →
      ∃ r, LeavesWord (run options (.binary .bitshift) (amount :: v :: rest)) r rest ∧
        r = (shifted (i % 2 ^ 32) n).bmod (2 ^ 32) ∧ (32 ≤ n.natAbs → r = 0)) ∧
    (not (v :: rest)).andThen not = .done (.ofInt i :: rest) ∧
    ((w :: v :: rest).length ≤ options.maxStackDepth →
      ((xor (w :: v :: rest)).andThen fun s => (s.push options.maxStackDepth w).andThen xor) =
        .done (.ofInt i :: rest)) ∧
    v.same (.ofInt i) = true := by
  intro not xor
  refine ⟨?_, ?_, ?_, ?_, ?_, ?_⟩
  · intro op
    refine ⟨_, run_logical op first second inside inside' room, rfl, ?_⟩
    intro k below
    rw [testBit_toInt _ below, op.getLsbD_onBits, getLsbD_ofInt i below, getLsbD_ofInt j below]
  · refine ⟨_, run_not first inside room, rfl, toInt_not inside, ?_⟩
    intro k below
    rw [testBit_toInt _ below, BitVec.getLsbD_not, decide_eq_true below, Bool.true_and, getLsbD_ofInt i below]
  · intro amount n moved wide
    refine ⟨_, run_bitshift first moved inside wide room, rfl, ?_⟩
    intro far
    rw [shifted_of_far (Int.emod_nonneg _ (by decide)) (Int.emod_lt_of_pos _ (by decide)) far]
    rfl
  · exact run_not_not first inside room
  · exact run_xor_xor first second inside inside'
  · obtain ⟨d, rfl, equal⟩ := first
    obtain ⟨e, same, equal'⟩ := Value.denotes_ofInt i
    rw [same]
    exact Decimal.same_iff.mpr (equal.trans equal'.symm)

/-- All bits of minus one, written with a fraction, and shifts that leave the top bit, the bottom
bit and none. -/
theorem run_words_minus_one :
    let options : Options := { maxStackDepth := 3 }
    let rest : Stack := [.boolean true]
    let v : Value := .number ⟨true, 100, 2⟩
    let w : Value := .number ⟨false, 2550, 1⟩
    let shift (n : ℤ) := run options (.binary .bitshift) (.ofInt n :: v :: rest)
    let xor := run options (.binary (.logical .xor))
    v.Denotes (-1) ∧ w.Denotes 255 ∧ Within Value.int32Bound (-1) ∧ Within Value.int32Bound 255 ∧
      rest.length < options.maxStackDepth ∧
      LeavesWord (run options (.binary (.logical .and)) (w :: v :: rest)) 255 rest ∧
      LeavesWord (run options (.unary .not) (v :: rest)) 0 rest ∧
      LeavesWord (shift 31) (-2147483648) rest ∧ LeavesWord (shift (-31)) 1 rest ∧
      LeavesWord (shift (-9223372036854775808)) 0 rest ∧
      (w :: v :: rest).length ≤ options.maxStackDepth ∧
      ((xor (w :: v :: rest)).andThen fun s => (s.push options.maxStackDepth w).andThen xor) =
        .done (.ofInt (-1) :: rest) := by
  intro options rest v w shift xor
  have first : v.Denotes (-1) := ⟨_, rfl, Decimal.value_eq_intCast_iff.mpr (by decide)⟩
  have second : w.Denotes 255 := ⟨_, rfl, Decimal.value_eq_intCast_iff.mpr (by decide)⟩
  have inside : Within Value.int32Bound (-1) := by decide
  have inside' : Within Value.int32Bound 255 := by decide
  have room : rest.length < options.maxStackDepth := by decide
  have bound : (w :: v :: rest).length ≤ options.maxStackDepth := by decide
  obtain ⟨logical, turned, shifts, _, undone, _⟩ := run_words options rest first second inside inside' room
  have moved (n : ℤ) := shifts (.ofInt n) n (Value.denotes_ofInt n)
  obtain ⟨_, both, rfl, _⟩ := logical .and
  obtain ⟨_, none, rfl, _⟩ := turned
  obtain ⟨_, top, rfl, _⟩ := moved 31 (by decide)
  obtain ⟨_, bottom, rfl, _⟩ := moved (-31) (by decide)
  obtain ⟨_, out, _, zero⟩ := moved (-9223372036854775808) (by decide)
  obtain rfl := zero (by decide)
  exact ⟨first, second, inside, inside', room, both, none, top, bottom, out, bound, undone bound⟩

end Operator
end StackCalculator

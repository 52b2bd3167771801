import StackCalculator.Proofs.Elementary

/-! Operators on two encodings of the same operands. They fail alike or come to the same number
as long as they do not see how the operands are encoded. Four kinds of operands are seen: a
count or the operand of a root that is a zero with a minus sign, the operands of an integer
quotient whose remainder is not exact, and those of a power that is computed in wide numbers. -/
namespace StackCalculator

/-- A zero with a minus sign. -/
def Decimal.isNegativeZero (d : Decimal) : Bool := d.negative && d.isZero

def Value.isNegativeZero : Value → Bool
  | number d => d.isNegativeZero
  | boolean _ => false

/-- Values that are the same, numbers in two encodings perhaps. -/
inductive Value.Matches : Value → Value → Prop where
  | number (alike : Decimal.Alike a b) : Value.Matches (.number a) (.number b)
  | boolean (b : Bool) : Value.Matches (.boolean b) (.boolean b)

namespace Decimal
variable {a a' b b' : Decimal}

theorem Alike.sign (alike : Alike a a') (first : a.isNegativeZero = false)
    (second : a'.isNegativeZero = false) : a.negative = a'.negative := by
  cases zero : a.isZero with
  | false => exact alike.negative zero
  | true =>
    simp only [isNegativeZero, zero, ← alike.isZero, Bool.and_true] at first second
    rw [first, second]

theorem Alike.whole (alike : Alike a a') : a.whole = a'.whole := by
  rw [← Nat.cast_inj (R := ℤ), ← floor_abs, ← floor_abs, alike.value]

theorem value_pos (positive : ¬(a.negative || a.isZero) = true) : 0 < a.value := by
  simp only [Bool.or_eq_true, not_or, Bool.not_eq_true] at positive
  exact lt_of_le_of_ne (value_nonneg positive.1) (value_ne_zero positive.2).symm

end Decimal

open Decimal
variable {a a' b b' : Decimal}

theorem squareRoot_alike (alike : Alike a a') (sign : a.negative = a'.negative) :
    Agree Alike (squareRoot a) (squareRoot a') := by
  rw [squareRoot, squareRoot, ← alike.isNegative]
  split
  · next negative => exact .error _
  · next nonneg => exact .faulting _ (alike.sqrt sign)

theorem logarithm_alike {f? : Decimal → Option Decimal} (closed : ∀ v, v.WellFormed → Gives WellFormed (f? v))
    (equal : ∀ v v', Alike v v' → 0 < v.value → f? v = f? v') (alike : Alike a a') :
    Agree Alike (logarithm f? a) (logarithm f? a') := by
  have refused : (a.negative || a.isZero) = (a'.negative || a'.isZero) := by
    rw [← alike.isZero]
    cases zero : a.isZero with
    | true => rw [Bool.or_true, Bool.or_true]
    | false => rw [alike.negative zero]
  rw [logarithm, logarithm, ← refused]
  split
  · next nonpos => exact .error _
  · next positive =>
    rw [← equal a a' alike (value_pos positive)]
    exact .self (fun _ => .refl) (.inRange (closed a alike.left))

/-- Whether the operator sees of its operand only which number it is. -/
def UnaryArithmetic.seesNumber : UnaryArithmetic → Decimal → Bool
  | sqrt, a => !a.isNegativeZero
  | _, _ => true

theorem UnaryArithmetic.eval_alike (op : UnaryArithmetic) (precision : ℕ) (alike : Alike a a')
    (first : op.seesNumber a = true) (second : op.seesNumber a' = true) :
    Agree Alike (op.eval precision a) (op.eval precision a') := by
  have rounded : ∀ {result result' : Except Fault Decimal}, Agree Alike result result' →
      Agree Alike (result.map (roundTo precision)) (result'.map (roundTo precision)) :=
    fun agree => agree.map fun _ _ alike => alike.roundTo precision
  cases op with
  | abs => exact .ok alike.abs
  | neg => exact .ok alike.neg
  | ceiling => exact .ok alike.ceil
  | floor => exact .ok alike.floor
  | round => exact .ok alike.round
  | truncate | cvi => exact .ok alike.trunc
  | cvr => exact .ok alike
  | sqrt =>
    have sign : a.negative = a'.negative := alike.sign (by simpa [seesNumber] using first)
      (by simpa [seesNumber] using second)
    exact rounded (squareRoot_alike alike sign)
  | sin => exact rounded (.faulting _ (Angle.sin_alike alike))
  | cos => exact rounded (.faulting _ (Angle.cos_alike alike))
  | ln => exact rounded (logarithm_alike (fun v _ => ln?_wellFormed v) (fun _ _ => ln?_eq) alike)
  | log => exact rounded (logarithm_alike (fun v => log10?_wellFormed) (fun _ _ => log10?_eq) alike)

theorem quotient_alike (first : Alike a a') (second : Alike b b') :
    Agree Alike (quotient a b) (quotient a' b') := by
  rw [quotient, quotient, ← second.isZero]
  split
  · next zero => exact .error _
  · next nonzero => exact .inRange (first.div? second)

theorem integerQuotient_alike (first : Alike a a') (second : Alike b b') (exact : RemainderExact a b)
    (exact' : RemainderExact a' b') : Agree Alike (integerQuotient a b) (integerQuotient a' b') := by
  rw [integerQuotient, integerQuotient, ← second.isZero]
  split
  · next zero => exact .error _
  · next nonzero =>
    refine .bind (.inRange (first.rem? second exact exact')) fun _ _ rests => ?_
    refine .bind (.inRange (first.sub? rests)) fun _ _ multiples => ?_
    exact .bind (.inRange (multiples.div? second)) fun _ _ quotients => .ok quotients.trunc

/-- Whole parts have no places to align. -/
theorem modulus_alike (first : Alike a a') (second : Alike b b') :
    Agree Alike (modulus a b) (modulus a' b') := by
  have exact : ∀ a b : Decimal, a.WellFormed → RemainderExact a.trunc b.trunc :=
    fun a b wellFormed => remainderExact_of_scale_le wellFormed.trunc (Nat.le_refl 0)
  rw [modulus, modulus, ← second.trunc.isZero]
  split
  · next zero => exact .error _
  · next nonzero =>
    exact .inRange (first.trunc.rem? second.trunc (exact a b first.left) (exact a' b' first.right))

theorem toInt_alike (alike : Alike a a') (argument : ℕ) :
    (Value.number a).toInt argument = (Value.number a').toInt argument := by
  change (if (!a.isIntegral) = true then _ else _) = (if (!a'.isIntegral) = true then _ else _)
  rw [alike.isIntegral, alike.toInt]

theorem power_alike (precision : ℕ) (first : Alike a a') (second : Alike b b')
    (narrow : b.isIntegral = true → Narrow a b.toInt) :
    Agree Alike (power precision a b) (power precision a' b') := by
  rw [power, power, ← toInt_alike second, ← first.isZero, ← second.isNegative, ← second.isZero, ← second.isIntegral]
  split
  · next zero =>
    split
    · next negative => exact .error _
    · next nonneg =>
      refine .ok ?_
      split
      · exact alike_one
      · exact .refl wellFormed_zero
  · next nonzero =>
    rw [← first.negative (Bool.not_eq_true _ ▸ nonzero)]
    split
    · next integral =>
      have powers : ∀ e, Narrow a e → Agree Alike
          (do let result ← inRange (a.powInt? e); return result.roundTo precision)
          (do let result ← inRange (a'.powInt? e); return result.roundTo precision) :=
        fun e narrow => .bind (.inRange (first.powInt? narrow)) fun _ _ powers => .ok (powers.roundTo precision)
      rw [Value.toInt_of_denotes 1 (Value.denotes_toInt integral)]
      split
      · exact powers _ (narrow integral)
      · exact .error _
    · next fractional =>
      split
      · next negative => exact .error _
      · next positive =>
        have above : 0 < a.value := value_pos (by simp [positive, nonzero])
        rw [← powDecimal?_eq first above second]
        refine .self (fun _ => .refl) (.bind (.inRange (powDecimal?_wellFormed a b)) fun result fits => ?_)
        exact .ok (fits.roundTo precision)

/-- Whether the operator sees of its operands only which numbers they are. -/
def BinaryArithmetic.seesNumbers : BinaryArithmetic → Decimal → Decimal → Bool
  | idiv, a, b => decide (RemainderExact a b)
  | exp, a, b => !b.isIntegral || decide (Narrow a b.toInt)
  | _, _, _ => true

theorem BinaryArithmetic.eval_alike (op : BinaryArithmetic) (precision : ℕ) (left : Alike a a')
    (right : Alike b b') (first : op.seesNumbers a b = true) (second : op.seesNumbers a' b' = true) :
    Agree Alike (op.eval precision a b) (op.eval precision a' b') := by
  have rounded : ∀ {result result' : Except Fault Decimal}, Agree Alike result result' →
      Agree Alike (result.map (roundTo precision)) (result'.map (roundTo precision)) :=
    fun agree => agree.map fun _ _ alike => alike.roundTo precision
  cases op with
  | add => exact .inRange (left.add? right)
  | sub => exact .inRange (left.sub? right)
  | mul => exact .inRange (left.mul? right)
  | div => exact rounded (quotient_alike left right)
  | idiv => exact integerQuotient_alike left right (of_decide_eq_true first) (of_decide_eq_true second)
  | mod => exact modulus_alike left right
  | exp =>
    refine power_alike precision left right fun integral => ?_
    simpa [seesNumbers, integral] using first
  | atan => exact rounded (.faulting _ (Angle.direction_alike left right))

section Values
variable {v v' w w' : Value}

namespace Value.Matches

theorem toNumber (alike : Value.Matches v v') (argument : ℕ) :
    Agree Decimal.Alike (v.toNumber argument) (v'.toNumber argument) := by
  cases alike with
  | number alike => exact .ok alike
  | boolean b => exact .error _

theorem toInt (alike : Value.Matches v v') (argument : ℕ) : v.toInt argument = v'.toInt argument := by
  cases alike with
  | number alike => exact toInt_alike alike argument
  | boolean b => rfl

theorem toInt32 (alike : Value.Matches v v') (argument : ℕ) : v.toInt32 argument = v'.toInt32 argument := by
  rw [Value.toInt32, Value.toInt32, alike.toInt]

theorem toCount (alike : Value.Matches v v') (first : v.isNegativeZero = false)
    (second : v'.isNegativeZero = false) (argument : ℕ) : v.toCount argument = v'.toCount argument := by
  cases alike with
  | boolean b => rfl
  | @number a b alike =>
    have sign : a.negative = b.negative := alike.sign first second
    change (if (!a.isIntegral || a.isNegative) = true then _ else _) =
      (if (!b.isIntegral || b.isNegative) = true then _ else _)
    rw [alike.isIntegral, alike.isNegative, sign, alike.whole]

theorem refl (wellFormed : v.WellFormed) : Value.Matches v v := by
  cases v with
  | number d => exact .number (.refl wellFormed)
  | boolean b => exact .boolean b

end Value.Matches

theorem complement_eq (alike : Value.Matches v v') : complement v = complement v' := by
  cases alike with
  | boolean b => rfl
  | number alike =>
    simp only [complement, (Value.Matches.number alike).toInt32]

theorem Logical.eval_eq (op : Logical) (left : Value.Matches v v') (right : Value.Matches w w') :
    op.eval v w = op.eval v' w' := by
  cases left with
  | boolean b => cases right <;> rfl
  | number first =>
    cases right with
    | boolean c => rfl
    | number second =>
      simp only [Logical.eval, (Value.Matches.number first).toInt32, (Value.Matches.number second).toInt32]

theorem shift_eq (left : Value.Matches v v') (right : Value.Matches w w') : shift v w = shift v' w' := by
  rw [shift, shift, left.toInt32, right.toInt]

theorem sameKindEqual_eq (left : Value.Matches v v') (right : Value.Matches w w') :
    sameKindEqual v w = sameKindEqual v' w' := by
  cases left with
  | boolean b => cases right <;> rfl
  | number first =>
    cases right with
    | boolean c => rfl
    | number second => exact congrArg Except.ok (first.same second)

/-- Whether the operator sees of its operand only which number it is. -/
def UnaryOp.seesNumber : UnaryOp → Value → Bool
  | arithmetic op, .number a => op.seesNumber a
  | _, _ => true

/-- Whether the operator sees of its operands only which numbers they are. -/
def BinaryOp.seesNumbers : BinaryOp → Value → Value → Bool
  | arithmetic op, .number a, .number b => op.seesNumbers a b
  | _, _, _ => true

theorem UnaryOp.eval_alike (op : UnaryOp) (precision : ℕ) (alike : Value.Matches v v')
    (first : op.seesNumber v = true) (second : op.seesNumber v' = true) :
    Agree Value.Matches (op.eval precision v) (op.eval precision v') := by
  cases op with
  | not =>
    have equal : UnaryOp.not.eval precision v = UnaryOp.not.eval precision v' := complement_eq alike
    rw [equal]
    exact .self (fun _ => .refl) (v'.complement_wellFormed)
  | arithmetic op =>
    cases alike with
    | boolean b => exact .error _
    | @number a b alike =>
      have results : Agree Value.Matches (op.eval precision a >>= fun result => .ok (.number result))
          (op.eval precision b >>= fun result => .ok (.number result)) :=
        .bind (op.eval_alike precision alike first second) fun _ _ alike => .ok (.number alike)
      exact results

theorem BinaryOp.eval_alike (op : BinaryOp) (precision : ℕ) (left : Value.Matches v v')
    (right : Value.Matches w w') (first : op.seesNumbers v w = true)
    (second : op.seesNumbers v' w' = true) :
    Agree Value.Matches (op.eval precision v w) (op.eval precision v' w') := by
  have unchanged : ∀ {result : Except Fault Value}, Yields Value.WellFormed result →
      Agree Value.Matches result result := fun given => .self (fun _ => .refl) given
  cases op with
  | arithmetic op =>
    cases left with
    | boolean b => exact .error _
    | @number a a' left =>
      cases right with
      | boolean b => exact .error _
      | @number b b' right =>
        have results : Agree Value.Matches (op.eval precision a b >>= fun result => .ok (.number result))
            (op.eval precision a' b' >>= fun result => .ok (.number result)) :=
          .bind (op.eval_alike precision left right first second) fun _ _ alike => .ok (.number alike)
        exact results
  | comparison op =>
    refine .bind (left.toNumber 2) fun a a' (left : Decimal.Alike a a') => ?_
    refine .bind (right.toNumber 1) fun b b' (right : Decimal.Alike b b') => ?_
    have equal : op.holds a b = op.holds a' b' := by
      cases op with
      | ge => exact right.le left
      | gt => exact right.lt left
      | le => exact left.le right
      | lt => exact left.lt right
    rw [equal]
    exact .ok (.boolean _)
  | eq =>
    simp only [eval, sameKindEqual_eq left right]
    exact unchanged (.bind (.trivial _) fun _ _ => .ok True.intro)
  | ne =>
    simp only [eval, sameKindEqual_eq left right]
    exact unchanged (.bind (.trivial _) fun _ _ => .ok True.intro)
  | logical op =>
    simp only [eval, op.eval_eq left right]
    exact unchanged (op.eval_wellFormed _ _)
  | bitshift =>
    simp only [eval, shift_eq left right]
    exact unchanged (.bind (.trivial _) fun _ _ => .bind (.trivial _) fun _ _ => .ok (Value.ofBits_wellFormed _))

end Values
end StackCalculator

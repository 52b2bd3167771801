import StackCalculator.Proofs.Format
import StackCalculator.Proofs.Trace

/-! Well-formed numbers in programs. Every operator on numbers keeps the format, every
literal is read into it, and the other operators only move values. So from a stack of
well-formed numbers a program goes through such stacks only, and returns such numbers. -/
namespace StackCalculator

namespace Wide
open Decimal

theorem roundDropped_fits {f : Format} {n s : Nat} (dropped : Nat) (small : n < f.capacity)
    (bound : s ≤ f.maxScale) :
    Gives (fun parts => parts.1 < f.capacity ∧ parts.2 ≤ f.maxScale) (roundDropped f n dropped s) := by
  unfold roundDropped
  split
  · next up =>
    split
    · next fits => exact .some ⟨fits, bound⟩
    · split
      · next whole => exact .none
      · next carried =>
        have shorter : (n + 1) / 10 < f.capacity := by omega
        exact .some ⟨shorter, Nat.le_trans (Nat.sub_le s 1) bound⟩
  · next down => exact .some ⟨small, bound⟩

/-- The digits that are asked for bring the scale into the format; more can go. -/
theorem dropDigits_fits (f : Format) (n s count : Nat) (bound : s - count ≤ f.maxScale) :
    Gives (fun parts => parts.1 < f.capacity ∧ parts.2 ≤ f.maxScale) (dropDigits f n s count) := by
  fun_induction dropDigits f n s count with
  | case1 n s count present group kept shorter ih => exact ih (by omega)
  | case2 n s count present group kept last fits =>
    exact roundDropped_fits _ fits (by omega)
  | case3 n s count present group kept last long ih => exact ih (by omega)
  | case4 => exact .none

theorem shorten?_fits (f : Format) (n s : Nat) :
    Gives (fun parts => parts.1 < f.capacity ∧ parts.2 ≤ f.maxScale) (shorten? f n s) := by
  unfold shorten?
  extract_lets count
  split
  · next nothing =>
    have nothing : excess f n s = 0 := nothing
    unfold excess at nothing
    split at nothing
    · next small => exact .some ⟨small, by show s ≤ f.maxScale; omega⟩
    · omega
  · next some =>
    have enough : s - f.maxScale ≤ count := Nat.le_max_right _ _
    exact dropDigits_fits f n s count (by omega)

theorem toDecimal?_wellFormed (w : Wide) : Gives WellFormed w.toDecimal? :=
  .map (shorten?_fits decimalFormat w.coefficient w.scale) fun _ => wellFormed_ofParts

end Wide

/-- A power by squaring is its start or a product. -/
theorem squarePower_gives {P : α → Prop} {mul? : α → α → Option α} (closed : ∀ a b, Gives P (mul? a b))
    {product : α} (start : P product) (square : α) (e : Nat) :
    Gives P (squarePower mul? product square e) := by
  induction e using Nat.strong_induction_on generalizing product square with
  | _ e ih =>
    have rest : ∀ next, P next → Gives P
        (if _ : e / 2 = 0 then pure next
          else do
            let doubled ← mul? square square
            squarePower mul? next doubled (e / 2)) := by
      intro next kept
      split
      · exact .some kept
      · exact .bind (.trivial _) fun doubled _ => ih (e / 2) (by omega) kept doubled
    rw [squarePower]
    split
    · next odd => exact (closed product square).bind rest
    · next even => exact rest product start

namespace Decimal
variable {a b v : Decimal}

theorem powNat?_wellFormed (base : b.WellFormed) (e : Nat) : Gives WellFormed (b.powNat? e) := by
  have wide : Gives (fun _ : Wide => True) (squarePower Wide.mul? .one (.ofDecimal b) e) := .trivial _
  unfold powNat?
  split
  · next nothing => exact .some wellFormed_one
  · split
    · next zero => exact .some wellFormed_zero
    · split
      · next one => exact .some wellFormed_one
      · split
        · next once => exact .some base
        · split
          · next twice => exact mul?_wellFormed b b
          · split
            · next small => exact .map (squarePower_gives mul?_wellFormed wellFormed_one b e) fun _ => .normalize
            · next large => exact .map (wide.bind fun w _ => w.toDecimal?_wellFormed) fun _ => .normalize

theorem powInt?_wellFormed (base : b.WellFormed) (e : Int) : Gives WellFormed (b.powInt? e) := by
  unfold powInt?
  split
  · next below => exact (powNat?_wellFormed base _).bind fun power _ => div?_wellFormed wellFormed_one power
  · next above => exact powNat?_wellFormed base _

theorem expNonneg?_wellFormed (v : Decimal) : Gives WellFormed v.expNonneg? := by
  unfold expNonneg?
  refine .bind (.trivial _) fun fraction _ => ?_
  split
  · next small => exact fraction.toDecimal?_wellFormed
  · split
    · next large => exact .none
    · next whole =>
      refine .bind (.trivial _) fun power _ => ?_
      refine .bind (.trivial _) fun product _ => ?_
      exact .map product.toDecimal?_wellFormed fun _ => .normalize

theorem exp?_wellFormed (v : Decimal) : Gives WellFormed v.exp? := by
  unfold exp?
  split
  · next zero => exact .some wellFormed_one
  · split
    · next negative => exact (expNonneg?_wellFormed v.abs).bind fun power _ => div?_wellFormed wellFormed_one power
    · next positive => exact expNonneg?_wellFormed v

theorem scaleWhile?_exponent (more : Decimal → Bool) (step? : Decimal → Option Decimal) (change : Int)
    (count : Nat) (x : Decimal) (k : Int) :
    Gives (fun reduced => (reduced.2 - k).natAbs ≤ count * change.natAbs)
      (scaleWhile? more step? change count (x, k)) := by
  induction count generalizing x k with
  | zero => exact .some (by simp)
  | succ count ih =>
    unfold scaleWhile?
    split
    · next holds =>
      refine .bind (.trivial _) fun scaled _ => ?_
      intro reduced taken
      have rest := ih scaled (k + change) reduced taken
      rw [Nat.add_one_mul]
      omega
    · next done => exact .some (by simp)

theorem tenExponent?_lt (n : Nat) : Gives (· < n) (tenExponent? n) := by
  induction n using Nat.strong_induction_on with
  | _ n ih =>
    match n with
    | 0 =>
      rw [tenExponent?]
      exact .none
    | 1 =>
      rw [tenExponent?]
      exact .some Nat.one_pos
    | n + 2 =>
      rw [tenExponent?]
      split
      · next divides =>
        refine .map (ih ((n + 2) / 10) (by omega)) fun k smaller => ?_
        omega
      · next other => exact .none

theorem takeEs?_exponent (x : Decimal) : Gives (fun reduced => reduced.2.natAbs ≤ 6) (takeEs? x) := by
  unfold takeEs?
  refine .bind (scaleWhile?_exponent _ _ 1 eulerSteps x 0) fun lowered first => ?_
  intro reduced taken
  have second := scaleWhile?_exponent _ _ (-1) eulerSteps lowered.1 lowered.2 reduced taken
  simp only [eulerSteps, Int.natAbs_one, Int.natAbs_neg] at first second
  omega

theorem lnFromRatio?_wellFormed (below above : Wide) : Gives WellFormed (lnFromRatio? below above) := by
  unfold lnFromRatio?
  refine .bind (.trivial _) fun numerator _ => ?_
  refine .bind (.trivial _) fun denominator _ => ?_
  refine .bind (.trivial _) fun ratio _ => ?_
  refine .bind (.trivial _) fun square _ => ?_
  refine .bind (.trivial _) fun sum _ => ?_
  exact .bind (.trivial _) fun twice _ => twice.toDecimal?_wellFormed

theorem ln?_wellFormed (v : Decimal) : Gives WellFormed v.ln? := by
  have small : 6 < capacity := by decide
  unfold ln?
  split
  · next one => exact .some wellFormed_zero
  · next other =>
    refine .bind (.trivial _) fun tens _ => ?_
    refine .bind (mul?_wellFormed _ _) fun tensPart fits => ?_
    split
    · next powerOfTen => exact .some fits.normalize
    · next rest =>
      refine .bind (takeEs?_exponent _) fun es bound => ?_
      have esPart : (ofInt es.2).WellFormed := wellFormed_ofInt (Nat.lt_of_le_of_lt bound small)
      refine .bind (.trivial _) fun below _ => ?_
      split
      · next powerOfE => exact .some esPart
      · next series =>
        refine .bind (.trivial _) fun above _ => ?_
        refine .bind (lnFromRatio?_wellFormed below above) fun rest kept => ?_
        refine .bind (add?_wellFormed fits esPart) fun sum added => ?_
        exact .bind (add?_wellFormed added kept) fun total fits => .some fits.normalize

theorem log10?_wellFormed (wellFormed : v.WellFormed) : Gives WellFormed v.log10? := by
  unfold log10?
  split
  · next one => exact .some wellFormed_zero
  · split
    · next k power =>
      have digits : k < v.coefficient := tenExponent?_lt v.coefficient k power
      have small : v.coefficient < capacity := wellFormed.coefficient_lt
      have places : v.scale ≤ 28 := wellFormed.scale_le
      have large : capacity = 79228162514264337593543950336 := rfl
      exact .some (wellFormed_ofInt (by omega))
    · next other => exact (ln?_wellFormed v).bind fun logarithm _ => mul?_wellFormed ln10Inverse logarithm

theorem powDecimal?_wellFormed (b exponent : Decimal) : Gives WellFormed (b.powDecimal? exponent) := by
  unfold powDecimal?
  split
  · next one => exact .some wellFormed_one
  · next other =>
    refine .bind (.trivial _) fun logarithm _ => ?_
    exact .bind (.trivial _) fun product _ => exp?_wellFormed product

theorem sinEighth?_wellFormed (v : Decimal) : Gives WellFormed v.sinEighth? := by
  unfold sinEighth?
  split
  · next zero => exact .some wellFormed_zero
  · next nonzero =>
    refine .bind (.trivial _) fun square _ => ?_
    refine .bind (.trivial _) fun sum _ => ?_
    exact .map sum.toDecimal?_wellFormed fun _ => .normalize

theorem cosEighth?_wellFormed (v : Decimal) : Gives WellFormed v.cosEighth? := by
  unfold cosEighth?
  split
  · next zero => exact .some wellFormed_one
  · next nonzero =>
    refine .bind (.trivial _) fun square _ => ?_
    refine .bind (.trivial _) fun sum _ => ?_
    exact .map sum.toDecimal?_wellFormed fun _ => .normalize

theorem sinQuarter?_wellFormed (v : Decimal) : Gives WellFormed v.sinQuarter? := by
  unfold sinQuarter?
  split
  · next upper => exact .bind (.trivial _) fun u _ => u.cosEighth?_wellFormed
  · next lower => exact v.sinEighth?_wellFormed

theorem cosQuarter?_wellFormed (v : Decimal) : Gives WellFormed v.cosQuarter? := by
  unfold cosQuarter?
  split
  · next upper => exact .bind (.trivial _) fun u _ => u.sinEighth?_wellFormed
  · next lower => exact v.cosEighth?_wellFormed

theorem sinHalf?_wellFormed (v : Decimal) : Gives WellFormed v.sinHalf? := by
  unfold sinHalf?
  split
  · next upper => exact .bind (.trivial _) fun u _ => u.abs.cosQuarter?_wellFormed
  · next lower => exact v.sinEighth?_wellFormed

theorem cosHalf?_wellFormed (v : Decimal) : Gives WellFormed v.cosHalf? := by
  unfold cosHalf?
  split
  · next upper =>
    refine .bind (.trivial _) fun u _ => ?_
    split
    · next beyond => exact .map u.abs.sinQuarter?_wellFormed fun _ => .neg
    · next within => exact u.sinEighth?_wellFormed
  · next lower => exact v.cosEighth?_wellFormed

/-- What the function on half a turn keeps, its continuation to all angles keeps. -/
theorem continued_wellFormed {half? : Decimal → Option Decimal} (half : ∀ v, Gives WellFormed (half? v))
    (v : Decimal) : Gives WellFormed (continuePeriod? (continueTurn? half?) v) := by
  have turn (v : Decimal) : Gives WellFormed (continueTurn? half? v) := by
    unfold continueTurn?
    split
    · next upper => exact .map (.bind (.trivial _) fun u _ => half u) fun _ => .neg
    · next lower => exact half v
  unfold continuePeriod?
  split
  · next beyond => exact .bind (.trivial _) fun u _ => turn u
  · next within => exact turn v

theorem sin?_wellFormed (v : Decimal) : Gives WellFormed v.sin? := by
  unfold sin?
  split
  · next zero => exact .some wellFormed_zero
  · split
    · next negative => exact .map (continued_wellFormed sinHalf?_wellFormed _) fun _ => .neg
    · next positive => exact continued_wellFormed sinHalf?_wellFormed v

theorem cos?_wellFormed (v : Decimal) : Gives WellFormed v.cos? :=
  continued_wellFormed cosHalf?_wellFormed v.abs

theorem improveRoot?_wellFormed (first : a.WellFormed) {r : Decimal} (second : r.WellFormed) :
    Gives WellFormed (improveRoot? a r) := by
  unfold improveRoot?
  refine .bind (div?_wellFormed first r) fun quotient kept => ?_
  exact .bind (add?_wellFormed second kept) fun sum kept => div?_wellFormed kept two

theorem settleRoot?_wellFormed (wellFormed : a.WellFormed) (count : Nat) {r : Decimal}
    (start : r.WellFormed) : Gives WellFormed (settleRoot? a count r) := by
  induction count generalizing r with
  | zero => exact .none
  | succ count ih =>
    unfold settleRoot?
    refine .bind (improveRoot?_wellFormed wellFormed start) fun estimate kept => ?_
    split
    · next settled => exact .some kept
    · next moved => exact ih kept

theorem sqrt_wellFormed (wellFormed : a.WellFormed) : Yields WellFormed a.sqrt := by
  have estimate : Gives WellFormed (rootEstimate? a) := by
    unfold rootEstimate?
    refine .bind (div?_wellFormed wellFormed two) fun half kept => ?_
    show Gives WellFormed (some (if half.isZero then a else half))
    split
    · exact .some wellFormed
    · exact .some kept
  unfold sqrt
  split
  · next negative => exact .error _
  · split
    · next zero => exact .ok wellFormed_zero
    · next positive => exact .assumed (estimate.bind fun r => settleRoot?_wellFormed wellFormed rootSteps)

end Decimal

namespace Angle
open Decimal
variable {d y x : Decimal}

theorem turn_wellFormed {n : Nat} (small : n ≤ 360) : (ofNat n).WellFormed :=
  wellFormed_ofNat (Nat.lt_of_le_of_lt small (by decide))

theorem fullTurn_wellFormed : fullTurn.WellFormed := turn_wellFormed (Nat.le_refl 360)

theorem halfTurn_wellFormed : halfTurn.WellFormed := turn_wellFormed (by decide)

theorem toDegrees_wellFormed (radians : Decimal) : Yields WellFormed (toDegrees radians) := by
  unfold toDegrees
  exact .bind (.checked (mul?_wellFormed _ _)) fun product kept => .checked (div?_wellFormed kept _)

theorem inRadians_wellFormed {f? : Decimal → Option Decimal} (closed : ∀ v, Gives WellFormed (f? v))
    (degrees : Decimal) : Yields WellFormed (inRadians f? degrees) := by
  unfold inRadians
  exact .bind (.trivial _) fun _ _ => .bind (.trivial _) fun radians _ => .checked (closed radians)

theorem sin_wellFormed (degrees : Decimal) : Yields WellFormed (sin degrees) := by
  unfold sin
  refine .bind (.trivial _) fun angle _ => ?_
  split
  · next straight => exact .ok wellFormed_zero
  · split
    · next up => exact .ok wellFormed_one
    · split
      · next down => exact .ok wellFormed_one.neg
      · next inclined => exact inRadians_wellFormed sin?_wellFormed angle

theorem cos_wellFormed (degrees : Decimal) : Yields WellFormed (cos degrees) := by
  unfold cos
  refine .bind (.trivial _) fun angle _ => ?_
  split
  · next right => exact .ok wellFormed_one
  · split
    · next left => exact .ok wellFormed_one.neg
    · split
      · next upright => exact .ok wellFormed_zero
      · next inclined => exact inRadians_wellFormed cos?_wellFormed angle

/-- Where the vector is on an axis the direction is a multiple of a right angle. -/
theorem direction_wellFormed (y x : Decimal) : Yields WellFormed (direction y x) := by
  have opposite {result : Decimal → Option Decimal}
      (kept : ∀ degrees, degrees.WellFormed → Gives WellFormed (result degrees)) (radians : Decimal) :
      Yields WellFormed (toDegrees radians >>= fun degrees => assumed (result degrees)) :=
    (toDegrees_wellFormed radians).bind fun degrees fits => .assumed (kept degrees fits)
  unfold direction
  split
  · exact .error _
  · split
    · exact .ok (turn_wellFormed (by decide))
    · exact .ok (turn_wellFormed (by decide))
  · split
    · exact .ok halfTurn_wellFormed
    · exact .ok wellFormed_zero
  · refine .bind (.trivial _) fun radians _ => ?_
    split
    · exact (toDegrees_wellFormed radians).bind fun _ kept => .ok kept
    · exact opposite (fun _ kept => sub?_wellFormed halfTurn_wellFormed kept) radians
    · exact opposite (fun _ kept => add?_wellFormed halfTurn_wellFormed kept) radians
    · exact opposite (fun _ kept => sub?_wellFormed fullTurn_wellFormed kept) radians

end Angle

open Decimal (WellFormed)

section Computations
variable {a b : Decimal} (precision : Nat)

theorem squareRoot_wellFormed (wellFormed : a.WellFormed) : Yields WellFormed (squareRoot a) := by
  unfold squareRoot
  split
  · next negative => exact .error _
  · next nonneg => exact .faulting _ (Decimal.sqrt_wellFormed wellFormed)

theorem logarithm_wellFormed {f? : Decimal → Option Decimal} (closed : Gives WellFormed (f? a)) :
    Yields WellFormed (logarithm f? a) := by
  unfold logarithm
  split
  · next refused => exact .error _
  · next positive => exact .inRange closed

theorem UnaryArithmetic.eval_wellFormed (op : UnaryArithmetic) (wellFormed : a.WellFormed) :
    Yields WellFormed (op.eval precision a) := by
  have rounded {result : Except Fault Decimal} (kept : Yields WellFormed result) :
      Yields WellFormed (result.map (Decimal.roundTo precision)) :=
    kept.map fun _ fits => fits.roundTo precision
  cases op with
  | abs => exact .ok wellFormed.abs
  | neg => exact .ok wellFormed.neg
  | ceiling => exact .ok wellFormed.ceil
  | floor => exact .ok wellFormed.floor
  | round => exact .ok wellFormed.round
  | truncate | cvi => exact .ok wellFormed.trunc
  | cvr => exact .ok wellFormed
  | sqrt => exact rounded (squareRoot_wellFormed wellFormed)
  | sin => exact rounded (.faulting _ (Angle.sin_wellFormed a))
  | cos => exact rounded (.faulting _ (Angle.cos_wellFormed a))
  | ln => exact rounded (logarithm_wellFormed a.ln?_wellFormed)
  | log => exact rounded (logarithm_wellFormed (Decimal.log10?_wellFormed wellFormed))

theorem power_wellFormed (base : a.WellFormed) (exponent : Decimal) :
    Yields WellFormed (power precision a exponent) := by
  unfold power
  split
  · next zero =>
    split
    · next negative => exact .error _
    · next nonneg =>
      refine .ok ?_
      split
      · exact Decimal.wellFormed_one
      · exact Decimal.wellFormed_zero
  · split
    · next integral =>
      refine .bind (.trivial _) fun e _ => ?_
      exact .bind (.inRange (Decimal.powInt?_wellFormed base e)) fun result fits => .ok (fits.roundTo precision)
    · split
      · next negative => exact .error _
      · next positive =>
        exact .bind (.inRange (Decimal.powDecimal?_wellFormed a exponent)) fun result fits => .ok (fits.roundTo precision)

theorem quotient_wellFormed (first : a.WellFormed) (b : Decimal) : Yields WellFormed (quotient a b) := by
  unfold quotient
  split
  · next zero => exact .error _
  · next nonzero => exact .inRange (Decimal.div?_wellFormed first b)

theorem integerQuotient_wellFormed (first : a.WellFormed) (second : b.WellFormed) :
    Yields WellFormed (integerQuotient a b) := by
  unfold integerQuotient
  split
  · next zero => exact .error _
  · next nonzero =>
    refine .bind (.inRange (Decimal.rem?_wellFormed first second)) fun rest kept => ?_
    refine .bind (.inRange (Decimal.sub?_wellFormed first kept)) fun multiple kept => ?_
    exact .bind (.inRange (Decimal.div?_wellFormed kept b)) fun quotient fits => .ok fits.trunc

theorem modulus_wellFormed (first : a.WellFormed) (second : b.WellFormed) : Yields WellFormed (modulus a b) := by
  unfold modulus
  split
  · next zero => exact .error _
  · next nonzero => exact .inRange (Decimal.rem?_wellFormed first.trunc second.trunc)

theorem BinaryArithmetic.eval_wellFormed (op : BinaryArithmetic) (first : a.WellFormed)
    (second : b.WellFormed) : Yields WellFormed (op.eval precision a b) := by
  cases op with
  | add => exact .inRange (Decimal.add?_wellFormed first second)
  | sub => exact .inRange (Decimal.sub?_wellFormed first second)
  | mul => exact .inRange (Decimal.mul?_wellFormed a b)
  | div => exact .map (quotient_wellFormed first b) fun _ fits => fits.roundTo precision
  | idiv => exact integerQuotient_wellFormed first second
  | mod => exact modulus_wellFormed first second
  | exp => exact power_wellFormed precision first b
  | atan =>
    exact .map (.faulting _ (Angle.direction_wellFormed a b)) fun _ fits => fits.roundTo precision

end Computations

/-- A boolean, or a number of the format. -/
def Value.WellFormed : Value → Prop
  | number d => d.WellFormed
  | boolean _ => True

def Stack.WellFormed (s : Stack) : Prop := ∀ v ∈ s, v.WellFormed

namespace Value
variable {v : Value}

theorem toNumber_wellFormed (wellFormed : v.WellFormed) (argument : Nat) :
    Yields Decimal.WellFormed (v.toNumber argument) := by
  cases v with
  | boolean b => exact .error _
  | number d => exact .ok wellFormed

theorem ofBits_wellFormed (bits : BitVec 32) : (ofBits bits).WellFormed := by
  have above : 2 * bits.toInt < 2 ^ 32 := BitVec.two_mul_toInt_lt
  have below : -(2 ^ 32) ≤ 2 * bits.toInt := BitVec.le_two_mul_toInt
  have large : Decimal.capacity = 79228162514264337593543950336 := rfl
  exact Decimal.wellFormed_ofInt (by omega)

theorem complement_wellFormed (v : Value) : Yields WellFormed (complement v) := by
  cases v with
  | boolean b => exact .ok True.intro
  | number d => exact .bind (.trivial _) fun i _ => .ok (ofBits_wellFormed _)

end Value

section Evaluation
variable (precision : Nat) {v w : Value}

theorem UnaryOp.eval_wellFormed (op : UnaryOp) (wellFormed : v.WellFormed) :
    Yields Value.WellFormed (op.eval precision v) := by
  cases op with
  | arithmetic op =>
    exact .bind (Value.toNumber_wellFormed wellFormed 1) fun a fits =>
      .bind (op.eval_wellFormed precision fits) fun result kept => .ok kept
  | not => exact v.complement_wellFormed

theorem Logical.eval_wellFormed (op : Logical) (v w : Value) : Yields Value.WellFormed (op.eval v w) := by
  match v, w with
  | .boolean a, .boolean b => exact .ok True.intro
  | .number a, .number b =>
    exact .bind (.trivial _) fun i _ => .bind (.trivial _) fun j _ => .ok (Value.ofBits_wellFormed _)
  | .number a, .boolean b | .boolean a, .number b => exact .error _

theorem BinaryOp.eval_wellFormed (op : BinaryOp) (first : v.WellFormed) (second : w.WellFormed) :
    Yields Value.WellFormed (op.eval precision v w) := by
  cases op with
  | arithmetic op =>
    exact .bind (Value.toNumber_wellFormed first 2) fun a left =>
      .bind (Value.toNumber_wellFormed second 1) fun b right =>
        .bind (op.eval_wellFormed precision left right) fun result kept => .ok kept
  | comparison op => exact .bind (.trivial _) fun _ _ => .bind (.trivial _) fun _ _ => .ok True.intro
  | eq | ne => exact .bind (.trivial _) fun _ _ => .ok True.intro
  | logical op => exact op.eval_wellFormed v w
  | bitshift =>
    exact .bind (.trivial _) fun _ _ => .bind (.trivial _) fun _ _ => .ok (Value.ofBits_wellFormed _)

end Evaluation

namespace Stack
variable {limit : Nat} {s : Stack}

theorem push_wellFormed {v : Value} (value : v.WellFormed) (wellFormed : s.WellFormed) :
    WellFormed (s.push limit v).stack := by
  unfold push
  split
  · exact List.forall_mem_cons.mpr ⟨value, wellFormed⟩
  · exact wellFormed

theorem pushResult_wellFormed {result : Except Fault Value} (value : Yields Value.WellFormed result)
    (wellFormed : s.WellFormed) : WellFormed (s.pushResult limit result).stack := by
  cases result with
  | ok v => exact push_wellFormed (value v rfl) wellFormed
  | error fault => exact wellFormed

theorem push_subset {v : Value} {t : Stack} (member : v ∈ t) (subset : s ⊆ t) :
    (s.push limit v).stack ⊆ t := by
  unfold push
  split
  · exact List.cons_subset.mpr ⟨member, subset⟩
  · exact subset

theorem rotate_subset (n shift : Nat) (s : Stack) : rotate n shift s ⊆ s := by
  have block : s.take n ⊆ s := List.take_subset n s
  unfold rotate
  refine List.append_subset.mpr ⟨List.append_subset.mpr ⟨?_, ?_⟩, List.drop_subset n s⟩
  · exact fun v member => block (List.drop_subset shift _ member)
  · exact fun v member => block (List.take_subset shift _ member)

theorem exch_subset (s : Stack) : (exch limit s).stack ⊆ s := by
  match s with
  | [] | [_] => exact List.Subset.refl _
  | w :: v :: rest =>
    have top : w ∈ w :: v :: rest := List.mem_cons_self
    have deeper : v ∈ w :: v :: rest := List.mem_cons_of_mem w List.mem_cons_self
    have below : rest ⊆ w :: v :: rest := fun _ member => .tail _ (.tail _ member)
    exact Outcome.andThen_forall (P := fun t => t ⊆ w :: v :: rest) (push_subset top below)
      fun _ => push_subset deeper

theorem copy_subset (s : Stack) : (copy limit s).stack ⊆ s := by
  cases s with
  | nil => exact List.Subset.refl _
  | cons count rest =>
    have below : rest ⊆ count :: rest := List.subset_cons_self count rest
    simp only [copy, copyTop]
    split
    · split
      · exact below
      · split
        · exact below
        · exact List.append_subset.mpr ⟨fun v member => below (List.take_subset _ _ member), below⟩
    · exact below

theorem index_subset (s : Stack) : (index limit s).stack ⊆ s := by
  cases s with
  | nil => exact List.Subset.refl _
  | cons count rest =>
    have below : rest ⊆ count :: rest := List.subset_cons_self count rest
    simp only [index, pick]
    split
    · split
      · next found => exact push_subset (below (List.mem_of_getElem? found)) below
      · exact below
    · exact below

theorem roll_subset (s : Stack) : (roll s).stack ⊆ s := by
  match s with
  | [] | [_] => exact List.Subset.refl _
  | amount :: count :: rest =>
    have below : rest ⊆ amount :: count :: rest := fun _ member => .tail _ (.tail _ member)
    simp only [roll, rollTop]
    split
    · split
      · exact below
      · split
        · exact below
        · split
          · exact fun v member => below (rotate_subset _ _ rest member)
          · exact below
    · exact below

end Stack

/-- Operators on the stack bring no new values into it. -/
theorem StackOp.run_subset (op : StackOp) (limit : Nat) (s : Stack) : (op.run limit s).stack ⊆ s := by
  cases op with
  | pop =>
    cases s with
    | nil => exact List.Subset.refl _
    | cons v rest => exact List.subset_cons_self v rest
  | dup =>
    cases s with
    | nil => exact List.Subset.refl _
    | cons v rest => exact Stack.push_subset List.mem_cons_self (List.Subset.refl _)
  | exch => exact Stack.exch_subset s
  | copy => exact Stack.copy_subset s
  | index => exact Stack.index_subset s
  | roll => exact Stack.roll_subset s

section Runs
variable {options : Options} {s : Stack}

theorem Operator.run_wellFormed (op : Operator) (wellFormed : s.WellFormed) :
    Stack.WellFormed (op.run options s).stack := by
  cases op with
  | unary op =>
    cases s with
    | nil => exact wellFormed
    | cons v rest =>
      obtain ⟨value, below⟩ := List.forall_mem_cons.mp wellFormed
      exact Stack.pushResult_wellFormed (op.eval_wellFormed _ value) below
  | binary op =>
    match s with
    | [] | [_] => exact wellFormed
    | w :: v :: rest =>
      obtain ⟨top, others⟩ := List.forall_mem_cons.mp wellFormed
      obtain ⟨deeper, below⟩ := List.forall_mem_cons.mp others
      exact Stack.pushResult_wellFormed (op.eval_wellFormed _ deeper top) below
  | constant b => exact Stack.push_wellFormed (v := .boolean b) True.intro wellFormed
  | stack op => exact fun v member => wellFormed v (op.run_subset _ s member)

namespace Decimal

theorem readWhole?_lt (digits : List Nat) {n : Nat} (small : n < capacity) :
    Gives (· < capacity) (readWhole? n digits) := by
  induction digits generalizing n with
  | nil => exact .some small
  | cons d rest ih =>
    rw [readWhole?]
    split
    · next fits => exact ih fits
    · next large => exact .none

theorem readFraction?_fits (digits : List Nat) {n s : Nat} (fits : Fits (n, s)) :
    Gives Fits (readFraction? n s digits) := by
  have large : capacity = 79228162514264337593543950336 := rfl
  induction digits generalizing n s with
  | nil => exact .some fits
  | cons d rest ih =>
    obtain ⟨small, places⟩ := fits
    rw [readFraction?]
    split
    · next more => exact ih ⟨more.2, more.1⟩
    · split
      · next down => exact .some ⟨small, places⟩
      · split
        · next up => exact .some ⟨up, places⟩
        · split
          · next whole => exact .none
          · next carried =>
            have shorter : (n + 5) / 10 < capacity := by
              simp only at small
              omega
            exact .some ⟨shorter, Nat.le_trans (Nat.sub_le s 1) places⟩

theorem ofDigits?_wellFormed (negative : Bool) (whole fraction : List Nat) :
    Gives WellFormed (ofDigits? negative whole fraction) := by
  unfold ofDigits?
  refine .bind (readWhole?_lt whole (by decide)) fun n small => ?_
  refine .bind (readFraction?_fits fraction ⟨small, Nat.zero_le _⟩) fun parts fits => ?_
  exact .some (wellFormed_ofParts fits)

end Decimal

theorem Numeral.read?_wellFormed (run : List UInt8) :
    Gives (Yields Decimal.WellFormed) (Numeral.read? run) := by
  have converted : Gives Decimal.WellFormed ((ofRun? run).bind toDecimal?) :=
    .bind (.trivial _) fun n _ => Decimal.ofDigits?_wellFormed _ _ _
  unfold read?
  split
  · next digit =>
    refine .some ?_
    cases read : (ofRun? run).bind toDecimal? with
    | none => exact .error _
    | some d => exact .ok (converted d read)
  · next blank => exact .none

theorem Token.run_wellFormed (t : Token) (s : Stack) (wellFormed : s.WellFormed) :
    Stack.WellFormed (t.run options s).stack := by
  cases t with
  | number run =>
    simp only [Token.run, runNumber]
    split
    · exact wellFormed
    · next number read =>
      have kept := Numeral.read?_wellFormed run number read
      exact Stack.pushResult_wellFormed (kept.map fun _ fits => fits) wellFormed
  | operator run =>
    simp only [Token.run, runOperator]
    split
    · exact wellFormed
    · next op _ => exact op.run_wellFormed wellFormed
  | stray byte => exact wellFormed

theorem Stack.outputs_wellFormed (wellFormed : s.WellFormed) :
    Yields (fun numbers => ∀ d ∈ numbers, d.WellFormed) s.outputs := by
  have from_position (values : Stack) (fits : values.WellFormed) (position : Nat) :
      Yields (fun numbers => ∀ d ∈ numbers, d.WellFormed) (numbersFrom position values) := by
    induction values generalizing position with
    | nil => exact .ok nofun
    | cons v rest ih =>
      obtain ⟨value, below⟩ := List.forall_mem_cons.mp fits
      cases v with
      | boolean b => exact .error _
      | number d => exact (ih below _).bind fun numbers kept => .ok (List.forall_mem_cons.mpr ⟨value, kept⟩)
  exact from_position s.reverse (fun v member => wellFormed v (List.mem_reverse.mp member)) 0

end Runs

/-- From a stack of well-formed numbers every token of a program leaves such a stack, also
the one that fails, and what is returned from any of them is well formed. So is every
rounded number, and every result of an operator on well-formed numbers. -/
theorem execute_wellFormed (options : Options) (script : List UInt8) (s : Stack)
    (wellFormed : s.WellFormed) :
    (∀ visited ∈ tokenStacks options (Token.scan Operator.startsWith script) s,
      visited.WellFormed ∧ ∀ numbers, visited.outputs = .ok numbers → ∀ d ∈ numbers, d.WellFormed) ∧
    (∀ numbers, (execute options script s).finish.result = .ok numbers → ∀ d ∈ numbers, d.WellFormed) ∧
    (∀ d : Decimal, d.WellFormed → (d.roundTo options.precision).WellFormed) ∧
    (∀ (op : UnaryArithmetic) a result, a.WellFormed → op.eval options.precision a = .ok result →
      result.WellFormed) ∧
    ∀ (op : BinaryArithmetic) a b result, a.WellFormed → b.WellFormed →
      op.eval options.precision a b = .ok result → result.WellFormed := by
  have visits : ∀ visited ∈ tokenStacks options (Token.scan Operator.startsWith script) s,
      visited.WellFormed :=
    tokenStacks_forall (P := Stack.WellFormed) (fun t s => t.run_wellFormed s) wellFormed
  refine ⟨?_, ?_, fun d fits => fits.roundTo _, ?_, ?_⟩
  · intro visited member
    exact ⟨visits visited member, Stack.outputs_wellFormed (visits visited member)⟩
  · intro numbers returned
    have left : Stack.WellFormed (execute options script s).stack :=
      visits _ ((mem_tokenStacks_iff _ _ _).mpr ⟨_, List.prefix_rfl, rfl⟩)
    exact Stack.outputs_wellFormed left numbers (Run.outputs_of_finish returned).2
  · intro op a result fits computed
    exact op.eval_wellFormed _ fits result computed
  · intro op a b result first second computed
    exact op.eval_wellFormed _ first second result computed

/-- Two digits of the largest number are followed by zeros, and two of a number just below
ten carry into a third. -/
theorem execute_wellFormed_carry :
    let options : Options := { precision := 2 }
    let script := Ascii.bytes "1 div exch 1 div"
    let largest : Decimal := ⟨false, 79228162514264337593543950335, 0⟩
    let s : Stack := [.number largest, .number ⟨true, 999, 2⟩]
    let numbers : List Decimal := [⟨false, 79000000000000000000000000000, 0⟩, ⟨true, 100, 1⟩]
    s.WellFormed ∧ (execute options script s).finish.result = .ok numbers ∧
      (∀ d ∈ numbers, d.WellFormed) ∧ largest.WellFormed ∧ (largest.roundTo 2).WellFormed := by
  intro options script largest s numbers
  have first : largest.WellFormed := ⟨by decide, by decide⟩
  have second : Decimal.WellFormed ⟨true, 999, 2⟩ := ⟨by decide, by decide⟩
  have start : s.WellFormed :=
    List.forall_mem_cons.mpr ⟨first, List.forall_mem_singleton.mpr second⟩
  have returned : (execute options script s).finish.result = .ok numbers := by decide +kernel
  obtain ⟨_, outputs, rounded, _⟩ := execute_wellFormed options script s start
  exact ⟨start, returned, outputs numbers returned, first, rounded largest first⟩

end StackCalculator

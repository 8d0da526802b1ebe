import Mathlib.Analysis.SpecialFunctions.Exp
import Mathlib.Analysis.SpecialFunctions.Log.Basic
import Mathlib.Analysis.Real.Sqrt
import Placement.Proofs.Double.Value
/-
  The scalar without rounding. An exact number is a real number, or what IEEE arithmetic has beside
  them: two infinities, and a result that is no number. Every operation on real numbers is the one
  of the reals (`real_add`, `real_div`, `sqrt_real`, `clamp_real`), so a formula that stays among
  them can be reasoned about in `ℝ`; the cases beside them follow IEEE 754, with one zero instead of
  two.
-/
namespace Placement

/-- A real number, an infinity, or no number. -/
inductive Exact where
  | real (x : ℝ)
  | infinite (negative : Bool)
  | undefined

namespace Exact

/-! ## Arithmetic -/

/-- The opposite number. -/
protected noncomputable def neg : Exact → Exact
  | real x => real (-x)
  | infinite negative => infinite !negative
  | undefined => undefined

/-- The sum; opposite infinities have none. -/
protected noncomputable def add : Exact → Exact → Exact
  | real x, real y => real (x + y)
  | real _, infinite negative => infinite negative
  | infinite negative, real _ => infinite negative
  | infinite negative, infinite negative' =>
    if negative = negative' then infinite negative else undefined
  | undefined, _ => undefined
  | _, undefined => undefined

open Classical in
/-- An infinity times a real number; there is no product with zero. -/
protected noncomputable def scale (negative : Bool) (x : ℝ) : Exact :=
  if x = 0 then undefined else infinite (negative != decide (x < 0))

/-- The product. -/
protected noncomputable def mul : Exact → Exact → Exact
  | real x, real y => real (x * y)
  | real x, infinite negative => Exact.scale negative x
  | infinite negative, real y => Exact.scale negative y
  | infinite negative, infinite negative' => infinite (negative != negative')
  | undefined, _ => undefined
  | _, undefined => undefined

open Classical in
/-- The quotient. A division by zero is infinite, save that of zero itself. -/
protected noncomputable def div : Exact → Exact → Exact
  | real x, real y => if y = 0 then Exact.scale false x else real (x / y)
  | real _, infinite _ => real 0
  | infinite negative, real y => infinite (negative != decide (y < 0))
  | infinite _, infinite _ => undefined
  | undefined, _ => undefined
  | _, undefined => undefined

open Classical in
/-- Whether one number is below another; what is no number is below none. -/
protected noncomputable def less : Exact → Exact → Bool
  | real x, real y => decide (x < y)
  | real _, infinite negative => !negative
  | infinite negative, real _ => negative
  | infinite negative, infinite negative' => negative && !negative'
  | undefined, _ => false
  | _, undefined => false

open Classical in
/-- The square root; a number below zero has none. -/
protected noncomputable def sqrt : Exact → Exact
  | real x => if x < 0 then undefined else real √x
  | infinite negative => if negative then undefined else infinite false
  | undefined => undefined

open Classical in
/-- The number that a double stands for. -/
protected noncomputable def ofFloat (x : Float) : Exact :=
  if x.isNaN then undefined
  else if x.isFinite then real (Double.value x)
  else infinite (decide (Double.value x < 0))

noncomputable instance : Add Exact := ⟨Exact.add⟩
noncomputable instance : Neg Exact := ⟨Exact.neg⟩
noncomputable instance : Sub Exact := ⟨fun a b => a + -b⟩
noncomputable instance : Mul Exact := ⟨Exact.mul⟩
noncomputable instance : Div Exact := ⟨Exact.div⟩
noncomputable instance : OfNat Exact 0 := ⟨real 0⟩
noncomputable instance : OfNat Exact 1 := ⟨real 1⟩

/-- Exact numbers, no operation rounded. -/
noncomputable instance : Scalar Exact where
  ofFloat := Exact.ofFloat
  ofCount n := real n.toNat
  less := Exact.less
  isNaN
    | undefined => true
    | _ => false
  isFinite
    | real _ => true
    | _ => false
  sqrt := Exact.sqrt

open Classical in
/-- The exponential and the logarithm themselves, with their limits at the infinities. -/
noncomputable def curves : Curves Exact where
  exp
    | real x => real (Real.exp x)
    | infinite negative => if negative then real 0 else infinite false
    | undefined => undefined
  log1p
    | real x =>
      if x < -1 then undefined else if x = -1 then infinite true else real (Real.log (1 + x))
    | infinite negative => if negative then undefined else infinite false
    | undefined => undefined

/-! ## Real numbers -/

variable (x y : ℝ)

@[simp] theorem zero_eq : (0 : Exact) = real 0 := rfl
@[simp] theorem one_eq : (1 : Exact) = real 1 := rfl
@[simp] theorem real_add : real x + real y = real (x + y) := rfl
@[simp] theorem real_mul : real x * real y = real (x * y) := rfl
@[simp] theorem neg_real : -real x = real (-x) := rfl
@[simp] theorem real_sub : real x - real y = real (x - y) := by
  show real (x + -y) = _
  rw [sub_eq_add_neg]

@[simp] theorem isFinite_real : Scalar.isFinite (real x) = true := rfl
@[simp] theorem isNaN_real : Scalar.isNaN (real x) = false := rfl
@[simp] theorem ofCount_eq (n : UInt64) : (Scalar.ofCount n : Exact) = real n.toNat := rfl
@[simp] theorem exp_real : curves.exp (real x) = real (Real.exp x) := rfl

@[simp] theorem less_real : (Scalar.less (real x) (real y) = true) ↔ x < y := by
  show decide (x < y) = true ↔ _
  rw [decide_eq_true_iff]

variable {x y}

theorem real_div (h : y ≠ 0) : real x / real y = real (x / y) := by
  show (if y = 0 then Exact.scale false x else real (x / y)) = _
  rw [if_neg h]

theorem sqrt_real (h : 0 ≤ x) : Scalar.sqrt (real x) = real √x := by
  show (if x < 0 then undefined else real √x) = _
  rw [if_neg h.not_gt]

theorem log1p_real (h : 0 ≤ x) : curves.log1p (real x) = real (Real.log (1 + x)) := by
  show (if x < -1 then undefined else if x = -1 then infinite true
    else real (Real.log (1 + x))) = _
  rw [if_neg (by linarith), if_neg (by linarith)]

/-- A finite double is a real number. -/
theorem ofFloat_eq {x : Float} (h : x.isFinite = true) :
    (Scalar.ofFloat x : Exact) = real (Double.value x) := by
  have hn : ¬ x.isNaN = true := by
    rw [Double.isNaN_of_isFinite h]
    exact Bool.false_ne_true
  show Exact.ofFloat x = _
  unfold Exact.ofFloat
  rw [if_neg hn, if_pos h]

@[simp] theorem greater_real (x y : ℝ) : Scalar.greater (real x) (real y) = real (max x y) := by
  unfold Scalar.greater
  rw [isNaN_real, isNaN_real, if_neg Bool.false_ne_true, if_neg Bool.false_ne_true]
  by_cases h : x < y
  · rw [if_pos ((less_real x y).mpr h), max_eq_right h.le]
  · rw [if_neg (mt (less_real x y).mp h), max_eq_left (not_lt.mp h)]

theorem clamp_real {low high : ℝ} (h : low ≤ high) (x : ℝ) :
    Scalar.clamp (real low) (real high) (real x) = real (max low (min x high)) := by
  unfold Scalar.clamp
  by_cases hlow : x < low
  · rw [if_pos ((less_real x low).mpr hlow), max_eq_left ((min_le_left x high).trans hlow.le)]
  rw [if_neg (mt (less_real x low).mp hlow)]
  by_cases hhigh : high < x
  · rw [if_pos ((less_real high x).mpr hhigh), min_eq_right hhigh.le, max_eq_right h]
  · rw [if_neg (mt (less_real high x).mp hhigh), min_eq_left (not_lt.mp hhigh),
      max_eq_right (not_lt.mp hlow)]

end Exact

end Placement

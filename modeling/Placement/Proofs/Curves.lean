import Mathlib.Tactic.ByContra
import Placement.Proofs.Double.Level
/-
  What proofs ask of the exponential, and curves that have it.

  `Curves.Decays` and `Curves.Exponential` are the two hypotheses on the exponential that theorems
  about scores take; the second gives the first (`Curves.Exponential.decays`). `Curves.steep` has
  both (`exponential_steep`, `decays_steep`), so that neither is asked in vain. It is 0 where the
  exponential of a double is, far below zero, and 1 elsewhere.
-/
namespace Placement.Curves

open Double

/-! ## The hypotheses -/

/-- What is asked of an exponential: it keeps the order, and decays from 1 to 0 below zero. A
comparison with what is no number fails, so `mono` leaves nothing else for such an argument. -/
structure Decays (curves : Curves Float) : Prop where
  mono : ∀ x y, curves.exp x < curves.exp y → x < y
  range : ∀ x, x ≤ 0 → IsLevel (curves.exp x)

/-- What an exponential is at the ends of its decay, and that it keeps the order. Of no number there
is none. -/
structure Exponential (curves : Curves Float) : Prop where
  mono : ∀ x y, x ≤ y → curves.exp x ≤ curves.exp y
  zero : curves.exp 0 = 1
  bottom : curves.exp (-(1 / 0)) = 0
  nan : ∀ x, x.isNaN = true → (curves.exp x).isNaN = true

/-- Where its argument is not above zero an exponential is not above 1. -/
theorem Decays.not_one_lt {curves : Curves Float} (h : curves.Decays) (x : Float)
    (hx : ¬ 0 < x) : ¬ 1 < curves.exp x := by
  intro hlt
  have h0 := (h.range 0 (Double.le_refl rfl)).le_one
  exact hx (h.mono 0 x (lt_of_le_of_lt h0 hlt))

namespace Exponential

variable {curves : Curves Float} (h : curves.Exponential)
include h

theorem isNaN_of_isNaN_exp {x : Float} (hx : (curves.exp x).isNaN = false) : x.isNaN = false := by
  cases hn : x.isNaN with
  | false => rfl
  | true =>
    rw [h.nan x hn] at hx
    cases hx

theorem decays : curves.Decays where
  mono x y hlt := by
    obtain ⟨hx, hy⟩ := isNaN_of_lt hlt
    by_contra hnot
    have hle := (not_lt_iff_le (h.isNaN_of_isNaN_exp hx) (h.isNaN_of_isNaN_exp hy)).mp hnot
    exact not_lt_of_le (h.mono y x hle) hlt
  range x hx := by
    have hbottom : -(1 / 0) ≤ x := by
      refine (le_iff_value rfl (isNaN_of_le hx).1).mpr ?_
      rw [show Double.value (-(1 / 0)) = -limit from rfl]
      exact neg_le_of_abs_le (abs_value_le x)
    refine ⟨?_, ?_⟩
    · rw [← h.bottom]
      exact h.mono _ _ hbottom
    · rw [← h.zero]
      exact h.mono _ _ hx

end Exponential

/-! ## Curves at the two ends -/

/-- An exponential at the two ends of its decay: 1 near zero, and 0 where doubles are too coarse for
anything else. -/
def steep : Curves Float where
  exp x := if x.isNaN then x else if x < -746 then 0 else 1
  log1p x := x

theorem exp_steep {x : Float} (h : x.isNaN = false) :
    steep.exp x = if x < -746 then 0 else 1 :=
  if_neg (by rw [h]; exact Bool.false_ne_true)

theorem exponential_steep : steep.Exponential where
  mono x y hle := by
    obtain ⟨hx, hy⟩ := isNaN_of_le hle
    rw [exp_steep hx, exp_steep hy]
    by_cases hlow : x < -746
    · rw [if_pos hlow]
      split
      · exact Double.le_refl rfl
      · exact isLevel_one.zero_le
    · rw [if_neg hlow, if_neg fun h => hlow (lt_of_le_of_lt hle h)]
      exact Double.le_refl rfl
  zero := by decide +kernel
  bottom := by decide +kernel
  nan x hx := by rwa [show steep.exp x = x from if_pos hx]

theorem decays_steep : steep.Decays := exponential_steep.decays

end Placement.Curves

import Placement.Proofs.Double.Integral
import Placement.Scalar
/-
  `IsLevel x`: the double `x` lies within 0 and 1, as every factor of a score does.

  * `IsLevel.mul`, `IsLevel.mul_mono`, `IsLevel.one_sub`: levels are closed under the products and
    differences of a score, and these keep the order.
  * `isLevel_share`, `share_mono`: a quotient of counts is a level, given a denominator that is not
    zero and not below the numerator.
  * `greater_le`, `greater_mono`, `lesser_mono`: the greater and the lesser of two doubles, also
    where one of them is no number.
-/
namespace Placement.Double

open Scalar (greater lesser clamp)

/-! ## Levels -/

/-- Within 0 and 1. -/
structure IsLevel (x : Float) : Prop where
  zero_le : 0 ≤ x
  le_one : x ≤ 1

theorem denotes_zero : Denotes 0 0 := ⟨rfl, value_zero⟩

theorem denotes_one : Denotes 1 1 := ⟨rfl, value_one⟩

/-- What stands for a number within 0 and 1 is a level. -/
theorem Denotes.isLevel {x : Float} {q : ℚ} (h : Denotes x q) (h0 : 0 ≤ q) (h1 : q ≤ 1) :
    IsLevel x :=
  ⟨(denotes_zero.le_iff h).mpr h0, (h.le_iff denotes_one).mpr h1⟩

namespace IsLevel

variable {x y x' y' : Float}

theorem isNaN (h : IsLevel x) : x.isNaN = false := (isNaN_of_le h.zero_le).2

theorem denotes (h : IsLevel x) : Denotes x (value x) := .of_isNaN h.isNaN

theorem value_nonneg (h : IsLevel x) : 0 ≤ value x := (denotes_zero.le_iff h.denotes).mp h.zero_le

theorem value_le_one (h : IsLevel x) : value x ≤ 1 := (h.denotes.le_iff denotes_one).mp h.le_one

theorem isFinite (h : IsLevel x) : x.isFinite = true :=
  isFinite_of_le h.zero_le h.le_one isFinite_one

theorem denotes_mul (hx : IsLevel x) (hy : IsLevel y) :
    Denotes (x * y) (rounded (value x * value y)) := Double.denotes_mul hx.isFinite hy.isFinite

theorem rounded_le_one {q : ℚ} (h : q ≤ 1) : rounded q ≤ 1 := by
  have hle : rounded q ≤ value 1 := rounded_le isFinite_one (by rwa [value_one])
  rwa [value_one] at hle

theorem mul (hx : IsLevel x) (hy : IsLevel y) : IsLevel (x * y) := by
  refine (hx.denotes_mul hy).isLevel (rounded_nonneg (mul_nonneg hx.value_nonneg hy.value_nonneg))
    (rounded_le_one ?_)
  exact mul_le_one₀ hx.value_le_one hy.value_nonneg hy.value_le_one

/-- Products of levels keep the order. -/
theorem mul_mono (hx : IsLevel x) (hy : IsLevel y) (hx' : IsLevel x') (hy' : IsLevel y')
    (h : x ≤ x') (h' : y ≤ y') : x * y ≤ x' * y' := by
  have hv := (hx.denotes.le_iff hx'.denotes).mp h
  have hv' := (hy.denotes.le_iff hy'.denotes).mp h'
  have hexact : value x * value y ≤ value x' * value y' := calc
    value x * value y ≤ value x' * value y := mul_le_mul_of_nonneg_right hv hy.value_nonneg
    _ ≤ value x' * value y' := mul_le_mul_of_nonneg_left hv' hx'.value_nonneg
  exact ((hx.denotes_mul hy).le_iff (hx'.denotes_mul hy')).mpr (rounded_mono hexact)

/-- A level is not brought anywhere else. -/
theorem clamp_eq (h : IsLevel x) : clamp 0 1 x = x := by
  have h0 : ¬ x < 0 := not_lt_of_le h.zero_le
  have h1 : ¬ 1 < x := not_lt_of_le h.le_one
  unfold clamp
  simp [Scalar.less, h0, h1]

/-- A level is a bid as it is. -/
theorem sanitize_eq (h : IsLevel x) : sanitize x = x := by
  unfold sanitize
  rw [if_pos h.isFinite, h.clamp_eq]

end IsLevel

theorem isLevel_zero : IsLevel 0 := ⟨by decide, by decide⟩

theorem isLevel_one : IsLevel 1 := ⟨by decide, by decide⟩

/-- What is taken off 1 is off a level. -/
theorem denotes_one_sub {x : Float} (hx : x.isFinite = true) :
    Denotes (1 - x) (rounded (1 - value x)) := by
  have h := denotes_sub isFinite_one hx
  rwa [value_one] at h

namespace IsLevel

variable {x x' : Float}

theorem one_sub (h : IsLevel x) : IsLevel (1 - x) := by
  have h0 := h.value_nonneg
  have h1 := h.value_le_one
  exact (denotes_one_sub h.isFinite).isLevel (rounded_nonneg (by linarith))
    (rounded_le_one (by linarith))

theorem one_sub_anti (h : IsLevel x) (h' : IsLevel x') (hle : x ≤ x') : 1 - x' ≤ 1 - x := by
  have hv := (h.denotes.le_iff h'.denotes).mp hle
  exact ((denotes_one_sub h'.isFinite).le_iff (denotes_one_sub h.isFinite)).mpr
    (rounded_mono (by linarith))

end IsLevel

/-! ## Counts -/

theorem value_count (n : UInt64) : value n.toFloat = rounded n.toNat := (denotes_count n).value

theorem value_count_nonneg (n : UInt64) : 0 ≤ value n.toFloat := by
  rw [value_count]
  exact rounded_nonneg (Nat.cast_nonneg _)

theorem value_count_mono {n n' : UInt64} (h : n ≤ n') : value n.toFloat ≤ value n'.toFloat := by
  rw [value_count, value_count]
  exact rounded_mono (by exact_mod_cast UInt64.le_iff_toNat_le.mp h)

theorem value_count_pos {n : UInt64} (h : n ≠ 0) : 0 < value n.toFloat := by
  have hone : (1 : UInt64) ≤ n :=
    UInt64.le_iff_toNat_le.mpr (UInt64.lt_iff_toNat_lt.mp (UInt64.pos_iff_ne_zero.mpr h))
  have hmono := value_count_mono hone
  rw [show value (1 : UInt64).toFloat = 1 from value_one] at hmono
  linarith

theorem value_count_le (n : UInt64) : value n.toFloat ≤ ((2 ^ 64 : ℕ) : ℚ) := by
  have hle : (n.toNat : ℚ) ≤ 2 ^ (64 : ℤ) := by exact_mod_cast n.toNat_lt.le
  rw [value_count]
  exact_mod_cast rounded_le_two_zpow (by norm_num) (by norm_num) hle

theorem isFinite_count (n : UInt64) : n.toFloat.isFinite = true := by
  rw [isFinite_iff (denotes_count n).isNaN, abs_of_nonneg (value_count_nonneg n)]
  exact (value_count_le n).trans_lt (natCast_lt_limit le_rfl)

section Share

variable {a a' n n' : UInt64}

theorem denotes_share (hn : n ≠ 0) :
    Denotes (a.toFloat / n.toFloat) (rounded (value a.toFloat / value n.toFloat)) :=
  denotes_div (isFinite_count a) (isFinite_count n) (value_count_pos hn).ne'

theorem share_nonneg : 0 ≤ rounded (value a.toFloat / value n.toFloat) :=
  rounded_nonneg (div_nonneg (value_count_nonneg a) (value_count_nonneg n))

/-- A part of a count is a level of it. -/
theorem isLevel_share (hn : n ≠ 0) (h : a ≤ n) : IsLevel (a.toFloat / n.toFloat) := by
  refine (denotes_share hn).isLevel share_nonneg (IsLevel.rounded_le_one ?_)
  exact div_le_one_of_le₀ (value_count_mono h) (value_count_nonneg n)

theorem share_mono (hn : n ≠ 0) (hn' : n' ≠ 0) (h : a ≤ a') (h' : n' ≤ n) :
    a.toFloat / n.toFloat ≤ a'.toFloat / n'.toFloat :=
  ((denotes_share hn).le_iff (denotes_share hn')).mpr (rounded_mono (div_le_div₀
    (value_count_nonneg a') (value_count_mono h) (value_count_pos hn') (value_count_mono h')))

end Share

namespace IsLevel

variable {x : Float} (hx : IsLevel x) {n n' : UInt64}
include hx

theorem denotes_mul_count :
    Denotes (x * n.toFloat) (rounded (value x * value n.toFloat)) :=
  Double.denotes_mul hx.isFinite (isFinite_count n)

theorem mul_count_nonneg : 0 ≤ rounded (value x * value n.toFloat) :=
  rounded_nonneg (mul_nonneg hx.value_nonneg (value_count_nonneg n))

/-- A level of a count stays within the double nearest to the count. -/
theorem isFinite_mul_count : (x * n.toFloat).isFinite = true := by
  refine isFinite_of_le (y := n.toFloat) ?_ ?_ (isFinite_count n)
  · exact (denotes_zero.le_iff hx.denotes_mul_count).mpr hx.mul_count_nonneg
  · refine (hx.denotes_mul_count.le_iff (.of_isNaN (denotes_count n).isNaN)).mpr ?_
    exact rounded_le (isFinite_count n)
      (mul_le_of_le_one_left (value_count_nonneg n) hx.value_le_one)

theorem mul_count_mono (h : n ≤ n') :
    rounded (value x * value n.toFloat) ≤ rounded (value x * value n'.toFloat) :=
  rounded_mono (mul_le_mul_of_nonneg_left (value_count_mono h) hx.value_nonneg)

end IsLevel

/-! ## The greater and the lesser -/

section Greater

variable {a a' b c : Float}

theorem greater_of_isNaN (h : a.isNaN = true) : greater a b = b := if_pos h

theorem greater_of_number (ha : a.isNaN = false) (hb : b.isNaN = false) :
    greater a b = if a < b then b else a := by
  unfold greater
  simp only [Scalar.isNaN, Scalar.less, ha, hb, Bool.false_eq_true, if_false, decide_eq_true_eq]

theorem isNaN_greater (hb : b.isNaN = false) : (greater a b).isNaN = false := by
  cases ha : a.isNaN with
  | true => rwa [greater_of_isNaN ha]
  | false =>
    rw [greater_of_number ha hb]
    split
    · exact hb
    · exact ha

theorem le_greater_right (hb : b.isNaN = false) : b ≤ greater a b := by
  cases ha : a.isNaN with
  | true =>
    rw [greater_of_isNaN ha]
    exact le_refl hb
  | false =>
    rw [greater_of_number ha hb]
    split
    · exact le_refl hb
    · rename_i h
      exact (not_lt_iff_le ha hb).mp h

theorem le_greater_left (ha : a.isNaN = false) (hb : b.isNaN = false) : a ≤ greater a b := by
  rw [greater_of_number ha hb]
  split
  · rename_i h
    exact le_of_lt h
  · exact le_refl ha

/-- What no operand exceeds, the greater of them does not exceed. -/
theorem greater_le (ha : ¬ c < a) (hb : b ≤ c) : greater a b ≤ c := by
  obtain ⟨hbn, hcn⟩ := isNaN_of_le hb
  cases han : a.isNaN with
  | true => rwa [greater_of_isNaN han]
  | false =>
    rw [greater_of_number han hbn]
    split
    · exact hb
    · exact (not_lt_iff_le hcn han).mp ha

theorem greater_mono (hb : b.isNaN = false) (h : a ≤ a') : greater a b ≤ greater a' b := by
  obtain ⟨-, ha'⟩ := isNaN_of_le h
  refine greater_le ?_ (le_greater_right hb)
  intro hlt
  exact not_lt_of_le h (lt_of_le_of_lt (le_greater_left ha' hb) hlt)

theorem lesser_of_number (ha : a.isNaN = false) (hb : b.isNaN = false) :
    lesser a b = if b < a then b else a := by
  unfold lesser
  simp only [Scalar.isNaN, Scalar.less, ha, hb, Bool.false_eq_true, if_false, decide_eq_true_eq]

theorem lesser_mono (hb : b.isNaN = false) (h : a ≤ a') : lesser a b ≤ lesser a' b := by
  obtain ⟨ha, ha'⟩ := isNaN_of_le h
  rw [lesser_of_number ha hb, lesser_of_number ha' hb]
  by_cases h1 : b < a
  · rw [if_pos h1, if_pos (lt_of_lt_of_le h1 h)]
    exact le_refl hb
  · rw [if_neg h1]
    split
    · exact (not_lt_iff_le hb ha).mp h1
    · exact h

/-- A level below, and nothing above 1, make a level. -/
theorem isLevel_greater (ha : ¬ 1 < a) (hb : IsLevel b) : IsLevel (greater a b) :=
  ⟨le_trans hb.zero_le (le_greater_right hb.isNaN), greater_le ha hb.le_one⟩

theorem isLevel_lesser (ha : 0 ≤ a) : IsLevel (lesser a 1) := by
  obtain ⟨-, hn⟩ := isNaN_of_le ha
  rw [lesser_of_number hn rfl]
  split
  · exact isLevel_one
  · rename_i h
    exact ⟨ha, (not_lt_iff_le rfl hn).mp h⟩

end Greater

end Placement.Double

import Mathlib.Data.Prod.Lex
import Mathlib.Data.Int.Order.Basic
import Placement.Answer
/-
  The order of doubles. A double that is a number has a `rank` in a linear order, and the two
  comparisons are those of the ranks (`lt_iff_rank`, `le_iff_rank`, given that both are numbers);
  what is no number compares with nothing. `isNaN_sanitize`, `zero_le_sanitize` and
  `sanitize_le_one`: bids are numbers within 0 and 1, so among bids the comparisons are linear.
-/
namespace Placement.Double

open Float.Model (UnpackedFloat)

/-! ## Ranks -/

/-- Where a number stands among the doubles: infinities outside, zeros in the middle, and finite
numbers by exponent and mantissa, which grow downwards below zero. -/
def unpackedRank : UnpackedFloat → ℤ ×ₗ ℤ ×ₗ ℤ
  | .notANumber => toLex (0, toLex (0, 0))
  | .infinity .negative => toLex (-2, toLex (0, 0))
  | .finite .negative m e _ => toLex (-1, toLex (-e, -(m : ℤ)))
  | .zero _ => toLex (0, toLex (0, 0))
  | .finite .positive m e _ => toLex (1, toLex (e, (m : ℤ)))
  | .infinity .positive => toLex (2, toLex (0, 0))

/-- The rank of a double. -/
def rank (x : Float) : ℤ ×ₗ ℤ ×ₗ ℤ := unpackedRank x.toModel.unpack

theorem compare_toLex {α β : Type} [LinearOrder α] [LinearOrder β] (a₁ a₂ : α) (b₁ b₂ : β) :
    compare (toLex (a₁, b₁)) (toLex (a₂, b₂)) = (compare a₁ a₂).then (compare b₁ b₂) := by
  rw [Prod.Lex.compare_def]
  rfl

theorem compare_of_lt {a₁ a₂ : ℤ} (h : a₁ < a₂) (b₁ b₂ : ℤ ×ₗ ℤ) :
    compare (toLex (a₁, b₁)) (toLex (a₂, b₂)) = .lt := by
  rw [compare_toLex, compare_lt_iff_lt.mpr h]
  rfl

theorem compare_of_gt {a₁ a₂ : ℤ} (h : a₂ < a₁) (b₁ b₂ : ℤ ×ₗ ℤ) :
    compare (toLex (a₁, b₁)) (toLex (a₂, b₂)) = .gt := by
  rw [compare_toLex, compare_gt_iff_gt.mpr h]
  rfl

theorem compare_mantissa (e₁ e₂ : ℤ) (m₁ m₂ : Nat) :
    (compare e₁ e₂).then (compare m₁ m₂) =
      compare (toLex (e₁, (m₁ : ℤ))) (toLex (e₂, (m₂ : ℤ))) := by
  rw [compare_toLex]
  congr 1
  rcases lt_trichotomy m₁ m₂ with h | h | h
  · rw [compare_lt_iff_lt.mpr h, compare_lt_iff_lt.mpr (Int.ofNat_lt.mpr h)]
  · subst h
    rw [compare_eq_iff_eq.mpr rfl, compare_eq_iff_eq.mpr rfl]
  · rw [compare_gt_iff_gt.mpr h, compare_gt_iff_gt.mpr (Int.ofNat_lt.mpr h)]

theorem compare_neg_int (a b : ℤ) : compare (-a) (-b) = (compare a b).swap := by
  rcases lt_trichotomy a b with h | h | h
  · rw [compare_lt_iff_lt.mpr h, compare_gt_iff_gt.mpr (Int.neg_lt_neg h)]
    rfl
  · rw [compare_eq_iff_eq.mpr h, compare_eq_iff_eq.mpr (congrArg Neg.neg h)]
    rfl
  · rw [compare_gt_iff_gt.mpr h, compare_lt_iff_lt.mpr (Int.neg_lt_neg h)]
    rfl

theorem swap_compare_mantissa (e₁ e₂ : ℤ) (m₁ m₂ : Nat) :
    ((compare e₁ e₂).then (compare m₁ m₂)).swap =
      compare (toLex (-e₁, -(m₁ : ℤ))) (toLex (-e₂, -(m₂ : ℤ))) := by
  rw [compare_mantissa, compare_toLex, compare_toLex, Ordering.swap_then, compare_neg_int,
    compare_neg_int]

/-- Finite numbers compare by sign, and those of one sign by exponent and mantissa. -/
theorem compare_finite (s s' : UnpackedFloat.Sign) (m m' : Nat) (e e' : ℤ) (hm : 0 < m)
    (hm' : 0 < m') :
    (UnpackedFloat.finite s m e hm).compare (.finite s' m' e' hm')
      = some (compare (unpackedRank (.finite s m e hm)) (unpackedRank (.finite s' m' e' hm'))) := by
  cases s with
  | negative =>
    cases s' with
    | negative =>
      show some _ = some (compare (toLex ((-1 : ℤ), toLex (-e, -(m : ℤ))))
        (toLex ((-1 : ℤ), toLex (-e', -(m' : ℤ)))))
      rw [compare_toLex, ← swap_compare_mantissa]
      rfl
    | positive => exact congrArg some (compare_of_lt (by decide) _ _).symm
  | positive =>
    cases s' with
    | negative => exact congrArg some (compare_of_gt (by decide) _ _).symm
    | positive =>
      show some _ = some (compare (toLex ((1 : ℤ), toLex (e, (m : ℤ))))
        (toLex ((1 : ℤ), toLex (e', (m' : ℤ)))))
      rw [compare_toLex, ← compare_mantissa]
      rfl

/-- Numbers compare as their ranks do. -/
theorem compare_unpacked {a b : UnpackedFloat} (ha : a ≠ .notANumber) (hb : b ≠ .notANumber) :
    a.compare b = some (compare (unpackedRank a) (unpackedRank b)) := by
  cases a with
  | notANumber => exact absurd rfl ha
  | infinity s =>
    cases b with
    | notANumber => exact absurd rfl hb
    | infinity s' => cases s <;> cases s' <;> rfl
    | zero s' => cases s <;> rfl
    | finite s' m e hm =>
      cases s with
      | negative => cases s' <;> exact congrArg some (compare_of_lt (by decide) _ _).symm
      | positive => cases s' <;> exact congrArg some (compare_of_gt (by decide) _ _).symm
  | zero s =>
    cases b with
    | notANumber => exact absurd rfl hb
    | infinity s' => cases s' <;> rfl
    | zero s' => rfl
    | finite s' m e hm =>
      cases s' with
      | negative => exact congrArg some (compare_of_gt (by decide) _ _).symm
      | positive => exact congrArg some (compare_of_lt (by decide) _ _).symm
  | finite s m e hm =>
    cases b with
    | notANumber => exact absurd rfl hb
    | infinity s' =>
      cases s' with
      | negative => cases s <;> exact congrArg some (compare_of_gt (by decide) _ _).symm
      | positive => cases s <;> exact congrArg some (compare_of_lt (by decide) _ _).symm
    | zero s' =>
      cases s with
      | negative => exact congrArg some (compare_of_lt (by decide) _ _).symm
      | positive => exact congrArg some (compare_of_gt (by decide) _ _).symm
    | finite s' m' e' hm' => exact compare_finite s s' m m' e e' hm hm'

/-! ## Comparisons -/

theorem unpack_ne_notANumber {x : Float} (h : x.isNaN = false) :
    x.toModel.unpack ≠ .notANumber := by
  intro hx
  have hn : x.toModel.unpack.isNaN = false := h
  rw [hx] at hn
  exact Bool.noConfusion hn

theorem lt_iff_unpacked (x y : Float) : x < y ↔ x.toModel.unpack.lt y.toModel.unpack = true := by
  show decide (x.toModel < y.toModel) = true ↔ _
  rw [decide_eq_true_iff]
  rfl

theorem le_iff_unpacked (x y : Float) : x ≤ y ↔ x.toModel.unpack.le y.toModel.unpack = true := by
  show decide (x.toModel ≤ y.toModel) = true ↔ _
  rw [decide_eq_true_iff]
  rfl

/-- Among numbers, less means of lower rank. -/
theorem lt_iff_rank {x y : Float} (hx : x.isNaN = false) (hy : y.isNaN = false) :
    x < y ↔ rank x < rank y := by
  rw [lt_iff_unpacked]
  unfold UnpackedFloat.lt
  rw [compare_unpacked (unpack_ne_notANumber hx) (unpack_ne_notANumber hy)]
  simp [rank, compare_lt_iff_lt]

/-- Among numbers, at most means of no higher rank. -/
theorem le_iff_rank {x y : Float} (hx : x.isNaN = false) (hy : y.isNaN = false) :
    x ≤ y ↔ rank x ≤ rank y := by
  rw [le_iff_unpacked]
  unfold UnpackedFloat.le
  rw [compare_unpacked (unpack_ne_notANumber hx) (unpack_ne_notANumber hy)]
  rw [Option.any_some, Ordering.isLE_iff_ne_gt]
  exact compare_le_iff_le

theorem not_lt_iff_le {x y : Float} (hx : x.isNaN = false) (hy : y.isNaN = false) :
    ¬ x < y ↔ y ≤ x := by
  rw [lt_iff_rank hx hy, le_iff_rank hy hx, not_lt]

/-- What compares is a number on both sides. -/
theorem isNaN_of_le {x y : Float} (h : x ≤ y) : x.isNaN = false ∧ y.isNaN = false := by
  have hu : x.toModel.unpack.le y.toModel.unpack = true := (le_iff_unpacked x y).mp h
  unfold UnpackedFloat.le at hu
  show x.toModel.unpack.isNaN = false ∧ y.toModel.unpack.isNaN = false
  cases hx : x.toModel.unpack <;> cases hy : y.toModel.unpack <;> rw [hx, hy] at hu <;>
    first
    | exact ⟨rfl, rfl⟩
    | exact absurd hu Bool.false_ne_true

theorem not_lt_of_le {x y : Float} (h : x ≤ y) : ¬ y < x := by
  obtain ⟨hx, hy⟩ := isNaN_of_le h
  exact (not_lt_iff_le hy hx).mpr h

theorem isNaN_of_lt {x y : Float} (h : x < y) : x.isNaN = false ∧ y.isNaN = false := by
  have hu : x.toModel.unpack.lt y.toModel.unpack = true := (lt_iff_unpacked x y).mp h
  unfold UnpackedFloat.lt at hu
  show x.toModel.unpack.isNaN = false ∧ y.toModel.unpack.isNaN = false
  cases hx : x.toModel.unpack <;> cases hy : y.toModel.unpack <;> rw [hx, hy] at hu <;>
    first
    | exact ⟨rfl, rfl⟩
    | exact absurd hu Bool.false_ne_true

theorem le_of_lt {x y : Float} (h : x < y) : x ≤ y := by
  obtain ⟨hx, hy⟩ := isNaN_of_lt h
  rw [le_iff_rank hx hy]
  rw [lt_iff_rank hx hy] at h
  exact h.le

theorem lt_of_le_of_lt {x y z : Float} (h : x ≤ y) (h' : y < z) : x < z := by
  obtain ⟨hx, hy⟩ := isNaN_of_le h
  obtain ⟨-, hz⟩ := isNaN_of_lt h'
  rw [le_iff_rank hx hy] at h
  rw [lt_iff_rank hy hz] at h'
  rw [lt_iff_rank hx hz]
  exact h.trans_lt h'

theorem lt_of_lt_of_le {x y z : Float} (h : x < y) (h' : y ≤ z) : x < z := by
  obtain ⟨hx, hy⟩ := isNaN_of_lt h
  obtain ⟨-, hz⟩ := isNaN_of_le h'
  rw [lt_iff_rank hx hy] at h
  rw [le_iff_rank hy hz] at h'
  rw [lt_iff_rank hx hz]
  exact h.trans_le h'

theorem le_trans {x y z : Float} (h : x ≤ y) (h' : y ≤ z) : x ≤ z := by
  obtain ⟨hx, hy⟩ := isNaN_of_le h
  obtain ⟨-, hz⟩ := isNaN_of_le h'
  rw [le_iff_rank hx hy] at h
  rw [le_iff_rank hy hz] at h'
  rw [le_iff_rank hx hz]
  exact h.trans h'

theorem le_refl {x : Float} (hx : x.isNaN = false) : x ≤ x := (le_iff_rank hx hx).mpr le_rfl

/-- Numbers are equal as doubles when none of them is less; the zeros are. -/
theorem beq_iff_rank {x y : Float} (hx : x.isNaN = false) (hy : y.isNaN = false) :
    (x == y) = true ↔ rank x = rank y := by
  show (x.toModel.unpack.compare y.toModel.unpack == some .eq) = true ↔ _
  rw [compare_unpacked (unpack_ne_notANumber hx) (unpack_ne_notANumber hy), beq_iff_eq,
    Option.some_inj]
  exact compare_eq_iff_eq

/-- What is not negative is zero unless it is positive. -/
theorem beq_zero_iff {x : Float} (h : 0 ≤ x) : (x == 0) = true ↔ ¬ 0 < x := by
  obtain ⟨h0, hx⟩ := isNaN_of_le h
  rw [le_iff_rank h0 hx] at h
  rw [beq_iff_rank hx h0, not_lt_iff_le h0 hx, le_iff_rank hx h0]
  exact ⟨fun heq => heq.le, fun hle => le_antisymm hle h⟩

/-- What is finite is a number. -/
theorem isNaN_of_isFinite {x : Float} (h : x.isFinite = true) : x.isNaN = false := by
  have hf : x.toModel.unpack.isFinite = true := h
  show x.toModel.unpack.isNaN = false
  cases hu : x.toModel.unpack with
  | notANumber =>
    rw [hu] at hf
    exact absurd hf (by decide)
  | infinity s => rfl
  | zero s => rfl
  | finite s m e hm => rfl

/-! ## Bids -/

@[simp] theorem sanitize_zero : sanitize 0 = 0 := by decide

/-- A bid is finite. -/
@[simp] theorem isFinite_sanitize (x : Float) : (sanitize x).isFinite = true := by
  unfold sanitize
  split
  · rename_i h
    unfold Scalar.clamp
    split
    · decide
    · split
      · decide
      · exact h
  · decide

/-- A bid is a number. -/
@[simp] theorem isNaN_sanitize (x : Float) : (sanitize x).isNaN = false :=
  isNaN_of_isFinite (isFinite_sanitize x)

/-- A bid is not negative. -/
theorem zero_le_sanitize (x : Float) : 0 ≤ sanitize x := by
  unfold sanitize
  split
  · rename_i h
    unfold Scalar.clamp
    split
    · decide
    · rename_i hx
      split
      · decide
      · rw [← not_lt_iff_le (isNaN_of_isFinite h) (by decide)]
        simpa [Scalar.less] using hx
  · decide

/-- A bid is at most 1. -/
theorem sanitize_le_one (x : Float) : sanitize x ≤ 1 := by
  unfold sanitize
  split
  · rename_i h
    unfold Scalar.clamp
    split
    · decide
    · split
      · decide
      · rename_i hx
        rw [← not_lt_iff_le (by decide) (isNaN_of_isFinite h)]
        simpa [Scalar.less] using hx
  · decide

/-- A bid stays as it is when it is brought within 0 and 1 again. -/
@[simp] theorem sanitize_sanitize (x : Float) : sanitize (sanitize x) = sanitize x := by
  have hf := isFinite_sanitize x
  have hn := isNaN_sanitize x
  have h0 : ¬ sanitize x < 0 := (not_lt_iff_le hn (by decide)).mpr (zero_le_sanitize x)
  have h1 : ¬ 1 < sanitize x := (not_lt_iff_le (by decide) hn).mpr (sanitize_le_one x)
  generalize sanitize x = y at *
  simp [sanitize, hf, Scalar.clamp, Scalar.less, h0, h1]

end Placement.Double

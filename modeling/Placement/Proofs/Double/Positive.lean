import Placement.Proofs.Double.Decay
/-
  Doubles that are not negative, infinity included. `denotes_add_of_nonneg`: their sums are rounded
  like those of finite doubles, since infinity stands at the limit that no sum is rounded beyond.
  `zero_le_div`: a quotient is a number, given that one of its operands is finite. Of any doubles, a
  finite sum or product has a finite second operand, and a finite quotient a finite numerator
  (`isFinite_of_add`, `isFinite_of_mul`, `isFinite_of_div`).
-/
namespace Placement.Double

open Float.Model (UnpackedFloat Format)
open Float.Model.UnpackedFloat

/-! ## Values -/

/-- A finite double is unpacked to a zero or to a number with a mantissa. -/
theorem unpack_of_isFinite {x : Float} (hx : x.isFinite = true) :
    (∃ s, x.toModel.unpack = .zero s) ∨ ∃ s m e hm, x.toModel.unpack = .finite s m e hm := by
  change x.toModel.unpack.isFinite = true at hx
  cases hu : x.toModel.unpack with
  | notANumber =>
    rw [hu] at hx
    exact Bool.noConfusion hx
  | infinity s =>
    rw [hu] at hx
    exact Bool.noConfusion hx
  | zero s => exact .inl ⟨s, rfl⟩
  | finite s m e hm => exact .inr ⟨s, m, e, hm, rfl⟩

/-- A finite double above zero is unpacked to a positive number. -/
theorem unpack_of_pos {x : Float} (hx : x.isFinite = true) (h : 0 < value x) :
    ∃ m e hm, x.toModel.unpack = .finite .positive m e hm := by
  change 0 < unpackedValue x.toModel.unpack at h
  rcases unpack_of_isFinite hx with ⟨s, hu⟩ | ⟨s, m, e, hm, hu⟩
  · rw [hu] at h
    exact absurd h (lt_irrefl _)
  · rw [hu] at h
    cases s with
    | negative =>
      have hneg : -((m : ℚ) * 2 ^ e) < 0 := neg_lt_zero.mpr (magnitude_pos hm e)
      exact absurd h hneg.not_gt
    | positive => exact ⟨m, e, hm, hu⟩

@[simp] theorem value_infinity : value (1 / 0) = limit := rfl

theorem value_nonneg {x : Float} (h : 0 ≤ x) : 0 ≤ value x := by
  have hv := (le_iff_value rfl (isNaN_of_le h).2).mp h
  rwa [value_zero] at hv

theorem value_pos {x : Float} (h : 0 < x) : 0 < value x := by
  have hv := (lt_iff_value rfl (isNaN_of_lt h).2).mp h
  rwa [value_zero] at hv

theorem Denotes.nonneg {x : Float} {q : ℚ} (h : Denotes x q) (hq : 0 ≤ q) : 0 ≤ x := by
  rw [le_iff_value rfl h.isNaN, value_zero, h.value]
  exact hq

theorem Denotes.isFinite_iff_lt {x : Float} {q : ℚ} (h : Denotes x q) (h0 : 0 ≤ x) :
    x.isFinite = true ↔ q < limit := by
  have hq : 0 ≤ q := h.value ▸ value_nonneg h0
  rw [h.isFinite_iff, abs_of_nonneg hq]

theorem rounded_of_limit_le {q : ℚ} (h : limit ≤ q) : rounded q = limit := by
  have hlimit : nearest limit = limit := by
    unfold limit
    exact_mod_cast nearest_two_zpow (k := 1024) (by norm_num)
  exact bounded_of_limit_le (hlimit.symm.trans_le (nearest_mono h))

/-- What a double that is not negative stands for is not rounded, infinite or not. -/
theorem rounded_value_of_nonneg {x : Float} (h : 0 ≤ x) : rounded (value x) = value x := by
  cases hfin : x.isFinite with
  | true => exact rounded_value hfin
  | false =>
    rw [eq_infinity_of_le h hfin, value_infinity]
    exact rounded_of_limit_le le_rfl

/-! ## Sums -/

theorem infinity_add {y : Float} (hy : 0 ≤ y) : 1 / 0 + y = 1 / 0 := by
  cases hfin : y.isFinite with
  | false =>
    rw [eq_infinity_of_le hy hfin]
    rfl
  | true =>
    show Float.ofModel (.pack (add .binary64 (.infinity .positive) y.toModel.unpack)) = 1 / 0
    rcases unpack_of_isFinite hfin with ⟨s, hu⟩ | ⟨s, m, e, hm, hu⟩ <;> rw [hu] <;> rfl

theorem add_infinity {x : Float} (hx : x.isFinite = true) : x + 1 / 0 = 1 / 0 := by
  show Float.ofModel (.pack (add .binary64 x.toModel.unpack (.infinity .positive))) = 1 / 0
  rcases unpack_of_isFinite hx with ⟨s, hu⟩ | ⟨s, m, e, hm, hu⟩ <;> rw [hu] <;> rfl

section Sum

variable {x y : Float} (hx : 0 ≤ x) (hy : 0 ≤ y)
include hx hy

/-- Sums of doubles that are not negative are rounded, whether or not they are finite. -/
theorem denotes_add_of_nonneg : Denotes (x + y) (rounded (value x + value y)) := by
  have hvx := value_nonneg hx
  have hvy := value_nonneg hy
  cases hfx : x.isFinite with
  | false =>
    obtain rfl := eq_infinity_of_le hx hfx
    rw [infinity_add hy, value_infinity, rounded_of_limit_le (by linarith)]
    exact ⟨rfl, rfl⟩
  | true =>
    cases hfy : y.isFinite with
    | false =>
      obtain rfl := eq_infinity_of_le hy hfy
      rw [add_infinity hfx, value_infinity, rounded_of_limit_le (by linarith)]
      exact ⟨rfl, rfl⟩
    | true => exact denotes_add hfx hfy

theorem zero_le_add : 0 ≤ x + y :=
  (denotes_add_of_nonneg hx hy).nonneg (rounded_nonneg (add_nonneg (value_nonneg hx)
    (value_nonneg hy)))

/-- A sum is no less than its operands. -/
theorem value_le_value_add : value x ≤ value (x + y) ∧ value y ≤ value (x + y) := by
  have hvx := value_nonneg hx
  have hvy := value_nonneg hy
  have hx' := rounded_mono (show value x ≤ value x + value y by linarith)
  have hy' := rounded_mono (show value y ≤ value x + value y by linarith)
  rw [rounded_value_of_nonneg hx] at hx'
  rw [rounded_value_of_nonneg hy] at hy'
  rw [(denotes_add_of_nonneg hx hy).value]
  exact ⟨hx', hy'⟩

end Sum

/-! ## Quotients -/

/-- A quotient is not negative unless both operands are infinite. -/
theorem zero_le_div {x y : Float} (hx : 0 ≤ x) (hy : 0 < y)
    (hfin : x.isFinite = true ∨ y.isFinite = true) : 0 ≤ x / y := by
  cases hfy : y.isFinite with
  | false =>
    have hfx : x.isFinite = true := hfin.resolve_right (by simp [hfy])
    rw [eq_infinity_of_le (le_of_lt hy) hfy]
    have hzero : ∃ s, div .binary64 x.toModel.unpack (.infinity .positive) = .zero s := by
      rcases unpack_of_isFinite hfx with ⟨s, hu⟩ | ⟨s, m, e, hm, hu⟩ <;> rw [hu] <;>
        exact ⟨_, rfl⟩
    obtain ⟨s, hs⟩ := hzero
    show 0 ≤ Float.ofModel (.pack (div .binary64 x.toModel.unpack (.infinity .positive)))
    rw [hs]
    cases s <;> decide
  | true =>
    cases hfx : x.isFinite with
    | false =>
      obtain ⟨m, e, hm, hu⟩ := unpack_of_pos hfy (value_pos hy)
      have hinfinity : div .binary64 (.infinity .positive) y.toModel.unpack
          = .infinity .positive := by
        rw [hu]
        rfl
      rw [eq_infinity_of_le hx hfx]
      show 0 ≤ Float.ofModel (.pack (div .binary64 (.infinity .positive) y.toModel.unpack))
      rw [hinfinity]
      decide
    | true =>
      have hquotient := denotes_div hfx hfy (value_pos hy).ne'
      exact hquotient.nonneg (rounded_nonneg (div_nonneg (value_nonneg hx) (value_pos hy).le))

/-! ## What is not finite -/

/-- What is not finite stays so when it is packed. -/
theorem isFinite_pack {u : UnpackedFloat} (h : u.isFinite = false) :
    (Float.ofModel (.pack u)).isFinite = false := by
  cases u with
  | notANumber => rfl
  | infinity s => cases s <;> rfl
  | zero s => exact Bool.noConfusion h
  | finite s m e hm => exact Bool.noConfusion h

/-- A finite sum has a finite second operand. -/
theorem isFinite_of_add {x y : Float} (h : (x + y).isFinite = true) : y.isFinite = true := by
  by_contra hinf
  have hy : y.toModel.unpack.isFinite = false := Bool.not_eq_true _ ▸ hinf
  have hsum : (add .binary64 x.toModel.unpack y.toModel.unpack).isFinite = false := by
    cases hv : y.toModel.unpack with
    | notANumber => cases x.toModel.unpack <;> rfl
    | infinity s =>
      cases x.toModel.unpack with
      | infinity s' => cases s <;> cases s' <;> rfl
      | _ => rfl
    | zero s =>
      rw [hv] at hy
      exact Bool.noConfusion hy
    | finite s m e hm =>
      rw [hv] at hy
      exact Bool.noConfusion hy
  exact Bool.false_ne_true ((isFinite_pack hsum).symm.trans h)

/-- A finite product has a finite second operand. -/
theorem isFinite_of_mul {x y : Float} (h : (x * y).isFinite = true) : y.isFinite = true := by
  by_contra hinf
  have hy : y.toModel.unpack.isFinite = false := Bool.not_eq_true _ ▸ hinf
  have hproduct : (mul .binary64 x.toModel.unpack y.toModel.unpack).isFinite = false := by
    cases hv : y.toModel.unpack with
    | notANumber => cases x.toModel.unpack <;> rfl
    | infinity s => cases x.toModel.unpack <;> rfl
    | zero s =>
      rw [hv] at hy
      exact Bool.noConfusion hy
    | finite s m e hm =>
      rw [hv] at hy
      exact Bool.noConfusion hy
  exact Bool.false_ne_true ((isFinite_pack hproduct).symm.trans h)

/-- A finite quotient has a finite numerator. -/
theorem isFinite_of_div {x y : Float} (h : (x / y).isFinite = true) : x.isFinite = true := by
  by_contra hinf
  have hx : x.toModel.unpack.isFinite = false := Bool.not_eq_true _ ▸ hinf
  have hquotient : (div .binary64 x.toModel.unpack y.toModel.unpack).isFinite = false := by
    cases hv : x.toModel.unpack with
    | notANumber => cases y.toModel.unpack <;> rfl
    | infinity s => cases y.toModel.unpack <;> rfl
    | zero s =>
      rw [hv] at hx
      exact Bool.noConfusion hx
    | finite s m e hm =>
      rw [hv] at hx
      exact Bool.noConfusion hx
  exact Bool.false_ne_true ((isFinite_pack hquotient).symm.trans h)

end Placement.Double

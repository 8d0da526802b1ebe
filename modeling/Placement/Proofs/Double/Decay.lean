import Placement.Proofs.Double.Arithmetic
/-
  The product `-d * w` of a finite rate `d` that is not negative and a wait `w`. A wait is the
  difference of two finite clocks and may run over into infinity; then the product is an infinity,
  or no number at all when the rate is zero. Nothing but `0 ≤ w` is asked of the wait:

  * `not_pos_decay`: the product is not above zero.
  * `not_decay_lt`: a shorter wait does not come below a longer one.
  * `isFinite_of_isNaN_decay`: it is no number only if the wait is infinite.
-/
namespace Placement.Double

open Float.Model (UnpackedFloat)

theorem eq_infinity_of_le {w : Float} (hw : 0 ≤ w) (hinf : w.isFinite = false) : w = 1 / 0 :=
  eq_infinity hinf (isNaN_of_le hw).2 (not_lt_of_le hw)

section Decay

variable {d w w' : Float} (hd : d.isFinite = true) (hd0 : 0 ≤ d)
include hd hd0

omit hd0 in
theorem denotes_decay (hfin : w.isFinite = true) :
    Denotes (-d * w) (rounded (-value d * value w)) := by
  have h := denotes_mul ((isFinite_neg d).trans hd) hfin
  rwa [value_neg] at h

/-- Over an infinite wait the decay is no number when the rate is zero, and infinite otherwise. -/
theorem decay_of_infinite (hw : 0 ≤ w) (hinf : w.isFinite = false) :
    value d = 0 ∧ (-d * w).isNaN = true ∨ 0 < value d ∧ Denotes (-d * w) (-limit) := by
  have hdn := isNaN_of_isFinite hd
  have hrank := (le_iff_rank rfl hdn).mp hd0
  have hmul : -d * w
      = .ofModel (.pack (.mul .binary64 d.toModel.unpack.neg (.infinity .positive))) := by
    rw [eq_infinity_of_le hw hinf, ← unpack_neg]
    rfl
  change d.toModel.unpack.isFinite = true at hd
  rw [hmul]
  unfold value
  cases hu : d.toModel.unpack with
  | notANumber => exact absurd hu (unpack_ne_notANumber hdn)
  | infinity s =>
    rw [hu] at hd
    exact Bool.noConfusion hd
  | zero s => exact .inl ⟨rfl, by cases s <;> rfl⟩
  | finite s m e hm =>
    cases s with
    | negative =>
      rw [show rank d = toLex (-1, toLex (-e, -(m : ℤ))) by rw [rank, hu]; rfl] at hrank
      exact absurd hrank (not_le.mpr ((toLex_lt_iff _ _ _ _).mpr (.inl (by decide))))
    | positive =>
      have hinfinity : UnpackedFloat.mul .binary64 (UnpackedFloat.finite .positive m e hm).neg
          (.infinity .positive) = .infinity .negative := rfl
      rw [hinfinity]
      exact .inr ⟨magnitude_pos hm e, rfl, rfl⟩

theorem decay_nonpos (hw : 0 ≤ w) (hn : (-d * w).isNaN = false) : value (-d * w) ≤ 0 := by
  cases hfin : w.isFinite with
  | true =>
    rw [(denotes_decay hd hfin).value, ← rounded_zero]
    have hvd := (le_iff_value rfl (isNaN_of_isFinite hd)).mp hd0
    have hvw := (le_iff_value rfl (isNaN_of_isFinite hfin)).mp hw
    rw [value_zero] at hvd hvw
    exact rounded_mono (mul_nonpos_of_nonpos_of_nonneg (neg_nonpos.mpr hvd) hvw)
  | false =>
    rcases decay_of_infinite hd hd0 hw hfin with ⟨-, h⟩ | ⟨-, h⟩
    · rw [hn] at h
      exact Bool.noConfusion h
    · rw [h.value]
      exact neg_nonpos.mpr limit_pos.le

/-- The decay is not above zero. -/
theorem not_pos_decay (hw : 0 ≤ w) : ¬ 0 < -d * w := by
  intro h
  obtain ⟨-, hn⟩ := isNaN_of_lt h
  have hv := (lt_iff_value rfl hn).mp h
  rw [value_zero] at hv
  exact absurd (decay_nonpos hd hd0 hw hn) (not_le.mpr hv)

/-- A shorter wait does not decay further. -/
theorem not_decay_lt (hw' : 0 ≤ w') (hle : w' ≤ w) : ¬ -d * w' < -d * w := by
  have hw := le_trans hw' hle
  obtain ⟨hn', hn⟩ := isNaN_of_le hle
  have hvle := (le_iff_value hn' hn).mp hle
  intro hlt
  obtain ⟨hn1, hn2⟩ := isNaN_of_lt hlt
  have hv := (lt_iff_value hn1 hn2).mp hlt
  cases hfin : w.isFinite with
  | true =>
    have hfin' := isFinite_of_le hw' hle hfin
    rw [(denotes_decay hd hfin).value, (denotes_decay hd hfin').value] at hv
    have hvd := (le_iff_value rfl (isNaN_of_isFinite hd)).mp hd0
    rw [value_zero] at hvd
    refine absurd hv (not_lt.mpr (rounded_mono ?_))
    exact mul_le_mul_of_nonpos_left hvle (neg_nonpos.mpr hvd)
  | false =>
    rcases decay_of_infinite hd hd0 hw hfin with ⟨-, h⟩ | ⟨-, h⟩
    · rw [hn2] at h
      exact Bool.noConfusion h
    · rw [h.value] at hv
      exact absurd hv (not_lt.mpr (neg_le_of_abs_le (abs_value_le _)))

omit hd0 in
/-- Where a decay is no number the wait is infinite. -/
theorem isFinite_of_isNaN_decay (h : (-d * w).isNaN = true) : w.isFinite = false := by
  cases hfin : w.isFinite with
  | false => rfl
  | true =>
    rw [(denotes_decay hd hfin).isNaN] at h
    exact Bool.noConfusion h

end Decay

end Placement.Double

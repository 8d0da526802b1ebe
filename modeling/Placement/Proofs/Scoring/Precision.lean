import Placement.Proofs.Double.Level
import Placement.Scoring.Heuristic
/-
  Levels rounded to a number of decimal places, given at most twelve. The scale is a power of ten up
  to `10^12` and exact (`denotes_scale`); a level times the scale, the integer nearest to that, and
  the quotient by the scale are each rounded once (`denotes_roundTo`).

  * `isLevel_roundTo`, `roundTo_mono`: a level stays a level and the order is kept.
  * `roundTo_pos_iff`: what is left is above zero exactly when the product with the scale is above a
    half.
-/
namespace Placement.Heuristic

open Double Decimal

/-- The scales in use are exact. -/
theorem scale_ofNat : ∀ n : Fin 13, (scale (UInt32.ofNat n)).isFinite = true ∧
    Double.value (scale (UInt32.ofNat n)) = 10 ^ n.val := by
  decide +kernel

section Scale

variable {places : UInt32} (hp : places.toNat ≤ 12)
include hp

theorem isFinite_scale : (scale places).isFinite = true := by
  have h := (scale_ofNat ⟨places.toNat, by omega⟩).1
  rwa [UInt32.ofNat_toNat] at h

theorem denotes_scale : Denotes (scale places) (10 ^ places.toNat) := by
  have h := (scale_ofNat ⟨places.toNat, by omega⟩).2
  rw [UInt32.ofNat_toNat] at h
  exact ⟨isNaN_of_isFinite (isFinite_scale hp), h⟩

variable {x y : Float} (hx : IsLevel x) (hy : IsLevel y)
include hx

/-- A level in units of the last decimal place. -/
theorem denotes_mul_scale :
    Denotes (x * scale places) (rounded (Double.value x * 10 ^ places.toNat)) := by
  have h := denotes_mul hx.isFinite (isFinite_scale hp)
  rwa [(denotes_scale hp).value] at h

omit hp in
theorem units_nonneg : 0 ≤ rounded (Double.value x * 10 ^ places.toNat) :=
  rounded_nonneg (mul_nonneg hx.value_nonneg (by positivity))

theorem units_le : rounded (Double.value x * 10 ^ places.toNat) ≤ 10 ^ places.toNat := by
  have hle : Double.value x * 10 ^ places.toNat ≤ Double.value (scale places) := by
    rw [(denotes_scale hp).value]
    exact mul_le_of_le_one_left (by positivity) hx.value_le_one
  exact (rounded_le (isFinite_scale hp) hle).trans_eq (denotes_scale hp).value

theorem isFinite_mul_scale : (x * scale places).isFinite = true :=
  isFinite_of_le ((denotes_zero.le_iff (denotes_mul_scale hp hx)).mpr (units_nonneg hx))
    (((denotes_mul_scale hp hx).le_iff (denotes_scale hp)).mpr (units_le hp hx))
    (isFinite_scale hp)

/-- The whole units of a level. -/
theorem denotes_wholeUnits : Denotes (roundTiesEven (x * scale places))
    (nearestInt .toEven (rounded (Double.value x * 10 ^ places.toNat))) := by
  have hd := denotes_mul_scale hp hx
  have h := denotes_toIntegral .toEven (isFinite_mul_scale hp hx)
    ((units_nonneg hx).trans_eq hd.value.symm)
  rwa [hd.value] at h

omit hp in
theorem wholeUnits_nonneg :
    (0 : ℚ) ≤ nearestInt .toEven (rounded (Double.value x * 10 ^ places.toNat)) :=
  Int.cast_nonneg (nearestInt_nonneg _ (units_nonneg hx))

theorem wholeUnits_le :
    (nearestInt .toEven (rounded (Double.value x * 10 ^ places.toNat)) : ℚ)
      ≤ 10 ^ places.toNat := by
  have h := nearestInt_mono .toEven ((units_le hp hx).trans_eq
    (show (10 : ℚ) ^ places.toNat = ((10 ^ places.toNat : ℕ) : ℚ) by push_cast; rfl))
  rw [nearestInt_natCast] at h
  exact_mod_cast h

theorem isFinite_wholeUnits : (roundTiesEven (x * scale places)).isFinite = true :=
  isFinite_of_le ((denotes_zero.le_iff (denotes_wholeUnits hp hx)).mpr (wholeUnits_nonneg hx))
    (((denotes_wholeUnits hp hx).le_iff (denotes_scale hp)).mpr (wholeUnits_le hp hx))
    (isFinite_scale hp)

theorem denotes_roundTo : Denotes (roundTo places x)
    (rounded (nearestInt .toEven (rounded (Double.value x * 10 ^ places.toNat))
      / 10 ^ places.toNat)) := by
  have hscale := (denotes_scale hp).value
  have h := denotes_div (isFinite_wholeUnits hp hx) (isFinite_scale hp)
    (by rw [hscale]; positivity)
  rwa [(denotes_wholeUnits hp hx).value, hscale] at h

theorem isLevel_roundTo : IsLevel (roundTo places x) := by
  refine (denotes_roundTo hp hx).isLevel ?_ ?_
  · exact rounded_nonneg (div_nonneg (wholeUnits_nonneg hx) (by positivity))
  · exact IsLevel.rounded_le_one (div_le_one_of_le₀ (wholeUnits_le hp hx) (by positivity))

include hy in
/-- Rounding to decimal places keeps the order. -/
theorem roundTo_mono (h : x ≤ y) : roundTo places x ≤ roundTo places y := by
  have hv := (hx.denotes.le_iff hy.denotes).mp h
  refine ((denotes_roundTo hp hx).le_iff (denotes_roundTo hp hy)).mpr (rounded_mono ?_)
  have hunits := nearestInt_mono .toEven
    (rounded_mono (mul_le_mul_of_nonneg_right hv (show (0 : ℚ) ≤ 10 ^ places.toNat by positivity)))
  exact div_le_div_of_nonneg_right (Int.cast_le.mpr hunits) (by positivity)

/-- A level is left above zero exactly when it has more than half a unit. -/
theorem roundTo_pos_iff :
    0 < roundTo places x ↔ 1 / 2 < rounded (Double.value x * 10 ^ places.toNat) := by
  have hunits : 0 ≤ rounded (Double.value x * 10 ^ places.toNat) := units_nonneg hx
  rw [denotes_zero.lt_iff (denotes_roundTo hp hx), ← nearestInt_toEven_pos hunits]
  have hnonneg := nearestInt_nonneg .toEven hunits
  generalize nearestInt .toEven (rounded (Double.value x * 10 ^ places.toNat)) = k at *
  constructor
  · intro h
    refine hnonneg.lt_of_ne ?_
    rintro rfl
    rw [Int.cast_zero, zero_div, rounded_zero] at h
    exact lt_irrefl _ h
  · intro h
    have hk : (1 : ℚ) ≤ k := by exact_mod_cast h
    have hpow : (10 : ℚ) ^ places.toNat ≤ 10 ^ 12 := pow_le_pow_right₀ (by norm_num) hp
    have hsmall : (2 : ℚ) ^ (-40 : ℤ) ≤ k / 10 ^ places.toNat := calc
      (2 : ℚ) ^ (-40 : ℤ) ≤ 1 / 10 ^ 12 := by norm_num
      _ ≤ k / 10 ^ places.toNat := div_le_div₀ (by linarith) hk (by positivity) hpow
    exact (zpow_two_pos _).trans_le (two_zpow_le_rounded (by norm_num) (by norm_num) hsmall)

end Scale

end Placement.Heuristic

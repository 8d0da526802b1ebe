import Placement.Duration
import Placement.Proofs.Double.Level
import Placement.Proofs.Double.Sum
/-
  Seconds as doubles. `isFinite_roundSeconds`: a finite number of seconds that is not negative is
  rounded to a finite one exactly when it can be counted in microseconds at all.
  `isFinite_roundSeconds_add`: a measured span is at most `2^65` seconds, so a sum of two of them
  always can.
-/
namespace Placement

namespace Double

theorem isFinite_toIntegral (tie : Decimal.Tie) {x : Float} (hx : x.isFinite = true) :
    (Decimal.toIntegral tie x).isFinite = true := by
  obtain ⟨s, m, e, hparts, -, -⟩ := parts_of_isFinite hx
  unfold Decimal.toIntegral
  rw [hparts]
  dsimp only
  split
  · exact hx
  · split
    · rw [isFinite_neg]
      exact isFinite_count _
    · exact isFinite_count _

theorem isFinite_micro : (1e6 : Float).isFinite = true := rfl

theorem value_of_natCast {x : Float} {n : ℕ} (hn : n < 2 ^ 53) (h : n.toUInt64.toFloat = x) :
    value x = n := by
  rw [← h]
  exact (denotes_natCast hn).value

theorem value_micro : value 1e6 = 10 ^ 6 := by
  have hliteral : value 1e6 = (1000000 : ℕ) := value_of_natCast (by norm_num) (by rfl)
  rw [hliteral]
  norm_num

theorem value_nano : value 1e9 = 10 ^ 9 := by
  have hliteral : value 1e9 = (1000000000 : ℕ) := value_of_natCast (by norm_num) (by rfl)
  rw [hliteral]
  norm_num

theorem zero_le_iff {x : Float} (hx : x.isNaN = false) : 0 ≤ x ↔ 0 ≤ value x :=
  denotes_zero.le_iff (.of_isNaN hx)

/-- Seconds are rounded to a finite number when they can be counted in microseconds. -/
theorem isFinite_roundSeconds {s : Float} (h0 : 0 ≤ s) (hs : s.isFinite = true) :
    (roundSeconds s).isFinite = (s * 1e6).isFinite := by
  have hmicros := denotes_mul hs isFinite_micro
  have hnonneg : 0 ≤ value (s * 1e6) := by
    rw [hmicros.value, value_micro]
    exact rounded_nonneg (mul_nonneg ((zero_le_iff (isNaN_of_isFinite hs)).mp h0) (by positivity))
  have hle := (zero_le_iff hmicros.isNaN).mpr hnonneg
  unfold roundSeconds
  cases hfin : (s * 1e6).isFinite with
  | false =>
    rw [eq_infinity hfin hmicros.isNaN (not_lt_of_le hle)]
    rfl
  | true =>
    have hwhole := isFinite_toIntegral .up hfin
    have hunits := denotes_toIntegral .up hfin hnonneg
    have hunits0 := Int.cast_nonneg (R := ℚ) (nearestInt_nonneg .up hnonneg)
    rw [← hunits.value] at hunits0
    have hquot := denotes_div hwhole isFinite_micro (by rw [value_micro]; positivity)
    rw [value_micro] at hquot
    refine isFinite_of_le ?_ ?_ hwhole
    · exact (zero_le_iff hquot.isNaN).mpr
        (hquot.value.symm ▸ rounded_nonneg (div_nonneg hunits0 (by positivity)))
    · refine (hquot.le_iff (.of_isNaN hunits.isNaN)).mpr (rounded_le hwhole ?_)
      exact div_le_self hunits0 (by norm_num)

/-- Seconds that are counted in microseconds on the way are far below the greatest double. -/
theorem abs_roundSeconds_le {s : Float} (h : (roundSeconds s).isFinite = true) :
    |value (roundSeconds s)| ≤ 2 ^ (1005 : ℤ) := by
  have hwhole : (Decimal.roundHalfAway (s * 1e6)).isFinite = true := isFinite_of_div h
  have hquot := denotes_div hwhole isFinite_micro (by rw [value_micro]; positivity)
  rw [value_micro] at hquot
  have hseconds : value (roundSeconds s)
      = rounded (value (Decimal.roundHalfAway (s * 1e6)) / 10 ^ 6) := hquot.value
  rw [hseconds]
  refine abs_rounded_le_of_eq (rounded_two_zpow (by norm_num) (by norm_num)) ?_
  have hlimit : limit = 2 ^ 19 * 2 ^ (1005 : ℤ) := by
    unfold limit
    rw [← zpow_natCast, ← zpow_natCast, ← zpow_add₀ (by norm_num)]
    rfl
  have hpow := zpow_two_pos 1005
  rw [abs_div, abs_of_pos (show (0 : ℚ) < 10 ^ 6 by norm_num), div_le_iff₀ (by norm_num)]
  calc |value (Decimal.roundHalfAway (s * 1e6))| ≤ limit := abs_value_le _
    _ = 2 ^ 19 * 2 ^ (1005 : ℤ) := hlimit
    _ ≤ 10 ^ 6 * 2 ^ (1005 : ℤ) := mul_le_mul_of_nonneg_right (by norm_num) hpow.le
    _ = 2 ^ (1005 : ℤ) * 10 ^ 6 := mul_comm _ _

end Double

namespace Duration

open Double

/-- As many seconds as two spans can have together can be counted in microseconds. -/
theorem isFinite_roundSeconds_of_le {s : Float} (h0 : 0 ≤ s) (hs : s.isFinite = true)
    (h : value s ≤ 2 ^ 66) : (roundSeconds s).isFinite = true := by
  have hv0 := (zero_le_iff (isNaN_of_isFinite hs)).mp h0
  have hmicros := denotes_mul hs isFinite_micro
  rw [value_micro] at hmicros
  rw [isFinite_roundSeconds h0 hs]
  have hle : value s * 10 ^ 6 ≤ 2 ^ (86 : ℤ) := calc
    value s * 10 ^ 6 ≤ 2 ^ 66 * 10 ^ 6 := mul_le_mul_of_nonneg_right h (by positivity)
    _ ≤ 2 ^ (86 : ℤ) := by norm_num
  exact hmicros.isFinite_of_le_two_zpow (by norm_num)
    (rounded_nonneg (mul_nonneg hv0 (by positivity)))
    (rounded_le_two_zpow (by norm_num) (by norm_num) hle)

variable (d : Duration)

theorem denotes_fraction : Denotes (d.nanos.toUInt64.toFloat / 1e9)
    (rounded (value d.nanos.toUInt64.toFloat / 10 ^ 9)) := by
  have h := denotes_div (isFinite_count d.nanos.toUInt64)
    (show (1e9 : Float).isFinite = true from rfl) (by rw [value_nano]; positivity)
  rwa [value_nano] at h

/-- Below one second. -/
theorem isLevel_fraction : IsLevel (d.nanos.toUInt64.toFloat / 1e9) := by
  have hnanos := d.nanos_lt
  have hexact := (denotes_natCast (n := d.nanos) (by omega)).value
  have hle : (d.nanos : ℚ) ≤ 10 ^ 9 := by exact_mod_cast d.nanos_lt.le
  have h := d.denotes_fraction
  rw [hexact] at h
  exact h.isLevel (rounded_nonneg (by positivity))
    (IsLevel.rounded_le_one (div_le_one_of_le₀ hle (by positivity)))

theorem denotes_toFloat : Denotes d.toFloat
    (rounded (value d.seconds.toUInt64.toFloat + value (d.nanos.toUInt64.toFloat / 1e9))) :=
  denotes_add (isFinite_count _) d.isLevel_fraction.isFinite

theorem zero_le_toFloat : 0 ≤ d.toFloat := by
  refine (denotes_zero.le_iff d.denotes_toFloat).mpr (rounded_nonneg ?_)
  exact add_nonneg (value_count_nonneg _) d.isLevel_fraction.value_nonneg

theorem value_toFloat_nonneg : 0 ≤ value d.toFloat :=
  (zero_le_iff d.denotes_toFloat.isNaN).mp d.zero_le_toFloat

theorem value_toFloat_le : value d.toFloat ≤ 2 ^ (65 : ℤ) := by
  have hseconds := value_count_le d.seconds.toUInt64
  have hfraction := d.isLevel_fraction.value_le_one
  rw [d.denotes_toFloat.value]
  refine rounded_le_two_zpow (by norm_num) (by norm_num) ?_
  norm_num at hseconds ⊢
  linarith

theorem isFinite_toFloat : d.toFloat.isFinite = true :=
  (Denotes.of_isNaN d.denotes_toFloat.isNaN).isFinite_of_le_two_zpow (by norm_num)
    d.value_toFloat_nonneg d.value_toFloat_le

/-- One span is rounded to a finite number of seconds. -/
theorem isFinite_roundSeconds_toFloat : (roundSeconds d.toFloat).isFinite = true :=
  isFinite_roundSeconds_of_le d.zero_le_toFloat d.isFinite_toFloat
    (d.value_toFloat_le.trans (by norm_num))

section

variable (d' : Duration)

theorem denotes_add : Denotes (d.toFloat + d'.toFloat)
    (rounded (value d.toFloat + value d'.toFloat)) :=
  Double.denotes_add d.isFinite_toFloat d'.isFinite_toFloat

theorem rounded_add_le : rounded (value d.toFloat + value d'.toFloat) ≤ 2 ^ (66 : ℤ) := by
  refine rounded_le_two_zpow (by norm_num) (by norm_num) ?_
  calc value d.toFloat + value d'.toFloat ≤ 2 ^ (65 : ℤ) + 2 ^ (65 : ℤ) :=
        add_le_add d.value_toFloat_le d'.value_toFloat_le
    _ = 2 ^ (66 : ℤ) := by norm_num

theorem rounded_add_nonneg : 0 ≤ rounded (value d.toFloat + value d'.toFloat) :=
  rounded_nonneg (add_nonneg d.value_toFloat_nonneg d'.value_toFloat_nonneg)

/-- Two spans are a finite number of seconds together. -/
theorem isFinite_add : (d.toFloat + d'.toFloat).isFinite = true :=
  (d.denotes_add d').isFinite_of_le_two_zpow (by norm_num) (d.rounded_add_nonneg d')
    (d.rounded_add_le d')

/-- And that is rounded to a finite number. -/
theorem isFinite_roundSeconds_add : (roundSeconds (d.toFloat + d'.toFloat)).isFinite = true := by
  have hsum := d.denotes_add d'
  refine isFinite_roundSeconds_of_le ((denotes_zero.le_iff hsum).mpr (d.rounded_add_nonneg d'))
    (d.isFinite_add d') ?_
  rw [hsum.value]
  exact_mod_cast d.rounded_add_le d'

end

end Duration

end Placement

import Placement.Decimal.Significand
import Placement.Proofs.Double.Scientific
/-
  Decimals as the reader computes them, in two rounded steps. `fitting_eq`: digits that fit 64 bits
  together are all kept. `computed?_ne_none`: a decimal is not refused, given that its value and the
  power of ten in it are at most `ceiling`; each of the two roundings at most doubles.
-/
namespace Placement.Decimal

open Double (Denotes rounded value)

/-! ## Significands -/

/-- A significand with the digits behind it. -/
def grown (significand : ℕ) (cs : List Char) : ℕ :=
  cs.foldl (fun n c => 10 * n + digitValue c) significand

theorem le_grown (significand : ℕ) (cs : List Char) : significand ≤ grown significand cs := by
  induction cs generalizing significand with
  | nil => exact le_rfl
  | cons c rest ih =>
    have hrest := ih (10 * significand + digitValue c)
    show significand ≤ grown (10 * significand + digitValue c) rest
    omega

/-- Digits that fit together are all taken. -/
theorem takeFitting_eq {significand : ℕ} {cs : List Char}
    (h : grown significand cs < UInt64.size) :
    takeFitting significand cs = (grown significand cs, []) := by
  induction cs generalizing significand with
  | nil => rfl
  | cons c rest ih =>
    have hfits : 10 * significand + digitValue c < UInt64.size := (le_grown _ rest).trans_lt h
    rw [takeFitting, if_pos hfits]
    exact ih h

/-- A written number whose digits fit 64 bits keeps them all. -/
theorem fitting_eq {l : Literal} (h : ofDigits (l.whole ++ l.fraction) < UInt64.size) :
    l.fitting = ⟨ofDigits (l.whole ++ l.fraction), l.exponent - l.fraction.length⟩ := by
  have hall : ofDigits (l.whole ++ l.fraction) = grown (grown 0 l.whole) l.fraction :=
    List.foldl_append
  rw [hall] at h ⊢
  have hwhole := takeFitting_eq ((le_grown _ l.fraction).trans_lt h)
  unfold Literal.fitting
  rw [hwhole]
  dsimp only
  rw [takeFitting_eq h]
  simp

/-- What is kept of a written number fits 64 bits, and its power of ten is at most that of the
first digit. -/
theorem fitting_le (l : Literal) : l.fitting.digits < UInt64.size ∧
    l.fitting.exponent ≤ l.exponent + l.whole.length := by
  have hwhole := (takeFitting_suffix 0 l.whole).length_le
  refine ⟨takeFitting_lt (takeFitting_lt (by decide) _) _, ?_⟩
  unfold Literal.fitting
  dsimp only
  omega

/-! ## Computed doubles -/

/-- A natural number is at most doubled when it is rounded. -/
theorem rounded_natCast_le {n : ℕ} {k : ℕ} (hk : k < 1023) (h : (n : ℚ) ≤ 2 ^ k) :
    rounded n ≤ 2 * n := by
  rcases Nat.eq_zero_or_pos n with rfl | hpos
  · rw [Nat.cast_zero, Double.rounded_zero, mul_zero]
  have hlow : (2 : ℚ) ^ n.log2 ≤ n := by exact_mod_cast Nat.log2_self_le hpos.ne'
  have hhigh : (n : ℚ) ≤ 2 ^ (n.log2 + 1 : ℤ) := by exact_mod_cast Nat.lt_log2_self.le
  have hbits : n.log2 ≤ k := (pow_le_pow_iff_right₀ (by norm_num)).mp (hlow.trans h)
  calc rounded n ≤ 2 ^ (n.log2 + 1 : ℤ) := Double.rounded_le_two_zpow (by omega) (by omega) hhigh
    _ = 2 * 2 ^ n.log2 := by
      rw [zpow_add_one₀ (by norm_num), zpow_natCast, mul_comm]
    _ ≤ 2 * n := by linarith

/-- A number far below the greatest double. -/
def ceiling : ℚ := 2 ^ 1010

theorem four_mul_ceiling : 4 * ceiling = 2 ^ (1012 : ℤ) := by
  unfold ceiling
  rw [show (1012 : ℤ) = 2 + (1010 : ℕ) from rfl, zpow_add₀ (by norm_num), zpow_natCast]
  norm_num

theorem ceiling_pos : 0 < ceiling := pow_pos (by norm_num) 1010

theorem le_greatestPower {k : ℕ} (h : (10 : ℚ) ^ k ≤ ceiling) : k ≤ greatestPower := by
  by_contra hlarge
  have hpow : (10 : ℚ) ^ 309 ≤ 10 ^ k := pow_le_pow_right₀ (by norm_num) (not_le.mp hlarge)
  have hsize : 2 ^ 1010 < 10 ^ 309 := by decide +kernel
  have hsize' : ceiling < 10 ^ 309 := by
    unfold ceiling
    exact_mod_cast hsize
  exact absurd (hpow.trans h) (not_le.mpr hsize')

theorem rounded_ten_pow_le {k : ℕ} (h : (10 : ℚ) ^ k ≤ ceiling) :
    rounded (10 ^ k) ≤ 2 * 10 ^ k := by
  have hrounded := rounded_natCast_le (n := 10 ^ k) (k := 1010) (by norm_num)
    (by rw [Nat.cast_pow, Nat.cast_ofNat]; exact h)
  exact_mod_cast hrounded

/-- Digits and a power of ten lose at most a factor of two each when they are rounded. -/
theorem rounded_product_le {n k : ℕ} (hn : n < UInt64.size) (hten : (10 : ℚ) ^ k ≤ ceiling)
    (hvalue : (n * 10 ^ k : ℚ) ≤ ceiling) : rounded n * rounded (10 ^ k) ≤ 2 ^ (1012 : ℤ) := by
  have hdigits : rounded n ≤ 2 * n :=
    rounded_natCast_le (k := 64) (by norm_num) (by exact_mod_cast hn.le)
  calc rounded n * rounded (10 ^ k) ≤ 2 * n * (2 * 10 ^ k) :=
        mul_le_mul hdigits (rounded_ten_pow_le hten) (Double.rounded_nonneg (by positivity))
          (mul_nonneg zero_le_two (Nat.cast_nonneg _))
    _ = 4 * (n * 10 ^ k) := by ring
    _ ≤ 4 * ceiling := by linarith
    _ = 2 ^ (1012 : ℤ) := four_mul_ceiling

/-- A decimal far below the greatest double is computed. -/
theorem computed?_ne_none {d : Scaled} (hd : d.digits < UInt64.size)
    (hten : (10 : ℚ) ^ d.exponent ≤ ceiling) (hvalue : d.value ≤ ceiling) :
    d.computed? ≠ none := by
  unfold Scaled.computed?
  dsimp only
  by_cases hsign : d.exponent < 0
  · rw [if_pos hsign]
    exact Option.some_ne_none _
  obtain ⟨k, hk⟩ := Int.eq_ofNat_of_zero_le (not_lt.mp hsign)
  unfold Scaled.value at hvalue
  rw [hk, zpow_natCast] at hten hvalue
  have hcount : d.digits.toUInt64.toNat = d.digits := UInt64.toNat_ofNat_of_lt hd
  have hx := Double.value_count d.digits.toUInt64
  rw [hcount] at hx
  have ht := Double.denotes_ofScientific 1 false k
  rw [if_neg Bool.false_ne_true, Nat.cast_one, one_mul, zpow_natCast] at ht
  have hpower0 : 0 ≤ rounded (10 ^ k) := Double.rounded_nonneg (by positivity)
  have hpower : rounded (10 ^ k) ≤ 2 ^ (1012 : ℤ) := by
    have hle := rounded_ten_pow_le hten
    have hceiling := ceiling_pos
    rw [← four_mul_ceiling]
    linarith
  have htfinite := ht.isFinite_of_le_two_zpow (k := 1012) (by norm_num) hpower0 hpower
  have hproduct := Double.denotes_mul (Double.isFinite_count d.digits.toUInt64) htfinite
  rw [hx, ht.value] at hproduct
  have hfinite := hproduct.isFinite_of_le_two_zpow (k := 1012) (by norm_num)
    (Double.rounded_nonneg (mul_nonneg (Double.rounded_nonneg (Nat.cast_nonneg _)) hpower0))
    (Double.rounded_le_two_zpow (by norm_num) (by norm_num) (rounded_product_le hd hten hvalue))
  have hgreatest := le_greatestPower hten
  have hfinite' : (d.digits.toUInt64.toFloat * tenTo k).isFinite = true := by
    unfold tenTo
    rwa [min_eq_left hgreatest]
  rw [if_neg hsign, hk, Int.natAbs_natCast, if_pos hgreatest, if_pos hfinite']
  exact Option.some_ne_none _

end Placement.Decimal

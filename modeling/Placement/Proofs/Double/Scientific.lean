import Placement.Decimal.Literal
import Placement.Proofs.Decimal.Digits
import Placement.Proofs.Double.Level
import Placement.Proofs.Double.Positive
/-
  Doubles read from decimals. `denotes_ofScientific` and `denotes_scaled`: the double of `m · 10^e`
  is the one nearest to it, for every `m` and `e`. A product with a power of ten is rounded once,
  and so is a quotient; a table of the powers that are doubles themselves, and shortcuts for
  decimals far outside the range, give the same.
-/
namespace Placement

namespace Decimal

/-! ## Numbers of digits -/

/-- A number is below the power of ten with as many zeros as it has digits. -/
theorem lt_ten_pow_digitCount (n : Nat) : n < 10 ^ digitCount n := by
  induction n using digitCount.induct with
  | case1 => exact Nat.pow_pos (by decide)
  | case2 n hn ih =>
    rw [digitCount, if_neg hn, Nat.pow_succ]
    omega

/-- A positive number is at least the power of ten with one zero less. -/
theorem ten_pow_digitCount_le {n : Nat} (h : 0 < n) : 10 ^ digitCount n ≤ 10 * n := by
  induction n using digitCount.induct with
  | case1 => exact absurd h (lt_irrefl 0)
  | case2 n hn ih =>
    rw [digitCount, if_neg hn, Nat.pow_succ]
    rcases Nat.eq_zero_or_pos (n / 10) with hzero | hpos
    · rw [hzero, digitCount, if_pos rfl]
      omega
    · have hrest := ih hpos
      omega

end Decimal

namespace Double

open Float.Model (UnpackedFloat Format)
open Float.Model.UnpackedFloat

/-! ## Far outside the range -/

/-- What is less than half of the least double is rounded to zero. -/
theorem rounded_of_lt {q : ℚ} (h0 : 0 ≤ q) (h : q < 2 ^ (-1075 : ℤ)) : rounded q = 0 := by
  rcases h0.eq_or_lt with rfl | hpos
  · exact rounded_zero
  have hlog : Int.log 2 q < -1075 := by
    by_contra hge
    have hle := (Int.zpow_le_iff_le_log (b := 2) (by decide) hpos).mpr (not_lt.mp hge)
    exact absurd h (not_lt.mpr (by exact_mod_cast hle))
  have hlast : lastPlace q = -1074 := by
    unfold lastPlace
    omega
  have hunits : q / 2 ^ (-1074 : ℤ) < 1 / 2 := by
    rw [div_lt_iff₀ (zpow_two_pos _)]
    calc q < 2 ^ (-1075 : ℤ) := h
      _ = 1 / 2 * 2 ^ (-1074 : ℤ) := by
        rw [show (-1074 : ℤ) = -1075 + 1 by norm_num, zpow_add_one₀ (by norm_num)]
        ring
  have hunits0 : 0 ≤ q / 2 ^ (-1074 : ℤ) := div_nonneg h0 (zpow_two_pos _).le
  have hmantissa : nearestMantissa q = 0 := by
    have hfloor : ⌊q / 2 ^ (-1074 : ℤ)⌋ = 0 := Int.floor_eq_zero_iff.mpr ⟨hunits0, by linarith⟩
    unfold nearestMantissa
    rw [hlast, nearestInt_of_lt, hfloor]
    rwa [Int.fract, hfloor, Int.cast_zero, sub_zero]
  unfold rounded
  rw [nearest_of_nonneg h0]
  unfold nearestMagnitude
  rw [hmantissa, Int.cast_zero, zero_mul]
  exact bounded_of_abs_le (abs_zero.trans_le limit_pos.le)

/-- A power of ten lies beyond the power of two with three times as many zeros, on either side of
1. -/
theorem two_zpow_le_ten_zpow {k : ℤ} (h : 0 ≤ k) : (2 : ℚ) ^ (3 * k) ≤ 10 ^ k := by
  obtain ⟨n, rfl⟩ := Int.eq_ofNat_of_zero_le h
  rw [zpow_mul, zpow_natCast, zpow_natCast]
  exact pow_le_pow_left₀ (by norm_num) (by norm_num) n

theorem ten_zpow_le_two_zpow {k : ℤ} (h : k ≤ 0) : (10 : ℚ) ^ k ≤ 2 ^ (3 * k) := by
  have hinv := inv_anti₀ (zpow_two_pos _) (two_zpow_le_ten_zpow (k := -k) (by omega))
  rwa [← zpow_neg, ← zpow_neg, neg_neg, mul_neg, neg_neg] at hinv

theorem rounded_of_ten_zpow_le {q : ℚ} {k : ℤ} (hk : 342 ≤ k) (h : 10 ^ k ≤ q) :
    rounded q = limit := by
  refine rounded_of_limit_le (ge_trans h (ge_trans (two_zpow_le_ten_zpow (by omega)) ?_))
  unfold limit
  rw [← zpow_natCast]
  exact zpow_le_zpow_right₀ (by norm_num) (by push_cast; omega)

/-! ## One product or one quotient -/

theorem ten_pow_pos (k : ℕ) : 0 < 10 ^ k := Nat.pow_pos (by decide)

/-- The product with a power of ten is rounded once. -/
theorem isNearest_mul_ten {m : ℕ} (hm : 0 < m) (k : ℕ) (hm' : 0 < m <<< 53) (hk : 0 < 10 ^ k) :
    IsNearest (mul .binary64 (.finite .positive (m <<< 53) (-53) hm')
      (.finite .positive (10 ^ k) 0 hk)) ((m : ℚ) * (10 : ℚ) ^ (k : ℤ)) := by
  have hexact : (m : ℚ) * (10 : ℚ) ^ (k : ℤ)
      = ((m <<< 53 * 10 ^ k : ℕ) : ℚ) * 2 ^ (-53 + 0 : ℤ) := by
    rw [Nat.shiftLeft_eq, zpow_natCast]
    push_cast
    norm_num
    ring
  have hbits : (2 : ℚ) ^ 52 ≤ ((m <<< 53 * 10 ^ k : ℕ) : ℚ) := by
    have hle : 2 ^ 52 * 1 ≤ m <<< 53 * 10 ^ k := by
      rw [Nat.shiftLeft_eq]
      exact Nat.mul_le_mul (by omega) hk
    exact_mod_cast hle
  rw [hexact]
  exact isNearest_roundWithAccuracy .positive (represents_exact _)
    (Nat.cast_pos.mpr (Nat.mul_pos hm' hk)) (le_lastPlace hbits _)

/-- The quotient by a power of ten is rounded once. -/
theorem isNearest_div_ten {m : ℕ} (hm : 0 < m) (k : ℕ) (hk : 0 < 10 ^ k) :
    IsNearest (div .binary64 (.finite .positive m 0 hm) (.finite .positive (10 ^ k) 0 hk))
      ((m : ℚ) * (10 : ℚ) ^ (-k : ℤ)) := by
  have hquotient : IsNearest
      (div .binary64 (.finite .positive m 0 hm) (.finite .positive (10 ^ k) 0 hk)) _ :=
    isNearest_div_finite hm hk .positive .positive
  have hexact : withSign .positive ((m : ℚ) * 2 ^ (0 : ℤ))
      / withSign .positive (((10 ^ k : ℕ) : ℚ) * 2 ^ (0 : ℤ)) = (m : ℚ) * (10 : ℚ) ^ (-k : ℤ) := by
    simp only [withSign, zpow_zero, mul_one, zpow_neg, zpow_natCast, Nat.cast_pow, Nat.cast_ofNat]
    rw [div_eq_mul_inv]
  rwa [hexact] at hquotient

/-- The double made of `m · 10^e` is the nearest one. -/
theorem denotes_model (m : ℕ) (e : ℤ) :
    Denotes (.ofModel (Float.Model.ofScientific m e)) (rounded (m * (10 : ℚ) ^ e)) := by
  unfold Float.Model.ofScientific UnpackedFloat.ofScientific
  by_cases hm : m = 0
  · rw [dif_pos hm, hm, Nat.cast_zero, zero_mul, rounded_zero]
    exact ⟨rfl, rfl⟩
  rw [dif_neg hm]
  have hpos : 0 < m := Nat.pos_of_ne_zero hm
  have hone : (1 : ℚ) ≤ m := by exact_mod_cast hpos
  have hten : (0 : ℚ) < 10 ^ e := zpow_pos (by norm_num) e
  by_cases hlarge : e > 2 ^ Format.binary64.exponentBits
  · rw [if_pos hlarge]
    change (2 ^ 11 : ℤ) < e at hlarge
    rw [rounded_of_ten_zpow_le (k := e) (by omega) (le_mul_of_one_le_left hten.le hone)]
    exact ⟨rfl, rfl⟩
  rw [if_neg hlarge]
  by_cases hsmall : e < -((2 ^ Format.binary64.exponentBits : ℤ) + m.log2)
  · rw [if_pos hsmall]
    change e < -((2 ^ 11 : ℤ) + m.log2) at hsmall
    have hm2 : (m : ℚ) ≤ 2 ^ ((m.log2 : ℤ) + 1) := by
      exact_mod_cast (Nat.lt_log2_self (n := m)).le
    have htiny : (m : ℚ) * 10 ^ e < 2 ^ (-1075 : ℤ) := calc
      (m : ℚ) * 10 ^ e ≤ 2 ^ ((m.log2 : ℤ) + 1) * 2 ^ (3 * e) :=
        mul_le_mul hm2 (ten_zpow_le_two_zpow (by omega)) hten.le (zpow_two_pos _).le
      _ = 2 ^ ((m.log2 : ℤ) + 1 + 3 * e) := (zpow_add₀ (by norm_num) _ _).symm
      _ < 2 ^ (-1075 : ℤ) := zpow_lt_zpow_right₀ (by norm_num) (by omega)
    rw [rounded_of_lt (mul_nonneg (by linarith) hten.le) htiny]
    exact ⟨rfl, rfl⟩
  rw [if_neg hsmall]
  by_cases hsign : 0 ≤ e
  · obtain ⟨k, rfl⟩ := Int.eq_ofNat_of_zero_le hsign
    rw [if_pos hsign]
    exact (isNearest_mul_ten hpos k _ _).denotes
  · obtain ⟨k, rfl⟩ : ∃ k : ℕ, e = -k := ⟨(-e).toNat, by omega⟩
    rw [if_neg hsign]
    have hdiv := (isNearest_div_ten hpos (- -(k : ℤ)).toNat (ten_pow_pos _)).denotes
    have hk : (((- -(k : ℤ)).toNat : ℕ) : ℤ) = k := by omega
    rw [hk] at hdiv
    exact hdiv

/-! ## Tabled powers -/

theorem ten_power_lt {e : ℕ} (h : e ≤ 22) :
    e < Float.exactlyRepresentablePowersOfTen.size := by
  have hsize : Float.exactlyRepresentablePowersOfTen.size = 23 := rfl
  omega

/-- The tabled powers of ten are exact. -/
theorem denotes_tabled {e : ℕ} (h : e ≤ 22) :
    Denotes (getElem Float.exactlyRepresentablePowersOfTen e (ten_power_lt h))
      ((10 : ℚ) ^ e) := by
  have hall : ∀ e : Fin 23,
      (getElem Float.exactlyRepresentablePowersOfTen e.val
        (ten_power_lt (Nat.le_of_lt_succ e.isLt))).isNaN = false ∧
      value (getElem Float.exactlyRepresentablePowersOfTen e.val
        (ten_power_lt (Nat.le_of_lt_succ e.isLt))) = 10 ^ e.val := by
    decide +kernel
  obtain ⟨hn, hv⟩ := hall ⟨e, by omega⟩
  exact ⟨hn, hv⟩

/-- A decimal with a natural exponent of either sign. -/
theorem denotes_ofScientific (m : ℕ) (negative : Bool) (e : ℕ) :
    Denotes (OfScientific.ofScientific m negative e)
      (rounded (m * (10 : ℚ) ^ (if negative then -(e : ℤ) else e))) := by
  show Denotes (Float.ofScientific m negative e) _
  unfold Float.ofScientific
  by_cases hfast : m < 2 ^ 53 ∧ e ≤ 22
  · rw [dif_pos hfast]
    have hcount := denotes_natCast hfast.1
    have htable := denotes_tabled hfast.2
    have hcountfin := isFinite_count m.toUInt64
    have htablefin : (getElem Float.exactlyRepresentablePowersOfTen e
        (ten_power_lt hfast.2)).isFinite = true := by
      refine htable.isFinite_of_le_two_zpow (k := 88) (by norm_num) (by positivity) ?_
      calc (10 : ℚ) ^ e ≤ 10 ^ 22 := pow_le_pow_right₀ (by norm_num) hfast.2
        _ ≤ 2 ^ (88 : ℤ) := by norm_num
    cases negative with
    | false =>
      have hproduct := denotes_mul hcountfin htablefin
      rw [hcount.value, htable.value] at hproduct
      exact hproduct
    | true =>
      have hne : value (getElem Float.exactlyRepresentablePowersOfTen e
          (ten_power_lt hfast.2)) ≠ 0 := by
        rw [htable.value]
        positivity
      have hquotient := denotes_div hcountfin htablefin hne
      rw [hcount.value, htable.value, div_eq_mul_inv, ← zpow_natCast, ← zpow_neg] at hquotient
      exact hquotient
  · rw [dif_neg hfast]
    cases negative with
    | false => exact denotes_model m e
    | true =>
      have hmodel := denotes_model m (Int.negOfNat e)
      rw [Int.negOfNat_eq] at hmodel
      exact hmodel

end Double

/-! ## Decimals -/

namespace Decimal

open Double (Denotes rounded limit)

/-- The number that a decimal stands for. -/
def Scaled.value (d : Scaled) : ℚ := d.digits * 10 ^ d.exponent

/-- The double of a decimal is the nearest one, and infinity beyond all doubles. -/
theorem denotes_scaled (d : Scaled) : Denotes d.toFloat (rounded d.value) := by
  unfold Scaled.toFloat Scaled.value
  dsimp only
  by_cases hzero : d.digits = 0
  · rw [if_pos hzero, hzero, Nat.cast_zero, zero_mul, Double.rounded_zero]
    exact ⟨rfl, rfl⟩
  have hpos : 0 < d.digits := Nat.pos_of_ne_zero hzero
  have hlow : (10 : ℚ) ^ (digitCount d.digits : ℤ) ≤ 10 * d.digits := by
    exact_mod_cast ten_pow_digitCount_le hpos
  have hhigh : (d.digits : ℚ) ≤ 10 ^ (digitCount d.digits : ℤ) := by
    exact_mod_cast (lt_ten_pow_digitCount d.digits).le
  have hten : (0 : ℚ) < 10 ^ d.exponent := zpow_pos (by norm_num) _
  rw [if_neg hzero]
  by_cases hlarge : 400 < (digitCount d.digits : ℤ) + d.exponent
  · have hreach : (10 : ℚ) ^ (digitCount d.digits + d.exponent - 1 : ℤ)
        ≤ d.digits * 10 ^ d.exponent := by
      rw [zpow_sub_one₀ (by norm_num), zpow_add₀ (by norm_num), mul_right_comm]
      refine mul_le_mul_of_nonneg_right ?_ hten.le
      linarith
    rw [if_pos hlarge, Double.rounded_of_ten_zpow_le (by omega) hreach]
    exact ⟨rfl, rfl⟩
  rw [if_neg hlarge]
  by_cases hsmall : (digitCount d.digits : ℤ) + d.exponent < -400
  · have htiny : (d.digits : ℚ) * 10 ^ d.exponent < 2 ^ (-1075 : ℤ) := calc
      (d.digits : ℚ) * 10 ^ d.exponent
          ≤ 10 ^ (digitCount d.digits : ℤ) * 10 ^ d.exponent :=
        mul_le_mul_of_nonneg_right hhigh hten.le
      _ = 10 ^ (digitCount d.digits + d.exponent : ℤ) := (zpow_add₀ (by norm_num) _ _).symm
      _ ≤ 2 ^ (3 * (digitCount d.digits + d.exponent) : ℤ) :=
        Double.ten_zpow_le_two_zpow (by omega)
      _ < 2 ^ (-1075 : ℤ) := zpow_lt_zpow_right₀ (by norm_num) (by omega)
    rw [if_pos hsmall, Double.rounded_of_lt (mul_nonneg (Nat.cast_nonneg _) hten.le) htiny]
    exact ⟨rfl, rfl⟩
  rw [if_neg hsmall]
  by_cases hsign : 0 ≤ d.exponent
  · have hread := Double.denotes_ofScientific d.digits false d.exponent.toNat
    rw [if_neg Bool.false_ne_true, Int.toNat_of_nonneg hsign] at hread
    rwa [if_pos hsign]
  · have hread := Double.denotes_ofScientific d.digits true (-d.exponent).toNat
    rw [if_pos rfl, Int.toNat_of_nonneg (by omega), neg_neg] at hread
    rwa [if_neg hsign]

end Decimal

end Placement

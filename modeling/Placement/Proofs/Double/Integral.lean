import Placement.Proofs.Double.Arithmetic
/-
  Doubles rounded to integers. `parts_eq`: the parts of a double are those it is unpacked to, and
  they determine it (`eq_of_parts_eq`). `denotes_toIntegral`: a finite double that is not negative
  is rounded to one that stands for the integer nearest to it. Up to `2^53` every integer is a
  double, and beyond it every double is an integer.
-/
namespace Placement.Double

open Decimal (Parts Tie)
open Float.Model (UnpackedFloat Format)
open Float.Model.UnpackedFloat

/-! ## Parts -/

/-- Whether a sign is the one of the numbers below zero. -/
def isNegative : Sign → Bool
  | .negative => true
  | .positive => false

/-- The parts of an unpacked double; a zero has the lowest exponent. -/
def unpackedParts : UnpackedFloat → Parts
  | .notANumber => .nan
  | .infinity s => .infinite (isNegative s)
  | .zero s => .finite (isNegative s) 0 (-1074)
  | .finite s m e _ => .finite (isNegative s) m e

theorem isNegative_unpackSign (x : Float) :
    isNegative (.ofBitVec (@unpackSign Format.binary64 x.toModel.toBits.toBitVec))
      = decide (0x8000000000000000 ≤ x.toBits.toNat) := by
  have hsign := toNat_unpackSign x
  have hlt := x.toBits.toNat_lt
  unfold Sign.ofBitVec
  by_cases h : @unpackSign Format.binary64 x.toModel.toBits.toBitVec = 0#1
  · rw [if_pos h]
    rw [h] at hsign
    change 0 = _ at hsign
    exact (decide_eq_false (by omega)).symm
  · rw [if_neg h]
    have hne : (@unpackSign Format.binary64 x.toModel.toBits.toBitVec).toNat ≠ 0 :=
      fun hc => h (BitVec.eq_of_toNat_eq hc)
    exact (decide_eq_true (by omega)).symm

/-- The parts that are read from the bits are those of the unpacked double. -/
theorem parts_eq (x : Float) : Decimal.parts x = unpackedParts x.toModel.unpack := by
  have hexp := toNat_unpackExponent x
  have hmant := toNat_unpackMantissa x
  have hones : @unpackExponent Format.binary64 x.toModel.toBits.toBitVec = -1#11 ↔
      (@unpackExponent Format.binary64 x.toModel.toBits.toBitVec).toNat = 2047 :=
    BitVec.toNat_inj.symm
  have hlowest : @unpackExponent Format.binary64 x.toModel.toBits.toBitVec = 0#11 ↔
      (@unpackExponent Format.binary64 x.toModel.toBits.toBitVec).toNat = 0 :=
    BitVec.toNat_inj.symm
  have hzero : @unpackMantissa Format.binary64 x.toModel.toBits.toBitVec = 0#52 ↔
      (@unpackMantissa Format.binary64 x.toModel.toBits.toBitVec).toNat = 0 :=
    BitVec.toNat_inj.symm
  unfold Decimal.parts Float.Model.unpack UnpackedFloat.unpack
  dsimp only
  rw [← hexp, ← hmant, ← isNegative_unpackSign]
  by_cases h1 : @unpackExponent Format.binary64 x.toModel.toBits.toBitVec = -1#11
  · rw [if_pos h1, if_pos (hones.mp h1)]
    by_cases h2 : @unpackMantissa Format.binary64 x.toModel.toBits.toBitVec = 0#52
    · rw [if_pos h2, if_pos (hzero.mp h2)]
      rfl
    · rw [if_neg h2, if_neg (mt hzero.mpr h2)]
      rfl
  · rw [if_neg h1, if_neg (mt hones.mpr h1)]
    by_cases h2 : @unpackExponent Format.binary64 x.toModel.toBits.toBitVec = 0#11
    · rw [if_pos h2, if_pos (hlowest.mp h2)]
      by_cases h3 : @unpackMantissa Format.binary64 x.toModel.toBits.toBitVec = 0#52
      · rw [dif_pos h3, h3]
        rfl
      · rw [dif_neg h3, h2]
        rfl
    · rw [if_neg h2, if_neg (mt hlowest.mpr h2)]
      show _ = Parts.finite _ (1#1 ++ @unpackMantissa Format.binary64 _).toNat _
      rw [toNat_implicit]
      rfl

/-- A finite double comes apart into what it stands for, with a mantissa and an exponent that a
double may have. -/
theorem canonical_parts {x : Float} (hx : x.isFinite = true) :
    ∃ s m e, Decimal.parts x = .finite (isNegative s) m e ∧ Canonical m e ∧ e ≤ 971 ∧
      value x = withSign s (m * 2 ^ e) := by
  have hfits := fits_unpack x
  rw [parts_eq]
  change x.toModel.unpack.isFinite = true at hx
  unfold value
  cases hu : x.toModel.unpack with
  | notANumber =>
    rw [hu] at hx
    exact absurd hx Bool.false_ne_true
  | infinity s =>
    rw [hu] at hx
    exact absurd hx Bool.false_ne_true
  | zero s =>
    refine ⟨s, 0, -1074, rfl, ⟨by decide, by decide, .inr rfl⟩, by decide, ?_⟩
    rw [Nat.cast_zero, zero_mul, withSign_zero]
    rfl
  | finite s m e hm =>
    rw [hu] at hfits
    exact ⟨s, m, e, rfl, hfits.1, hfits.2, rfl⟩

theorem parts_of_isFinite {x : Float} (hx : x.isFinite = true) :
    ∃ s m e, Decimal.parts x = .finite (isNegative s) m e ∧ m < 2 ^ 53 ∧
      value x = withSign s (m * 2 ^ e) := by
  obtain ⟨s, m, e, hparts, hcanonical, -, hvalue⟩ := canonical_parts hx
  exact ⟨s, m, e, hparts, hcanonical.lt, hvalue⟩

/-- The bits of a double with these parts. -/
def bitsOf (negative : Bool) (m : ℕ) (e : ℤ) : ℕ :=
  (if negative then 0x8000000000000000 else 0)
    + if m < 0x10000000000000 then m
      else (e + 1075).toNat * 0x10000000000000 + (m - 0x10000000000000)

theorem toNat_toBits {x : Float} {negative : Bool} {m : ℕ} {e : ℤ}
    (h : Decimal.parts x = .finite negative m e) : x.toBits.toNat = bitsOf negative m e := by
  have hlt := x.toBits.toNat_lt
  unfold Decimal.parts at h
  dsimp only at h
  unfold bitsOf
  split_ifs at h with hones hnan hzero
  · cases h
    have hfraction : x.toBits.toNat % 0x10000000000000 < 0x10000000000000 :=
      Nat.mod_lt _ (by decide)
    rw [if_pos hfraction]
    simp only [decide_eq_true_eq]
    split_ifs <;> omega
  · cases h
    have hfull : ¬ 0x10000000000000 + x.toBits.toNat % 0x10000000000000 < 0x10000000000000 := by
      omega
    rw [if_neg hfull]
    simp only [decide_eq_true_eq]
    split_ifs <;> omega

/-- A finite double is told by its parts. -/
theorem eq_of_parts_eq {x y : Float} {negative : Bool} {m : ℕ} {e : ℤ}
    (hx : Decimal.parts x = .finite negative m e) (hy : Decimal.parts y = .finite negative m e) :
    x = y :=
  eq_of_toNat_toBits ((toNat_toBits hx).trans (toNat_toBits hy).symm)

/-! ## Natural numbers -/

theorem natCast_lt_limit {n : ℕ} (h : n ≤ 2 ^ 64) : (n : ℚ) < limit := by
  unfold limit
  calc (n : ℚ) ≤ 2 ^ 64 := by exact_mod_cast h
    _ < 2 ^ 1024 := pow_lt_pow_right₀ (by norm_num) (by norm_num)

/-- Natural numbers of 53 bits are doubles. -/
theorem denotes_natCast {n : ℕ} (h : n < 2 ^ 53) : Denotes n.toUInt64.toFloat n := by
  have hcount := denotes_count n.toUInt64
  have hnat : n.toUInt64.toNat = n := by
    show n % 2 ^ 64 = n
    omega
  have hbound : |(n : ℚ)| ≤ limit := by
    rw [Nat.abs_cast]
    exact (natCast_lt_limit (by omega)).le
  rwa [hnat, rounded, nearest_natCast h, bounded_of_abs_le hbound] at hcount

/-! ## Rounding to integers -/

theorem roundQuotient_lt {tie : Tie} {m k : ℕ} (h : m < 2 ^ 53) (hk : 0 < k) :
    Decimal.roundQuotient tie m (Nat.pow 2 k) < 2 ^ 53 := by
  have hdiv : m / 2 ^ k < 2 ^ 52 := by
    rw [Nat.div_lt_iff_lt_mul (by positivity)]
    calc m < 2 ^ 52 * 2 ^ 1 := by omega
      _ ≤ 2 ^ 52 * 2 ^ k := Nat.mul_le_mul_left _ (Nat.pow_le_pow_right (by decide) hk)
  have hround := Decimal.roundQuotient_eq_or tie m (Nat.pow 2 k)
  change _ = m / 2 ^ k ∨ _ = m / 2 ^ k + 1 at hround
  omega

/-- A double that is not negative is rounded to the integer nearest to what it stands for. -/
theorem denotes_toIntegral (tie : Tie) {x : Float} (hx : x.isFinite = true) (h0 : 0 ≤ value x) :
    Denotes (Decimal.toIntegral tie x) (nearestInt tie (value x)) := by
  obtain ⟨s, m, e, hparts, hm, hvalue⟩ := parts_of_isFinite hx
  have habs : value x = m * 2 ^ e := by
    rw [← abs_of_nonneg h0, hvalue, abs_withSign, abs_of_nonneg (magnitude_nonneg m e)]
  unfold Decimal.toIntegral
  rw [hparts]
  dsimp only
  by_cases he : 0 ≤ e
  · rw [if_pos he]
    obtain ⟨k, rfl⟩ := Int.eq_ofNat_of_zero_le he
    have hint : value x = ((m * 2 ^ k : ℕ) : ℚ) := by
      rw [habs, zpow_natCast]
      push_cast
      rfl
    refine ⟨isNaN_of_isFinite hx, ?_⟩
    rw [hint, nearestInt_natCast, Int.cast_natCast]
  · rw [if_neg he]
    obtain ⟨k, rfl⟩ : ∃ k : ℕ, e = -(k : ℤ) := ⟨(-e).toNat, by omega⟩
    have hk : 0 < k := by omega
    rw [neg_neg, Int.toNat_natCast]
    have hquot : (Decimal.roundQuotient tie m (Nat.pow 2 k) : ℤ) = nearestInt tie (value x) := by
      rw [roundQuotient_eq tie m (Nat.pow 2 k) (Nat.two_pow_pos k), habs, zpow_neg, zpow_natCast,
        show ((Nat.pow 2 k : ℕ) : ℚ) = 2 ^ k by exact_mod_cast rfl, div_eq_mul_inv]
    have hlt : Decimal.roundQuotient tie m (Nat.pow 2 k) < 2 ^ 53 := roundQuotient_lt hm hk
    have hden := denotes_natCast hlt
    rw [← Int.cast_natCast, hquot] at hden
    cases s with
    | positive => exact hden
    | negative =>
      -- only a zero has this sign here
      have hzero : value x = 0 := by
        have hnonpos : value x ≤ 0 := by
          rw [hvalue]
          exact neg_nonpos.mpr (magnitude_nonneg _ _)
        exact le_antisymm hnonpos h0
      rw [hzero, nearestInt_zero, Int.cast_zero] at hden ⊢
      refine ⟨?_, ?_⟩
      · show (-(Decimal.roundQuotient tie m (Nat.pow 2 k)).toUInt64.toFloat).isNaN = false
        rw [isNaN_neg]
        exact hden.isNaN
      · show value (-(Decimal.roundQuotient tie m (Nat.pow 2 k)).toUInt64.toFloat) = 0
        rw [value_neg, hden.value, neg_zero]

end Placement.Double

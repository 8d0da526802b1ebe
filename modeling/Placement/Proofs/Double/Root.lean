import Placement.Proofs.Double.Positive
/-
  Square roots of doubles. The root of a mantissa is a whole number with a remainder that tells on
  which side of the next half the exact root lies, so the result is the double nearest to a number
  between the same two halves (`isNearest_sqrt`). All that is said of that number is that it is not
  below the root of any power of four that the operand reaches, and no more is needed for
  `abs_le_two_mul_sqrt`: the root of a rounded square is at least half of what was squared, given
  that this is not below `2^-511`.
-/
namespace Placement.Double

open Float.Model (UnpackedFloat Format totalExponent)
open Float.Model.UnpackedFloat

/-- A number between the same halves as the root of a mantissa. -/
def rootPoint (m : ℕ) : ℚ :=
  if m - m.sqrt * m.sqrt = 0 then m.sqrt
  else if m - m.sqrt * m.sqrt ≤ m.sqrt then m.sqrt + 1 / 4 else m.sqrt + 3 / 4

/-- The accuracy of a root tells its remainder from nothing and from a half. -/
theorem represents_root (m : ℕ) :
    Represents (.ofMantissaAndAccuracy m.sqrt (if m - m.sqrt * m.sqrt = 0 then .exact
      else .inexact (if m - m.sqrt * m.sqrt ≤ m.sqrt then .lt else .gt))) (rootPoint m) := by
  unfold rootPoint
  generalize m.sqrt = r
  split_ifs with hexact hless
  · exact represents_exact r
  · have hlead : leading (.ofMantissaAndAccuracy r (.inexact .lt)) = r := by
      simp [leading, ExtendedMantissa.ofMantissaAndAccuracy]
    exact ⟨by linarith, by linarith, iff_of_false Bool.noConfusion (by linarith)⟩
  · have hlead : leading (.ofMantissaAndAccuracy r (.inexact .gt)) = r + 1 / 2 := by
      simp [leading, ExtendedMantissa.ofMantissaAndAccuracy]
    exact ⟨by linarith, by linarith, iff_of_false Bool.noConfusion (by linarith)⟩

theorem sqrt_le_rootPoint (m : ℕ) : (m.sqrt : ℚ) ≤ rootPoint m := by
  unfold rootPoint
  split_ifs <;> linarith

theorem one_le_sqrt {m : ℕ} (hm : 0 < m) : (1 : ℚ) ≤ m.sqrt := by
  have hle : 1 ≤ m.sqrt := Nat.le_sqrt.mpr (by omega)
  exact_mod_cast hle

/-- The root of a number is not below the root of a power of four that the number reaches. -/
theorem two_zpow_le_rootPoint {m : ℕ} (hm : 0 < m) {t k : ℤ}
    (h : 2 ^ (2 * k) ≤ (m : ℚ) * 2 ^ (2 * t)) : 2 ^ k ≤ rootPoint m * 2 ^ t := by
  have hroot := one_le_sqrt hm
  have hpoint := sqrt_le_rootPoint m
  rcases le_or_gt t k with htk | hkt
  · obtain ⟨n, rfl⟩ : ∃ n : ℕ, k = t + n := ⟨(k - t).toNat, by omega⟩
    have hpow : ((2 : ℚ) ^ n) * 2 ^ n ≤ m := by
      rw [mul_add, zpow_add₀ (by norm_num), mul_comm] at h
      have hsame := le_of_mul_le_mul_right h (zpow_two_pos _)
      rwa [two_mul, zpow_add₀ (by norm_num), zpow_natCast] at hsame
    have hsqrt : (2 : ℚ) ^ n ≤ m.sqrt := by
      exact_mod_cast Nat.le_sqrt.mpr (by exact_mod_cast hpow)
    rw [add_comm, zpow_add₀ (by norm_num), zpow_natCast]
    exact mul_le_mul_of_nonneg_right (hsqrt.trans hpoint) (zpow_two_pos t).le
  · calc (2 : ℚ) ^ k ≤ 1 * 2 ^ t := by
          rw [one_mul]
          exact zpow_le_zpow_right₀ (by norm_num) hkt.le
      _ ≤ rootPoint m * 2 ^ t :=
          mul_le_mul_of_nonneg_right (hroot.trans hpoint) (zpow_two_pos t).le

/-- The root of a positive number is the double nearest to a number that is not below the root of
any power of four that the operand reaches. -/
theorem isNearest_sqrt {m : ℕ} {e : ℤ} (hm : 0 < m) :
    ∃ q, IsNearest (sqrt .binary64 (.finite .positive m e hm)) q ∧
      ∀ k : ℤ, 2 ^ (2 * k) ≤ (m : ℚ) * 2 ^ e → 2 ^ k ≤ q := by
  unfold sqrt sqrtCore
  dsimp only
  generalize ht : min (e.ediv 2) (Format.binary64.targetExponent
    ((totalExponent m e + 1).ediv 2)) = t
  generalize hM : m <<< (e - 2 * t).toNat = M
  have hhalf : t ≤ e.ediv 2 := ht ▸ min_le_left _ _
  have hshift : e = 2 * t + ((e - 2 * t).toNat : ℤ) := by
    change t ≤ e / 2 at hhalf
    omega
  have hexact : (m : ℚ) * 2 ^ e = M * 2 ^ (2 * t) := by
    rw [← hM, Nat.shiftLeft_eq, Nat.cast_mul, Nat.cast_pow, Nat.cast_ofNat, mul_assoc,
      ← zpow_natCast, ← zpow_add₀ (by norm_num)]
    congr 2
    omega
  have hpos : 0 < M := by
    rw [← hM, Nat.shiftLeft_eq]
    positivity
  have hreach : ∀ k : ℤ, 2 ^ (2 * k) ≤ (m : ℚ) * 2 ^ e → 2 ^ k ≤ rootPoint M * 2 ^ t :=
    fun k hk => two_zpow_le_rootPoint hpos (hexact ▸ hk)
  have hpoint : 0 < rootPoint M :=
    zero_lt_one.trans_le ((one_le_sqrt hpos).trans (sqrt_le_rootPoint M))
  refine ⟨rootPoint M * 2 ^ t, ?_, hreach⟩
  have hnearest := isNearest_roundWithAccuracy .positive (represents_root M) hpoint (e := t) ?_
  · exact hnearest
  -- the operand has so many bits that its root is no coarser than its last place
  have hbits : 2 ^ (2 * ((totalExponent m e + 1) / 2 - 1)) ≤ (m : ℚ) * 2 ^ e := by
    have hlow : (2 : ℚ) ^ ((m.log2 : ℤ) + e) ≤ m * 2 ^ e := by
      rw [zpow_add₀ (by norm_num), zpow_natCast]
      refine mul_le_mul_of_nonneg_right ?_ (zpow_two_pos e).le
      exact_mod_cast Nat.log2_self_le hm.ne'
    refine (zpow_le_zpow_right₀ (by norm_num) ?_).trans hlow
    show 2 * (((m.log2 : ℤ) + 1 + e + 1) / 2 - 1) ≤ _
    omega
  have hlog := (Int.zpow_le_iff_le_log (b := 2) (by decide) (mul_pos hpoint (zpow_two_pos t))).mp
    (hreach _ hbits)
  have htarget : t ≤ max ((totalExponent m e + 1) / 2 - 53) (-1074) := ht ▸ min_le_right _ _
  unfold lastPlace
  omega

/-- The root of a double is not below the root of a power of four that the double reaches. -/
theorem two_zpow_le_sqrt {x : Float} (hx : x.isFinite = true) {k : ℤ} (hlow : -1022 ≤ k)
    (hhigh : k ≤ 1023) (h : 2 ^ (2 * k) ≤ value x) : 2 ^ k ≤ value x.sqrt := by
  have hsqrt : x.sqrt = .ofModel (.pack (sqrt .binary64 x.toModel.unpack)) := rfl
  obtain ⟨m, e, hm, hu⟩ := unpack_of_pos hx ((zpow_two_pos (2 * k)).trans_le h)
  obtain ⟨q, hnearest, hreach⟩ := isNearest_sqrt (e := e) hm
  have hvalue : value x = m * 2 ^ e := by
    unfold value
    rw [hu]
    rfl
  rw [hsqrt, hu, hnearest.denotes.value]
  exact two_zpow_le_rounded hlow hhigh (hreach k (hvalue ▸ h))

/-- Only a finite double has a finite root. -/
theorem isFinite_of_sqrt {x : Float} (h0 : 0 ≤ x) (h : x.sqrt.isFinite = true) :
    x.isFinite = true := by
  by_contra hinf
  rw [eq_infinity_of_le h0 (Bool.not_eq_true _ ▸ hinf)] at h
  exact Bool.noConfusion h

/-- A number that is not too small lies between two powers of two that follow each other. -/
theorem exists_two_zpow {q : ℚ} {n : ℤ} (h : 2 ^ n ≤ q) :
    ∃ k : ℤ, n ≤ k ∧ 2 ^ k ≤ q ∧ q < 2 ^ (k + 1) := by
  have hpos : 0 < q := (zpow_two_pos n).trans_le h
  refine ⟨Int.log 2 q, (Int.zpow_le_iff_le_log (b := 2) (by decide) hpos).mp h, ?_, ?_⟩
  · exact Int.zpow_log_le_self (b := 2) (by decide) hpos
  · exact Int.lt_zpow_succ_log_self (b := 2) (by decide) q

/-- A number is at most twice the root of a double that its rounded square does not exceed. -/
theorem abs_le_two_mul_sqrt {x : Float} (h0 : 0 ≤ x) (hx : x.isFinite = true) {q : ℚ}
    (hlarge : 2 ^ (-511 : ℤ) ≤ |q|) (h : rounded (q * q) ≤ value x) :
    |q| ≤ 2 * value x.sqrt := by
  obtain ⟨k, hk, hlow, hhigh⟩ := exists_two_zpow hlarge
  have hpower : (2 : ℚ) ^ (2 * k) ≤ q * q := by
    rw [two_mul, zpow_add₀ (by norm_num), ← abs_mul_abs_self q]
    exact mul_self_le_mul_self (zpow_two_pos k).le hlow
  have hbound : 2 * k ≤ 1023 := by
    by_contra hbig
    have hover : limit ≤ q * q := by
      refine ge_trans hpower ?_
      unfold limit
      rw [← zpow_natCast]
      exact zpow_le_zpow_right₀ (by norm_num) (by push_cast; omega)
    have hlt := (Double.isFinite_iff (isNaN_of_isFinite hx)).mp hx
    rw [abs_of_nonneg (value_nonneg h0)] at hlt
    exact absurd hlt (not_lt.mpr ((rounded_of_limit_le hover).symm.trans_le h))
  have hroot : 2 ^ k ≤ value x.sqrt :=
    two_zpow_le_sqrt hx (by omega) (by omega)
      ((two_zpow_le_rounded (by omega) hbound hpower).trans h)
  calc |q| ≤ 2 ^ (k + 1) := hhigh.le
    _ = 2 * 2 ^ k := by rw [zpow_add_one₀ (by norm_num), mul_comm]
    _ ≤ 2 * value x.sqrt := by linarith

end Placement.Double

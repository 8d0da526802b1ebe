import Placement.Proofs.Double.Value
/-
  What rounding does to an unpacked result. A result comes as a mantissa with two residual bits, and
  `Represents em q` says which exact numbers it may stand for. Shifts divide that number
  (`Represents.shiftRight`), and in the end it is rounded once (`Represents.roundedMantissa_eq`).

  `isNearest_roundWithAccuracy` and `isNearest_round`: the rounded result is in place and stands for
  the `nearest` of the exact number (`IsNearest`).
-/
namespace Placement.Double

open Float.Model (UnpackedFloat Format totalExponent)
open Float.Model.UnpackedFloat

/-! ## Residual bits -/

/-- The part of a number that mantissa and round bit hold. -/
def leading (em : ExtendedMantissa) : ℚ := em.mantissa + if em.roundBit then 1 / 2 else 0

/-- Mantissa and residual bits stand for a number: they hold it in halves, and the sticky bit tells
whether anything is left over. -/
structure Represents (em : ExtendedMantissa) (q : ℚ) : Prop where
  le : leading em ≤ q
  lt : q < leading em + 1 / 2
  sticky : em.stickyBit = false ↔ q = leading em

theorem mantissa_le_leading (em : ExtendedMantissa) : (em.mantissa : ℚ) ≤ leading em := by
  unfold leading
  split <;> linarith

theorem leading_le (em : ExtendedMantissa) : leading em ≤ em.mantissa + 1 / 2 := by
  unfold leading
  split <;> linarith

theorem leading_eq_mantissa {em : ExtendedMantissa} :
    leading em = em.mantissa ↔ em.roundBit = false := by
  unfold leading
  cases em.roundBit <;> simp

/-- A shift moves the last bit of the mantissa into the round bit. -/
theorem leading_shiftRightOne (em : ExtendedMantissa) :
    leading em.shiftRightOne = em.mantissa / 2 := by
  have hsplit : (em.mantissa : ℚ)
      = 2 * ((em.mantissa / 2 : ℕ) : ℚ) + ((em.mantissa % 2 : ℕ) : ℚ) := by
    exact_mod_cast (Nat.div_add_mod em.mantissa 2).symm
  show ((em.mantissa / 2 : ℕ) : ℚ) + (if (em.mantissa % 2 != 0) = true then 1 / 2 else 0) = _
  rcases Nat.mod_two_eq_zero_or_one em.mantissa with h | h
  · rw [h] at hsplit ⊢
    rw [if_neg (by decide), hsplit]
    push_cast
    ring
  · rw [h] at hsplit ⊢
    rw [if_pos (by decide), hsplit]
    push_cast
    ring

namespace Represents

variable {em : ExtendedMantissa} {q : ℚ}

theorem floor_eq (h : Represents em q) : ⌊q⌋ = em.mantissa := by
  have h1 := h.le
  have h2 := h.lt
  have h3 := mantissa_le_leading em
  have h4 := leading_le em
  refine Int.floor_eq_iff.mpr ⟨?_, ?_⟩
  · rw [Int.cast_natCast]
    linarith
  · rw [Int.cast_natCast]
    linarith

/-- A shift by one halves the number. -/
theorem shiftRightOne (h : Represents em q) : Represents em.shiftRightOne (q / 2) := by
  have h1 := h.le
  have h2 := h.lt
  have h3 := mantissa_le_leading em
  have h4 := leading_le em
  have hlead := leading_shiftRightOne em
  refine ⟨by linarith, by linarith, ?_⟩
  rw [hlead]
  show (em.roundBit || em.stickyBit) = false ↔ _
  rw [Bool.or_eq_false_iff, h.sticky, ← leading_eq_mantissa]
  constructor
  · rintro ⟨hround, hq⟩
    rw [hq, hround]
  · intro hq
    exact ⟨by linarith, by linarith⟩

/-- A shift divides by a power of two. -/
theorem shiftRight (h : Represents em q) (n : ℕ) : Represents (em >>> n) (q / 2 ^ n) := by
  induction n with
  | zero =>
    rw [pow_zero, div_one]
    exact h
  | succ n ih =>
    rw [pow_succ, ← div_div]
    exact ih.shiftRightOne

/-- Rounding takes the nearest integer. -/
theorem roundedMantissa_eq (h : Represents em q) :
    (em.roundedMantissa : ℤ) = nearestInt .toEven q := by
  have hle := h.le
  have hlt := h.lt
  have hsticky := h.sticky
  have hfloor := h.floor_eq
  have hfract : Int.fract q = q - em.mantissa := by
    rw [← Int.self_sub_floor, hfloor, Int.cast_natCast]
  obtain ⟨m, round, sticky⟩ := em
  simp only [leading] at hle hlt hsticky hfloor hfract
  cases round with
  | false =>
    have hdown : nearestInt .toEven q = m := by
      rw [nearestInt_of_lt (by rw [hfract]; simp at hlt; linarith), hfloor]
    rw [hdown]
    cases sticky <;> rfl
  | true =>
    cases sticky with
    | true =>
      have hne : q ≠ m + 1 / 2 := fun hq => Bool.noConfusion (hsticky.mpr (by simpa using hq))
      have hgt : m + 1 / 2 < q := lt_of_le_of_ne (by simpa using hle) hne.symm
      rw [nearestInt_of_gt (by rw [hfract]; linarith), hfloor]
      rfl
    | false =>
      have hhalf : Int.fract q = 1 / 2 := by
        rw [hfract, hsticky.mp rfl]
        simp
      unfold nearestInt
      rw [hhalf, if_neg (lt_irrefl _), if_neg (lt_irrefl _), hfloor]
      show ((m + m % 2 : ℕ) : ℤ) = if (m : ℤ) % 2 = 0 then (m : ℤ) else m + 1
      split <;> omega

end Represents

theorem represents_exact (m : ℕ) : Represents (.ofMantissaAndAccuracy m .exact) m := by
  have hlead : leading (.ofMantissaAndAccuracy m .exact) = m := by
    simp [leading, ExtendedMantissa.ofMantissaAndAccuracy]
  exact ⟨hlead.le, by rw [hlead]; linarith, iff_of_true rfl hlead.symm⟩

/-- The accuracy of a division tells the remainder from nothing and from a half. -/
theorem represents_quotient (m d : ℕ) (hd : 0 < d) :
    Represents (.ofMantissaAndAccuracy (m / d) (accuracyOfFraction (m % d) d)) (m / d) := by
  have hpos : (0 : ℚ) < d := Nat.cast_pos.mpr hd
  have hsplit : (m / d : ℚ) = ((m / d : ℕ) : ℚ) + ((m % d : ℕ) : ℚ) / d := by
    rw [div_eq_iff hpos.ne', add_mul, div_mul_cancel₀ _ hpos.ne']
    exact_mod_cast (Nat.div_add_mod' m d).symm
  have hrem : ((m % d : ℕ) : ℚ) / d < 1 := by
    rw [div_lt_one hpos]
    exact_mod_cast Nat.mod_lt m hd
  rw [hsplit]
  unfold accuracyOfFraction
  by_cases hzero : m % d = 0
  · rw [if_pos hzero, hzero, Nat.cast_zero, zero_div, add_zero]
    exact represents_exact _
  have hremPos : 0 < ((m % d : ℕ) : ℚ) / d :=
    div_pos (Nat.cast_pos.mpr (Nat.pos_of_ne_zero hzero)) hpos
  rw [if_neg hzero]
  rcases lt_trichotomy (2 * (m % d)) d with h | h | h
  · have hhalf : ((m % d : ℕ) : ℚ) / d < 1 / 2 := by
      rw [div_lt_div_iff₀ hpos two_pos, one_mul, mul_comm]
      exact_mod_cast h
    rw [compare_lt_iff_lt.mpr h]
    have hlead : leading (.ofMantissaAndAccuracy (m / d) (.inexact .lt)) = ((m / d : ℕ) : ℚ) := by
      simp [leading, ExtendedMantissa.ofMantissaAndAccuracy]
    exact ⟨by linarith, by linarith, iff_of_false Bool.noConfusion (by linarith)⟩
  · have hhalf : ((m % d : ℕ) : ℚ) / d = 1 / 2 := by
      rw [div_eq_div_iff hpos.ne' two_ne_zero, one_mul, mul_comm]
      exact_mod_cast h
    rw [compare_eq_iff_eq.mpr h]
    have hlead : leading (.ofMantissaAndAccuracy (m / d) (.inexact .eq))
        = ((m / d : ℕ) : ℚ) + 1 / 2 := by
      simp [leading, ExtendedMantissa.ofMantissaAndAccuracy]
    exact ⟨by linarith, by linarith, iff_of_true rfl (by linarith)⟩
  · have hhalf : 1 / 2 < ((m % d : ℕ) : ℚ) / d := by
      rw [div_lt_div_iff₀ two_pos hpos, one_mul, mul_comm]
      exact_mod_cast h
    rw [compare_gt_iff_gt.mpr h]
    have hlead : leading (.ofMantissaAndAccuracy (m / d) (.inexact .gt))
        = ((m / d : ℕ) : ℚ) + 1 / 2 := by
      simp [leading, ExtendedMantissa.ofMantissaAndAccuracy]
    exact ⟨by linarith, by linarith, iff_of_false Bool.noConfusion (by linarith)⟩

/-! ## Target exponents -/

theorem targetExponent_eq (m : ℕ) (e : ℤ) :
    Format.binary64.targetExponent (totalExponent m e) = max ((m.log2 : ℤ) + e - 52) (-1074) := by
  show max ((m.log2 : ℤ) + 1 + e - 53) (-1074) = _
  congr 1
  ring

/-- The exponent that a result is shifted to is the one of its last place. -/
theorem targetExponent_eq_lastPlace {m : ℕ} {acc : Accuracy} {q : ℚ} {e : ℤ}
    (h : Represents (.ofMantissaAndAccuracy m acc) q) (hq : 0 < q)
    (he : e ≤ lastPlace (q * 2 ^ e)) :
    Format.binary64.targetExponent (totalExponent m e) = lastPlace (q * 2 ^ e) := by
  have hfloor : ⌊q⌋ = m := by
    rw [h.floor_eq]
    cases acc with
    | exact => rfl
    | inexact o => cases o <;> rfl
  obtain ⟨hlow, hhigh⟩ := Int.floor_eq_iff.mp hfloor
  rw [Int.cast_natCast] at hlow hhigh
  rw [targetExponent_eq]
  rcases Nat.eq_zero_or_pos m with rfl | hm
  · -- a result below one unit needs the lowest place
    have hlt : q * 2 ^ e < 2 ^ e := by
      rw [Nat.cast_zero, zero_add] at hhigh
      exact mul_lt_of_lt_one_left (zpow_two_pos e) hhigh
    have hlog := (Int.lt_zpow_iff_log_lt (b := 2) (by decide)
      (mul_pos hq (zpow_two_pos e))).mp hlt
    unfold lastPlace at he ⊢
    rw [show Nat.log2 0 = 0 from rfl]
    omega
  · unfold lastPlace
    rw [log_two_mul_zpow hm hlow hhigh]

theorem shiftToTargetExponent_eq (m : ℕ) (e : ℤ) (acc : Accuracy) {k : ℕ}
    (hk : (Format.binary64.targetExponent (totalExponent m e) - e).toNat = k) :
    shiftToTargetExponent .binary64 m e acc
      = (ExtendedMantissa.ofMantissaAndAccuracy m acc >>> k, e + k) := by
  subst hk
  rfl

/-- A rounded mantissa is in place, or one bit too long and then a power of two. -/
theorem shiftToTargetExponent_rounded {m : ℕ} {e : ℤ} (hm : m ≤ 2 ^ 53) (hlow : -1074 ≤ e)
    (hfull : 2 ^ 52 ≤ m ∨ e = -1074) :
    Canonical (shiftToTargetExponent .binary64 m e .exact).1.mantissa
        (shiftToTargetExponent .binary64 m e .exact).2 ∧
      ((shiftToTargetExponent .binary64 m e .exact).1.mantissa : ℚ)
        * 2 ^ (shiftToTargetExponent .binary64 m e .exact).2 = m * 2 ^ e := by
  rcases hm.lt_or_eq with hlt | rfl
  · have hlog : m.log2 ≤ 52 := by
      rcases Nat.eq_zero_or_pos m with rfl | hpos
      · decide
      · exact Nat.lt_succ_iff.mp ((Nat.log2_lt hpos.ne').mpr hlt)
    have hk : (Format.binary64.targetExponent (totalExponent m e) - e).toNat = 0 := by
      rw [targetExponent_eq]
      omega
    rw [shiftToTargetExponent_eq m e .exact hk]
    show Canonical m (e + (0 : ℕ)) ∧ (m : ℚ) * 2 ^ (e + (0 : ℕ)) = m * 2 ^ e
    rw [Nat.cast_zero, add_zero]
    exact ⟨⟨hlt, hlow, hfull⟩, rfl⟩
  · have hk : (Format.binary64.targetExponent (totalExponent (2 ^ 53) e) - e).toNat = 1 := by
      rw [targetExponent_eq, Nat.log2_two_pow]
      omega
    rw [shiftToTargetExponent_eq _ e .exact hk]
    show Canonical (2 ^ 53 / 2) (e + (1 : ℕ)) ∧ ((2 ^ 53 / 2 : ℕ) : ℚ) * 2 ^ (e + (1 : ℕ)) = _
    refine ⟨⟨by decide, by omega, .inl (by decide)⟩, ?_⟩
    rw [Nat.cast_one, zpow_add_one₀ (by norm_num)]
    norm_num
    ring

/-! ## Rounding -/

/-- An unpacked result is in place and stands for the number nearest to the exact one. -/
structure IsNearest (u : UnpackedFloat) (q : ℚ) : Prop where
  number : u ≠ .notANumber
  inPlace : InPlace u
  value : unpackedValue u = nearest q

theorem nearest_withSign (s : Sign) (q : ℚ) : nearest (withSign s q) = withSign s (nearest q) := by
  cases s with
  | negative => exact nearest_neg q
  | positive => rfl

@[simp] theorem withSign_zero (s : Sign) : withSign s 0 = 0 := by
  cases s with
  | negative => exact neg_zero
  | positive => rfl

theorem isNearest_zero (s : Sign) : IsNearest (.zero s) 0 :=
  ⟨nofun, trivial, nearest_zero.symm⟩

theorem isNearest_finite (s : Sign) {m : ℕ} {e : ℤ} (hm : 0 < m) (h : Canonical m e) {q : ℚ}
    (hq : (m : ℚ) * 2 ^ e = nearest q) : IsNearest (.finite s m e hm) (withSign s q) := by
  refine ⟨nofun, h, ?_⟩
  rw [nearest_withSign, ← hq]
  rfl

/-- A result that is no coarser than its last place is rounded to the nearest. -/
theorem isNearest_roundWithAccuracy (s : Sign) {m : ℕ} {e : ℤ} {acc : Accuracy} {q : ℚ}
    (h : Represents (.ofMantissaAndAccuracy m acc) q) (hq : 0 < q)
    (he : e ≤ lastPlace (q * 2 ^ e)) :
    IsNearest (roundWithAccuracy .binary64 s m e acc) (withSign s (q * 2 ^ e)) := by
  obtain ⟨k, hk⟩ : ∃ k : ℕ, lastPlace (q * 2 ^ e) = e + k :=
    ⟨(lastPlace (q * 2 ^ e) - e).toNat, by omega⟩
  have htarget := targetExponent_eq_lastPlace h hq he
  have hfirst := shiftToTargetExponent_eq m e acc (k := k) (by rw [htarget]; omega)
  have hx : 0 < q * 2 ^ e := mul_pos hq (zpow_two_pos e)
  -- in units of the last place the exact result is shifted by `k`
  have hunits : q / 2 ^ k = q * 2 ^ e / 2 ^ lastPlace (q * 2 ^ e) := by
    rw [hk, zpow_add₀ (by norm_num), zpow_natCast, mul_comm q,
      mul_div_mul_left _ _ (zpow_two_pos e).ne']
  have hround : ((ExtendedMantissa.ofMantissaAndAccuracy m acc >>> k).roundedMantissa : ℤ)
      = nearestMantissa (q * 2 ^ e) := by
    rw [(h.shiftRight k).roundedMantissa_eq, hunits]
    rfl
  generalize hM : (ExtendedMantissa.ofMantissaAndAccuracy m acc >>> k).roundedMantissa = M at hround
  have hle := nearestMantissa_le (q * 2 ^ e)
  have hfull : 2 ^ 52 ≤ M ∨ lastPlace (q * 2 ^ e) = -1074 := by
    by_cases hlast : lastPlace (q * 2 ^ e) = -1074
    · exact .inr hlast
    · have hge := le_nearestMantissa hx hlast
      exact .inl (by omega)
  obtain ⟨hcanonical, hvalue⟩ :=
    shiftToTargetExponent_rounded (m := M) (by omega) (lowest_le_lastPlace _) hfull
  have hnearest : (M : ℚ) * 2 ^ lastPlace (q * 2 ^ e) = nearest (q * 2 ^ e) := by
    rw [nearest_of_nonneg hx.le]
    unfold nearestMagnitude
    rw [← hround, Int.cast_natCast]
  rw [hnearest] at hvalue
  unfold roundWithAccuracy
  rw [hfirst]
  dsimp only
  rw [hM, ← hk]
  generalize shiftToTargetExponent .binary64 M _ .exact = shifted at hvalue hcanonical
  by_cases hzero : shifted.1.mantissa = 0
  · rw [dif_pos hzero]
    refine ⟨nofun, trivial, ?_⟩
    rw [hzero, Nat.cast_zero, zero_mul] at hvalue
    rw [nearest_withSign, ← hvalue]
    exact (withSign_zero s).symm
  · rw [dif_neg hzero]
    exact isNearest_finite s _ hcanonical hvalue

/-- So is one whose exponent is decreased first, where it is too coarse. -/
theorem isNearest_round (s : Sign) {m : ℕ} (hm : 0 < m) (e : ℤ) :
    IsNearest (UnpackedFloat.round .binary64 s m e) (withSign s (m * 2 ^ e)) := by
  have hlast : Format.binary64.targetExponent (totalExponent m e) = lastPlace (m * 2 ^ e) := by
    rw [targetExponent_eq]
    unfold lastPlace
    rw [log_two_mul_zpow hm le_rfl (lt_add_one _)]
  unfold UnpackedFloat.round decreaseExponent
  dsimp only
  rw [hlast]
  generalize hk : (e - lastPlace ((m : ℚ) * 2 ^ e)).toNat = k
  have hsame : ((m <<< k : ℕ) : ℚ) * 2 ^ (e - k) = m * 2 ^ e := by
    rw [Nat.shiftLeft_eq, Nat.cast_mul, Nat.cast_pow, Nat.cast_ofNat, zpow_sub₀ (by norm_num),
      zpow_natCast, mul_assoc, mul_div_cancel₀ _ (by positivity)]
  have hpos : 0 < m <<< k := by
    rw [Nat.shiftLeft_eq]
    positivity
  rw [← hsame]
  refine isNearest_roundWithAccuracy s (represents_exact _) (Nat.cast_pos.mpr hpos) ?_
  rw [hsame]
  omega

/-- A signed mantissa is rounded by its magnitude. -/
theorem isNearest_normalize (m : ℤ) (e : ℤ) (s : Sign) :
    IsNearest (UnpackedFloat.normalize .binary64 m e s) (m * 2 ^ e) := by
  unfold UnpackedFloat.normalize
  rcases lt_trichotomy m 0 with h | rfl | h
  · rw [Int.compare_eq_lt.mpr h]
    have hround := isNearest_round .negative (m := (-m).toNat) (by omega) e
    have hcast : (((-m).toNat : ℕ) : ℚ) = -m := by
      rw [← Int.cast_natCast, Int.toNat_of_nonneg (by omega), Int.cast_neg]
    rw [hcast] at hround
    simpa [withSign] using hround
  · rw [Int.cast_zero, zero_mul]
    exact isNearest_zero s
  · rw [Int.compare_eq_gt.mpr h]
    have hround := isNearest_round .positive (m := m.toNat) (by omega) e
    have hcast : ((m.toNat : ℕ) : ℚ) = m := by
      rw [← Int.cast_natCast, Int.toNat_of_nonneg (by omega)]
    rw [hcast] at hround
    exact hround

end Placement.Double

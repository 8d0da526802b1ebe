import Mathlib.Data.Int.Log
import Mathlib.Data.Rat.Floor
import Mathlib.Tactic.Linarith
import Mathlib.Tactic.Positivity
import Mathlib.Tactic.Ring
import Placement.Decimal.Binary
/-
  Rounding of exact numbers, before any double. `nearestInt` takes the nearest integer. `nearest`
  takes the nearest number with 53 significant bits and none below `2^-1074`, with no bound above:
  every operation on doubles computes it of the exact result and then cuts off what is out of range.

  * `nearest_mono`: rounding keeps the order.
  * `nearest_neg`: and the sign.
  * `Canonical.nearest_eq`: what has 53 bits stays as it is.
-/
namespace Placement.Double

open Decimal (Tie)

/-! ## Integers -/

/-- The nearest integer; of two equally near ones the even or the upper one. -/
def nearestInt (tie : Tie) (q : ℚ) : ℤ :=
  if Int.fract q < 1 / 2 then ⌊q⌋
  else if 1 / 2 < Int.fract q then ⌊q⌋ + 1
  else match tie with
    | .up => ⌊q⌋ + 1
    | .toEven => if ⌊q⌋ % 2 = 0 then ⌊q⌋ else ⌊q⌋ + 1

theorem nearestInt_of_lt {tie : Tie} {q : ℚ} (h : Int.fract q < 1 / 2) :
    nearestInt tie q = ⌊q⌋ := if_pos h

theorem nearestInt_of_gt {tie : Tie} {q : ℚ} (h : 1 / 2 < Int.fract q) :
    nearestInt tie q = ⌊q⌋ + 1 := by
  unfold nearestInt
  rw [if_neg (not_lt.mpr h.le), if_pos h]

theorem nearestInt_eq_or (tie : Tie) (q : ℚ) :
    nearestInt tie q = ⌊q⌋ ∨ nearestInt tie q = ⌊q⌋ + 1 := by
  unfold nearestInt
  repeat' split
  all_goals simp

theorem floor_le_nearestInt (tie : Tie) (q : ℚ) : ⌊q⌋ ≤ nearestInt tie q := by
  rcases nearestInt_eq_or tie q with h | h <;> omega

theorem nearestInt_le_floor_add_one (tie : Tie) (q : ℚ) : nearestInt tie q ≤ ⌊q⌋ + 1 := by
  rcases nearestInt_eq_or tie q with h | h <;> omega

/-- Rounding to an integer keeps the order. -/
theorem nearestInt_mono (tie : Tie) {q r : ℚ} (h : q ≤ r) :
    nearestInt tie q ≤ nearestInt tie r := by
  rcases (Int.floor_le_floor h).lt_or_eq with hlt | heq
  · have hq := nearestInt_le_floor_add_one tie q
    have hr := floor_le_nearestInt tie r
    omega
  · -- within one unit the order is that of the fractions
    have hfract : Int.fract q ≤ Int.fract r := by
      rw [← Int.self_sub_floor, ← Int.self_sub_floor, heq]
      linarith
    unfold nearestInt
    rw [heq]
    by_cases h1 : Int.fract r < 1 / 2
    · rw [if_pos h1, if_pos (lt_of_le_of_lt hfract h1)]
    · rw [if_neg h1]
      by_cases h2 : 1 / 2 < Int.fract r
      · rw [if_pos h2]
        repeat' split
        all_goals omega
      · have h3 : ¬ 1 / 2 < Int.fract q := fun hc => h2 (lt_of_lt_of_le hc hfract)
        rw [if_neg h2, if_neg h3]
        repeat' split
        all_goals omega

@[simp] theorem nearestInt_intCast (tie : Tie) (n : ℤ) : nearestInt tie n = n := by
  rw [nearestInt_of_lt (by rw [Int.fract_intCast]; norm_num), Int.floor_intCast]

@[simp] theorem nearestInt_natCast (tie : Tie) (n : ℕ) : nearestInt tie n = n :=
  nearestInt_intCast tie n

@[simp] theorem nearestInt_zero (tie : Tie) : nearestInt tie 0 = 0 := nearestInt_natCast tie 0

theorem nearestInt_nonneg (tie : Tie) {q : ℚ} (h : 0 ≤ q) : 0 ≤ nearestInt tie q := by
  have hmono := nearestInt_mono tie h
  rwa [nearestInt_zero] at hmono

/-- Only what lies above a half is rounded up from zero, when ties go to the even integer. -/
theorem nearestInt_toEven_pos {q : ℚ} (h : 0 ≤ q) : 0 < nearestInt .toEven q ↔ 1 / 2 < q := by
  rcases lt_or_ge q 1 with hlt | hge
  · have hfloor : ⌊q⌋ = 0 := Int.floor_eq_zero_iff.mpr ⟨h, hlt⟩
    have hfract : Int.fract q = q := Int.fract_eq_self.mpr ⟨h, hlt⟩
    unfold nearestInt
    rw [hfract, hfloor]
    by_cases hq : 1 / 2 < q
    · rw [if_neg (not_lt.mpr hq.le), if_pos hq]
      exact iff_of_true (by decide) hq
    · rw [if_neg hq]
      refine iff_of_false ?_ hq
      split <;> decide
  · have hmono := nearestInt_mono .toEven (q := ((1 : ℕ) : ℚ)) (by simpa using hge)
    rw [nearestInt_natCast] at hmono
    exact iff_of_true (by omega) (by linarith)

/-- The quotient of natural numbers, rounded, is the integer nearest to their fraction. -/
theorem roundQuotient_eq (tie : Tie) (num den : ℕ) (hden : 0 < den) :
    (Decimal.roundQuotient tie num den : ℤ) = nearestInt tie (num / den) := by
  have hpos : (0 : ℚ) < den := Nat.cast_pos.mpr hden
  have hfloor : ⌊(num / den : ℚ)⌋ = ((num / den : ℕ) : ℤ) := Rat.floor_natCast_div_natCast num den
  have hfract : Int.fract (num / den : ℚ) = ((num % den : ℕ) : ℚ) / den := by
    have hsplit : ((num / den : ℕ) : ℚ) * den + ((num % den : ℕ) : ℚ) = num := by
      exact_mod_cast Nat.div_add_mod' num den
    rw [← Int.self_sub_floor, hfloor, Int.cast_natCast, eq_div_iff hpos.ne', sub_mul,
      div_mul_cancel₀ _ hpos.ne']
    linarith
  have hlt : ((num % den : ℕ) : ℚ) / den < 1 / 2 ↔ 2 * (num % den) < den := by
    rw [div_lt_div_iff₀ hpos two_pos, ← Nat.cast_lt (α := ℚ)]
    push_cast
    rw [one_mul, mul_comm]
  have hgt : 1 / 2 < ((num % den : ℕ) : ℚ) / den ↔ den < 2 * (num % den) := by
    rw [div_lt_div_iff₀ two_pos hpos, ← Nat.cast_lt (α := ℚ)]
    push_cast
    rw [one_mul, mul_comm]
  simp only [Decimal.roundQuotient, nearestInt, hfract, hfloor, hlt, hgt]
  have heven : ((num / den : ℕ) : ℤ) % 2 = 0 ↔ num / den % 2 = 0 := by omega
  cases tie
  all_goals
    simp only [heven]
    repeat' split
    all_goals simp

/-! ## Numbers with 53 bits -/

/-- The exponent of the last place of a positive number. -/
def lastPlace (q : ℚ) : ℤ := max (Int.log 2 q - 52) (-1074)

theorem lowest_le_lastPlace (q : ℚ) : -1074 ≤ lastPlace q := le_max_right _ _

theorem lastPlace_mono {q r : ℚ} (hq : 0 < q) (h : q ≤ r) : lastPlace q ≤ lastPlace r :=
  max_le_max (Int.sub_le_sub_right (Int.log_mono_right hq h) 52) le_rfl

/-- A number in units of its last place has at most 53 bits. -/
theorem lt_lastPlace (q : ℚ) : q < 2 ^ 53 * 2 ^ lastPlace q := by
  have h := Int.lt_zpow_succ_log_self (b := 2) (by decide) q
  have hle : Int.log 2 q + 1 ≤ 53 + lastPlace q := by
    unfold lastPlace
    omega
  calc q < 2 ^ (Int.log 2 q + 1) := h
    _ ≤ 2 ^ (53 + lastPlace q) := zpow_le_zpow_right₀ (by norm_num) hle
    _ = 2 ^ 53 * 2 ^ lastPlace q := by
      rw [zpow_add₀ (by norm_num)]
      rfl

/-- And exactly 53, unless the place is the lowest one. -/
theorem lastPlace_le {q : ℚ} (hq : 0 < q) (h : lastPlace q ≠ -1074) :
    2 ^ 52 * 2 ^ lastPlace q ≤ q := by
  have hlog : 52 + lastPlace q = Int.log 2 q := by
    unfold lastPlace at h ⊢
    omega
  calc (2 : ℚ) ^ 52 * 2 ^ lastPlace q = 2 ^ (52 + lastPlace q) := by
        rw [zpow_add₀ (by norm_num)]
        rfl
    _ = 2 ^ Int.log 2 q := by rw [hlog]
    _ ≤ q := Int.zpow_log_le_self (by decide) hq

/-- The mantissa that a positive number is rounded to. -/
def nearestMantissa (q : ℚ) : ℤ := nearestInt .toEven (q / 2 ^ lastPlace q)

/-- The nearest number with 53 bits to one that is not negative. -/
def nearestMagnitude (q : ℚ) : ℚ := nearestMantissa q * 2 ^ lastPlace q

/-- The nearest number with 53 bits. -/
def nearest (q : ℚ) : ℚ := if 0 ≤ q then nearestMagnitude q else -nearestMagnitude (-q)

theorem zpow_two_pos (e : ℤ) : (0 : ℚ) < 2 ^ e := zpow_pos two_pos e

theorem nearestMantissa_nonneg {q : ℚ} (h : 0 ≤ q) : 0 ≤ nearestMantissa q :=
  nearestInt_nonneg .toEven (div_nonneg h (zpow_two_pos _).le)

theorem nearestMantissa_le (q : ℚ) : nearestMantissa q ≤ 2 ^ 53 := by
  have hle : q / 2 ^ lastPlace q ≤ ((2 ^ 53 : ℕ) : ℚ) := by
    rw [div_le_iff₀ (zpow_two_pos _)]
    exact_mod_cast (lt_lastPlace q).le
  have hmono := nearestInt_mono .toEven hle
  rw [nearestInt_natCast] at hmono
  exact_mod_cast hmono

theorem le_nearestMantissa {q : ℚ} (hq : 0 < q) (h : lastPlace q ≠ -1074) :
    2 ^ 52 ≤ nearestMantissa q := by
  have hle : ((2 ^ 52 : ℕ) : ℚ) ≤ q / 2 ^ lastPlace q := by
    rw [le_div_iff₀ (zpow_two_pos _)]
    exact_mod_cast lastPlace_le hq h
  have hmono := nearestInt_mono .toEven hle
  rw [nearestInt_natCast] at hmono
  exact_mod_cast hmono

@[simp] theorem nearestMagnitude_zero : nearestMagnitude 0 = 0 := by
  simp [nearestMagnitude, nearestMantissa]

theorem nearestMagnitude_nonneg {q : ℚ} (h : 0 ≤ q) : 0 ≤ nearestMagnitude q :=
  mul_nonneg (Int.cast_nonneg (nearestMantissa_nonneg h)) (zpow_two_pos _).le

theorem nearestMagnitude_mono {q r : ℚ} (hq : 0 ≤ q) (h : q ≤ r) :
    nearestMagnitude q ≤ nearestMagnitude r := by
  rcases hq.lt_or_eq with hpos | rfl
  · rcases (lastPlace_mono hpos h).lt_or_eq with hlt | heq
    · -- a power of two separates the two
      have hr : lastPlace r ≠ -1074 := by
        have hlow := lowest_le_lastPlace q
        omega
      have hstep : (2 : ℚ) ^ 53 * 2 ^ lastPlace q ≤ 2 ^ 52 * 2 ^ lastPlace r := by
        have hpow : (2 : ℚ) ^ (lastPlace q + 1) ≤ 2 ^ lastPlace r :=
          zpow_le_zpow_right₀ (by norm_num) hlt
        rw [zpow_add_one₀ (by norm_num)] at hpow
        linarith
      have hleft : (nearestMantissa q : ℚ) ≤ 2 ^ 53 := by exact_mod_cast nearestMantissa_le q
      have hright : (2 : ℚ) ^ 52 ≤ nearestMantissa r := by
        exact_mod_cast le_nearestMantissa (lt_of_lt_of_le hpos h) hr
      calc nearestMagnitude q ≤ 2 ^ 53 * 2 ^ lastPlace q :=
            mul_le_mul_of_nonneg_right hleft (zpow_two_pos _).le
        _ ≤ 2 ^ 52 * 2 ^ lastPlace r := hstep
        _ ≤ nearestMagnitude r := mul_le_mul_of_nonneg_right hright (zpow_two_pos _).le
    · unfold nearestMagnitude nearestMantissa
      rw [heq]
      refine mul_le_mul_of_nonneg_right (Int.cast_le.mpr ?_) (zpow_two_pos _).le
      exact nearestInt_mono .toEven (div_le_div_of_nonneg_right h (zpow_two_pos _).le)
  · rw [nearestMagnitude_zero]
    exact nearestMagnitude_nonneg h

theorem nearest_of_nonneg {q : ℚ} (h : 0 ≤ q) : nearest q = nearestMagnitude q := if_pos h

@[simp] theorem nearest_zero : nearest 0 = 0 := by
  rw [nearest_of_nonneg le_rfl, nearestMagnitude_zero]

/-- Rounding goes by magnitude. -/
theorem nearest_neg (q : ℚ) : nearest (-q) = -nearest q := by
  rcases lt_trichotomy q 0 with h | rfl | h
  · unfold nearest
    rw [if_pos (by linarith), if_neg (not_le.mpr h), neg_neg]
  · simp
  · unfold nearest
    rw [if_neg (by linarith), if_pos h.le, neg_neg]

theorem nearest_nonneg {q : ℚ} (h : 0 ≤ q) : 0 ≤ nearest q := by
  rw [nearest_of_nonneg h]
  exact nearestMagnitude_nonneg h

/-- Rounding keeps the order. -/
theorem nearest_mono {q r : ℚ} (h : q ≤ r) : nearest q ≤ nearest r := by
  rcases le_or_gt 0 q with hq | hq
  · rw [nearest_of_nonneg hq, nearest_of_nonneg (hq.trans h)]
    exact nearestMagnitude_mono hq h
  · have hneg : nearest q = -nearestMagnitude (-q) := if_neg (not_le.mpr hq)
    rcases le_or_gt 0 r with hr | hr
    · have hleft := nearestMagnitude_nonneg (q := -q) (by linarith)
      have hright := nearest_nonneg hr
      linarith
    · have hneg' : nearest r = -nearestMagnitude (-r) := if_neg (not_le.mpr hr)
      have hmono := nearestMagnitude_mono (q := -r) (by linarith) (neg_le_neg h)
      linarith

/-! ## Mantissas and exponents -/

/-- A mantissa and an exponent that a double may have, when the exponent is not too large. -/
structure Canonical (m : ℕ) (e : ℤ) : Prop where
  lt : m < 2 ^ 53
  lowest_le : -1074 ≤ e
  full : 2 ^ 52 ≤ m ∨ e = -1074

theorem log_two_eq {q : ℚ} {k : ℤ} (hlow : 2 ^ k ≤ q) (hhigh : q < 2 ^ (k + 1)) :
    Int.log 2 q = k := by
  have hpos : 0 < q := lt_of_lt_of_le (zpow_two_pos k) hlow
  have h1 := (Int.zpow_le_iff_le_log (b := 2) (by decide) hpos).mp hlow
  have h2 := (Int.lt_zpow_iff_log_lt (b := 2) (by decide) hpos).mp hhigh
  omega

/-- Below the point only the leading bit of the integral part counts. -/
theorem log_two_mul_zpow {q : ℚ} {m : ℕ} (hm : 0 < m) (hlow : m ≤ q) (hhigh : q < m + 1) (e : ℤ) :
    Int.log 2 (q * 2 ^ e) = m.log2 + e := by
  apply log_two_eq
  · rw [zpow_add₀ (by norm_num), zpow_natCast]
    refine mul_le_mul_of_nonneg_right (le_trans ?_ hlow) (zpow_two_pos e).le
    exact_mod_cast Nat.log2_self_le hm.ne'
  · rw [add_right_comm, zpow_add₀ (by norm_num)]
    refine mul_lt_mul_of_pos_right (lt_of_lt_of_le hhigh ?_) (zpow_two_pos e)
    exact_mod_cast Nat.lt_log2_self (n := m)

theorem Canonical.lastPlace_eq {m : ℕ} {e : ℤ} (h : Canonical m e) (hm : 0 < m) :
    lastPlace (m * 2 ^ e) = e := by
  have hlog : m.log2 < 53 := (Nat.log2_lt hm.ne').mpr h.lt
  have hlow := h.lowest_le
  unfold lastPlace
  rw [log_two_mul_zpow hm le_rfl (lt_add_one _)]
  rcases h.full with hfull | rfl
  · have h52 := (Nat.le_log2 hm.ne').mpr hfull
    omega
  · omega

/-- What has 53 bits stays as it is. -/
theorem Canonical.nearest_eq {m : ℕ} {e : ℤ} (h : Canonical m e) :
    nearest (m * 2 ^ e) = m * 2 ^ e := by
  rcases Nat.eq_zero_or_pos m with rfl | hm
  · simp
  · have hnonneg : (0 : ℚ) ≤ m * 2 ^ e := mul_nonneg (Nat.cast_nonneg m) (zpow_two_pos e).le
    rw [nearest_of_nonneg hnonneg]
    unfold nearestMagnitude nearestMantissa
    rw [h.lastPlace_eq hm, mul_div_cancel_right₀ _ (zpow_two_pos e).ne', nearestInt_natCast,
      Int.cast_natCast]

/-- A number of 53 bits stays as it is wherever its last bit stands, from `2^-1022` on. -/
theorem nearest_mul_two_zpow {n : ℕ} (h : n < 2 ^ 53) {e : ℤ} (he : -1022 ≤ e) :
    nearest (n * 2 ^ e) = n * 2 ^ e := by
  rcases Nat.eq_zero_or_pos n with rfl | hn
  · simp
  have hlog : n.log2 < 53 := (Nat.log2_lt hn.ne').mpr h
  have hcanonical : Canonical (n * 2 ^ (52 - n.log2)) (e - (52 - n.log2 : ℕ)) := by
    refine ⟨?_, by omega, .inl ?_⟩
    · calc n * 2 ^ (52 - n.log2) < 2 ^ (n.log2 + 1) * 2 ^ (52 - n.log2) :=
          Nat.mul_lt_mul_of_pos_right Nat.lt_log2_self (by positivity)
        _ = 2 ^ 53 := by rw [← pow_add]; congr 1; omega
    · calc 2 ^ 52 = 2 ^ n.log2 * 2 ^ (52 - n.log2) := by rw [← pow_add]; congr 1; omega
        _ ≤ n * 2 ^ (52 - n.log2) := Nat.mul_le_mul_right _ (Nat.log2_self_le hn.ne')
  have hsame : (n : ℚ) * 2 ^ e
      = ((n * 2 ^ (52 - n.log2) : ℕ) : ℚ) * 2 ^ (e - (52 - n.log2 : ℕ)) := by
    rw [Nat.cast_mul, Nat.cast_pow, Nat.cast_ofNat, mul_assoc, ← zpow_natCast,
      ← zpow_add₀ (by norm_num), add_sub_cancel]
  rw [hsame]
  exact hcanonical.nearest_eq

theorem nearest_two_zpow {k : ℤ} (h : -1022 ≤ k) : nearest (2 ^ k) = 2 ^ k := by
  have hone := nearest_mul_two_zpow (n := 1) (by decide) h
  rwa [Nat.cast_one, one_mul] at hone

/-- Natural numbers of 53 bits are not rounded. -/
theorem nearest_natCast {n : ℕ} (h : n < 2 ^ 53) : nearest n = n := by
  have hunit := nearest_mul_two_zpow h (e := 0) (by decide)
  rwa [zpow_zero, mul_one] at hunit

/-- A greater exponent makes a greater number. -/
theorem Canonical.lt_of_exponent_lt {m m' : ℕ} {e e' : ℤ} (h : Canonical m e)
    (h' : Canonical m' e') (hlt : e < e') : (m : ℚ) * 2 ^ e < m' * 2 ^ e' := by
  have hm : (m : ℚ) < 2 ^ 53 := by exact_mod_cast h.lt
  have hm' : (2 : ℚ) ^ 52 ≤ m' := by
    rcases h'.full with hfull | hlow
    · exact_mod_cast hfull
    · have hlow' := h.lowest_le
      omega
  have hpow : (2 : ℚ) ^ (e + 1) ≤ 2 ^ e' := zpow_le_zpow_right₀ (by norm_num) hlt
  rw [zpow_add_one₀ (by norm_num)] at hpow
  calc (m : ℚ) * 2 ^ e < 2 ^ 53 * 2 ^ e := mul_lt_mul_of_pos_right hm (zpow_two_pos e)
    _ = 2 ^ 52 * (2 ^ e * 2) := by ring
    _ ≤ 2 ^ 52 * 2 ^ e' := mul_le_mul_of_nonneg_left hpow (by positivity)
    _ ≤ m' * 2 ^ e' := mul_le_mul_of_nonneg_right hm' (zpow_two_pos e').le

end Placement.Double

import Placement.Proofs.Double.Level
/-
  What one rounding costs. `abs_rounded_sub_le`: between 0 and 1 the nearest double is within
  `2^-53`, so a product of levels loses at most that much (`IsLevel.le_value_mul`).
  `value_count_eq`: counts below `2^53` cost nothing.
-/
namespace Placement.Double

open Decimal (Tie)

/-- The nearest integer is at most a half away. -/
theorem abs_nearestInt_sub_le (tie : Tie) (q : ℚ) : |(nearestInt tie q : ℚ) - q| ≤ 1 / 2 := by
  have hfract := Int.self_sub_floor q
  have h0 := Int.fract_nonneg q
  rw [abs_le]
  unfold nearestInt
  split
  · constructor <;> linarith
  · have h1 := Int.fract_lt_one q
    split
    · push_cast
      constructor <;> linarith
    · have hhalf : Int.fract q = 1 / 2 := le_antisymm (not_lt.mp ‹_›) (not_lt.mp ‹_›)
      repeat' split
      all_goals
        push_cast
        constructor <;> linarith

theorem lastPlace_le_of_le_one {q : ℚ} (h0 : 0 < q) (h1 : q ≤ 1) : lastPlace q ≤ -52 := by
  have hlog := Int.log_mono_right (b := 2) h0 h1
  rw [Int.log_one_right] at hlog
  unfold lastPlace
  omega

/-- Between 0 and 1 rounding is off by at most half of the last place below 1. -/
theorem abs_rounded_sub_le {q : ℚ} (h0 : 0 ≤ q) (h1 : q ≤ 1) : |rounded q - q| ≤ 1 / 2 ^ 53 := by
  rcases h0.lt_or_eq with hpos | rfl
  · have hplace := zpow_two_pos (lastPlace q)
    have hle : (2 : ℚ) ^ lastPlace q ≤ 2 ^ (-52 : ℤ) :=
      zpow_le_zpow_right₀ (by norm_num) (lastPlace_le_of_le_one hpos h1)
    have hint := abs_nearestInt_sub_le .toEven (q / 2 ^ lastPlace q)
    have hnearest : nearest q - q
        = (nearestInt .toEven (q / 2 ^ lastPlace q) - q / 2 ^ lastPlace q) * 2 ^ lastPlace q := by
      rw [nearest_of_nonneg h0, sub_mul, div_mul_cancel₀ _ hplace.ne']
      rfl
    have hrounded : rounded q = nearest q := by
      refine bounded_of_abs_le ?_
      rw [abs_of_nonneg (nearest_nonneg h0)]
      have hone : nearest ((1 : ℕ) : ℚ) = (1 : ℕ) := nearest_natCast (by decide)
      have hmono := nearest_mono (h1.trans_eq Nat.cast_one.symm)
      rw [hone] at hmono
      exact hmono.trans (natCast_lt_limit (by decide)).le
    rw [hrounded, hnearest, abs_mul, abs_of_pos hplace]
    calc |(nearestInt .toEven (q / 2 ^ lastPlace q) : ℚ) - q / 2 ^ lastPlace q| * 2 ^ lastPlace q
        ≤ 1 / 2 * 2 ^ (-52 : ℤ) := mul_le_mul hint hle hplace.le (by norm_num)
      _ = 1 / 2 ^ 53 := by norm_num
  · rw [rounded_zero, sub_zero, abs_zero]
    positivity

theorem le_rounded_add {q : ℚ} (h0 : 0 ≤ q) (h1 : q ≤ 1) : q ≤ rounded q + 1 / 2 ^ 53 := by
  have h := (abs_le.mp (abs_rounded_sub_le h0 h1)).1
  linarith

theorem rounded_le_add {q : ℚ} (h0 : 0 ≤ q) (h1 : q ≤ 1) : rounded q ≤ q + 1 / 2 ^ 53 := by
  have h := (abs_le.mp (abs_rounded_sub_le h0 h1)).2
  linarith

/-- Counts below `2^53` are exact. -/
theorem value_count_eq {n : UInt64} (h : n.toNat < 2 ^ 53) : value n.toFloat = n.toNat := by
  have hexact := denotes_natCast h
  rw [show n.toNat.toUInt64 = n from UInt64.ofNat_toNat] at hexact
  exact hexact.value

/-- A product of levels loses what its factors have lost, and one rounding. -/
theorem IsLevel.le_value_mul {x y : Float} (hx : IsLevel x) (hy : IsLevel y) {a b k l : ℚ}
    (ha : a ≤ value x + k) (hb : b ≤ value y + l) (hb0 : 0 ≤ b) (hb1 : b ≤ 1) (hk : 0 ≤ k)
    (hl : 0 ≤ l) : a * b ≤ value (x * y) + (k + l + 1 / 2 ^ 53) := by
  have hx0 := hx.value_nonneg
  have hround := le_rounded_add (mul_nonneg hx0 hy.value_nonneg)
    (mul_le_one₀ hx.value_le_one hy.value_nonneg hy.value_le_one)
  rw [(hx.denotes_mul hy).value]
  calc a * b ≤ (value x + k) * b := mul_le_mul_of_nonneg_right ha hb0
    _ = value x * b + k * b := add_mul _ _ _
    _ ≤ value x * (value y + l) + k :=
      add_le_add (mul_le_mul_of_nonneg_left hb hx0) (mul_le_of_le_one_right hk hb1)
    _ = value x * value y + value x * l + k := by rw [mul_add]
    _ ≤ value x * value y + l + k := by
      have hloss := mul_le_of_le_one_left hl hx.value_le_one
      linarith
    _ ≤ rounded (value x * value y) + (k + l + 1 / 2 ^ 53) := by linarith

end Placement.Double

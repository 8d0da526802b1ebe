import Mathlib.Data.Nat.Cast.Order.Field
import Placement.Proofs.Double.Scientific
/-
  Shortest decimals. `exists_hit`: the search ends with a hit for every mantissa within 53 bits that
  is not zero. A double is at most half of its last place away from every decimal of its interval,
  and the step of the last grid that is searched is less than a quarter of that place, so the point
  of that grid next to the double lies in the interval. `shortest_spec` gives what callers use: the
  digits of a hit are at most `10^18`, and it is within half of the last place.
-/
namespace Placement.Decimal

/-! ## Leading exponents -/

section Leading

variable {num den : ℕ} (hnum : 0 < num) (hden : 0 < den)
include hnum hden

/-- A quotient rounded up. -/
theorem ceil_quotient : den ≤ num * ((den + num - 1) / num) ∧
    num * ((den + num - 1) / num - 1) < den := by
  have hsplit := Nat.div_add_mod (den + num - 1) num
  have hrest := Nat.mod_lt (den + num - 1) hnum
  rw [Nat.mul_sub_one]
  omega

/-- The leading digit of a number stands at its exponent. -/
theorem ten_zpow_leadingExponent_le : (10 : ℚ) ^ leadingExponent num den ≤ num / den := by
  have hden' : (0 : ℚ) < den := Nat.cast_pos.mpr hden
  have hnum' : (0 : ℚ) < num := Nat.cast_pos.mpr hnum
  unfold leadingExponent
  split_ifs with h
  · have hpos : 0 < num / den := Nat.div_pos h hden
    have hcount : (10 : ℚ) ^ (digitCount (num / den) : ℤ) ≤ 10 * (num / den : ℕ) := by
      exact_mod_cast ten_pow_digitCount_le hpos
    have hfloor : ((num / den : ℕ) : ℚ) ≤ num / den := Nat.cast_div_le
    rw [zpow_sub_one₀ (by norm_num)]
    linarith
  · obtain ⟨hceil, -⟩ := ceil_quotient hnum hden
    have hcount := lt_ten_pow_digitCount ((den + num - 1) / num - 1)
    have hle : den ≤ num * 10 ^ digitCount ((den + num - 1) / num - 1) :=
      hceil.trans (Nat.mul_le_mul_left num (by omega))
    have hle' : (den : ℚ) ≤ num * 10 ^ digitCount ((den + num - 1) / num - 1) := by
      exact_mod_cast hle
    rw [zpow_neg, zpow_natCast, inv_le_comm₀ (by positivity) (div_pos hnum' hden'), inv_div,
      div_le_iff₀ hnum']
    linarith

theorem lt_ten_zpow_leadingExponent :
    (num / den : ℚ) < 10 ^ (leadingExponent num den + 1) := by
  have hden' : (0 : ℚ) < den := Nat.cast_pos.mpr hden
  have hnum' : (0 : ℚ) < num := Nat.cast_pos.mpr hnum
  unfold leadingExponent
  split_ifs with h
  · have hcount := lt_ten_pow_digitCount (num / den)
    have hlt : num < den * 10 ^ digitCount (num / den) :=
      (Nat.lt_mul_div_succ num hden).trans_le (Nat.mul_le_mul_left den hcount)
    have hlt' : (num : ℚ) < den * 10 ^ digitCount (num / den) := by exact_mod_cast hlt
    rw [sub_add_cancel, zpow_natCast, div_lt_iff₀ hden']
    linarith
  · obtain ⟨hle, hceil⟩ := ceil_quotient hnum hden
    have hpos : 0 < (den + num - 1) / num - 1 := by
      by_contra hzero
      have hone : (den + num - 1) / num ≤ 1 := by omega
      exact h (hle.trans ((Nat.mul_le_mul_left num hone).trans_eq (Nat.mul_one num)))
    have hcount := ten_pow_digitCount_le hpos
    generalize (den + num - 1) / num - 1 = below at hceil hcount
    have hlt : num * 10 ^ digitCount below < 10 * den := calc
      num * 10 ^ digitCount below ≤ num * (10 * below) := Nat.mul_le_mul_left num hcount
      _ = 10 * (num * below) := Nat.mul_left_comm ..
      _ < 10 * den := Nat.mul_lt_mul_of_pos_left hceil (by decide)
    have hlt' : (num : ℚ) * 10 ^ digitCount below < 10 * den := by exact_mod_cast hlt
    rw [zpow_add_one₀ (by norm_num), zpow_neg, zpow_natCast, div_lt_iff₀ hden', mul_assoc,
      inv_mul_eq_div, lt_div_iff₀ (by positivity)]
    exact hlt'

end Leading

/-! ## Grids -/

/-- A power of a base as a fraction: either part is a natural number. -/
theorem power_eq_fraction {b : ℕ} (hb : 0 < b) {k : ℤ} {p : ℕ × ℕ}
    (hp : p = if 0 ≤ k then (1 * Nat.pow b k.toNat, 1) else (1, Nat.pow b (-k).toNat)) :
    (p.1 : ℚ) = b ^ k * p.2 := by
  have hb' : (0 : ℚ) < b := Nat.cast_pos.mpr hb
  subst hp
  split_ifs with h
  · obtain ⟨n, rfl⟩ := Int.eq_ofNat_of_zero_le h
    show ((1 * b ^ n : ℕ) : ℚ) = (b : ℚ) ^ (n : ℤ) * (1 : ℕ)
    push_cast
    rw [zpow_natCast, one_mul, mul_one]
  · obtain ⟨n, hn⟩ := Int.eq_ofNat_of_zero_le (show 0 ≤ -k by omega)
    obtain rfl : k = -n := by omega
    rw [neg_neg, Int.toNat_natCast]
    show ((1 : ℕ) : ℚ) = (b : ℚ) ^ (-n : ℤ) * ((b ^ n : ℕ) : ℚ)
    push_cast
    rw [zpow_neg, zpow_natCast, inv_mul_cancel₀ (by positivity)]

theorem gridPoint_snd_pos (d : ℕ) (k : ℤ) : 0 < (gridPoint d k).2 := by
  unfold gridPoint
  split_ifs
  · exact Nat.one_pos
  · exact Nat.pow_pos (by decide)

/-- A grid point is that many units. -/
theorem gridPoint_eq (d : ℕ) (k : ℤ) :
    gridPoint d k = (d * (gridPoint 1 k).1, (gridPoint 1 k).2) := by
  unfold gridPoint
  split_ifs
  · rw [Nat.one_mul]
  · rw [Nat.mul_one]

/-- The unit of a grid is a power of ten. -/
theorem gridPoint_one (k : ℤ) : ((gridPoint 1 k).1 : ℚ) = 10 ^ k * (gridPoint 1 k).2 :=
  power_eq_fraction (b := 10) (by decide) rfl

theorem unit_pos (k : ℤ) : (0 : ℚ) < (gridPoint 1 k).2 := Nat.cast_pos.mpr (gridPoint_snd_pos 1 k)

/-- A grid point over a denominator, in the numbers that are compared. -/
theorem point_eq (d den : ℕ) (k : ℤ) :
    (d : ℚ) * (gridPoint 1 k).1 * den = d * 10 ^ k * den * (gridPoint 1 k).2 := by
  rw [gridPoint_one]
  ring

namespace Interval

variable {i : Interval} {tie : Tie} {k : ℤ}

/-- A grid point in an interval is between its ends. -/
theorem le_of_holds {d : ℕ} (h : i.holds (gridPoint d k).1 (gridPoint d k).2 = true) :
    (i.low : ℚ) ≤ d * 10 ^ k * i.den ∧ (d * 10 ^ k * i.den : ℚ) ≤ i.high := by
  rw [gridPoint_eq] at h
  have hends : i.low * (gridPoint 1 k).2 ≤ d * (gridPoint 1 k).1 * i.den ∧
      d * (gridPoint 1 k).1 * i.den ≤ i.high * (gridPoint 1 k).2 := by
    unfold holds at h
    split at h <;> simp only [Bool.and_eq_true, decide_eq_true_eq] at h <;> omega
  constructor
  · have hlow : (i.low : ℚ) * (gridPoint 1 k).2 ≤ d * (gridPoint 1 k).1 * i.den := by
      exact_mod_cast hends.1
    rw [point_eq] at hlow
    exact le_of_mul_le_mul_right hlow (unit_pos k)
  · have hhigh : (d : ℚ) * (gridPoint 1 k).1 * i.den ≤ i.high * (gridPoint 1 k).2 := by
      exact_mod_cast hends.2
    rw [point_eq] at hhigh
    exact le_of_mul_le_mul_right hhigh (unit_pos k)

/-- A grid point strictly between the ends of an interval is in it. -/
theorem holds_of_lt {d : ℕ} (hlow : (i.low : ℚ) < d * 10 ^ k * i.den)
    (hhigh : (d * 10 ^ k * i.den : ℚ) < i.high) :
    i.holds (gridPoint d k).1 (gridPoint d k).2 = true := by
  have hlow' : i.low * (gridPoint 1 k).2 < d * (gridPoint 1 k).1 * i.den := by
    have h := mul_lt_mul_of_pos_right hlow (unit_pos k)
    rw [← point_eq] at h
    exact_mod_cast h
  have hhigh' : d * (gridPoint 1 k).1 * i.den < i.high * (gridPoint 1 k).2 := by
    have h := mul_lt_mul_of_pos_right hhigh (unit_pos k)
    rw [← point_eq] at h
    exact_mod_cast h
  rw [gridPoint_eq]
  unfold holds
  split <;> simp only [Bool.and_eq_true, decide_eq_true_eq] <;> omega

/-- The last grid point up to the double itself. -/
def below (i : Interval) (k : ℤ) : ℕ :=
  i.value * (gridPoint 1 k).2 / (i.den * (gridPoint 1 k).1)

theorem below_le : (i.below k * 10 ^ k * i.den : ℚ) ≤ i.value := by
  have h : i.below k * (i.den * (gridPoint 1 k).1) ≤ i.value * (gridPoint 1 k).2 :=
    Nat.div_mul_le_self ..
  have h' : (i.below k : ℚ) * (i.den * (gridPoint 1 k).1) ≤ i.value * (gridPoint 1 k).2 := by
    exact_mod_cast h
  rw [gridPoint_one] at h'
  refine le_of_mul_le_mul_right ?_ (unit_pos k)
  linarith

theorem lt_below (hden : 0 < i.den) : (i.value : ℚ) < (i.below k + 1) * 10 ^ k * i.den := by
  have hten : (0 : ℚ) < (gridPoint 1 k).1 := by
    rw [gridPoint_one]
    exact mul_pos (zpow_pos (by norm_num) k) (unit_pos k)
  have h : i.value * (gridPoint 1 k).2 < i.den * (gridPoint 1 k).1 * (i.below k + 1) :=
    Nat.lt_mul_div_succ _ (Nat.mul_pos hden (Nat.cast_pos.mp hten))
  have h' : (i.value : ℚ) * (gridPoint 1 k).2 < i.den * (gridPoint 1 k).1 * (i.below k + 1) := by
    exact_mod_cast h
  rw [gridPoint_one] at h'
  refine lt_of_mul_lt_mul_right ?_ (unit_pos k).le
  linarith

/-- A hit is one of the two grid points next to the double, and lies in the interval. -/
theorem onGrid?_eq_some {d : ℕ} (h : i.onGrid? tie k = some d) :
    i.holds (gridPoint d k).1 (gridPoint d k).2 = true ∧ (d = i.below k ∨ d = i.below k + 1) := by
  unfold onGrid? at h
  dsimp only at h
  rw [← below] at h
  split at h
  · rename_i hbelow habove
    rcases roundQuotient_eq_or tie (i.value * (gridPoint 1 k).2) (i.den * (gridPoint 1 k).1)
      with hround | hround
    · obtain rfl := (Option.some.inj h).symm.trans hround
      exact ⟨hbelow, .inl rfl⟩
    · obtain rfl := (Option.some.inj h).symm.trans hround
      exact ⟨habove, .inr rfl⟩
  · rename_i hbelow _
    obtain rfl := Option.some.inj h
    exact ⟨hbelow, .inl rfl⟩
  · rename_i _ habove
    obtain rfl := Option.some.inj h
    exact ⟨habove, .inr rfl⟩
  · exact nomatch h

/-- A grid has a hit if the point up to the double is in the interval. -/
theorem onGrid?_ne_none
    (h : i.holds (gridPoint (i.below k) k).1 (gridPoint (i.below k) k).2 = true) :
    i.onGrid? tie k ≠ none := by
  unfold onGrid?
  dsimp only
  rw [← below, h]
  split <;> simp_all

/-- If the last grid has a hit, the search ends with one. -/
theorem search_eq (n : ℕ) (h : i.onGrid? tie (k - n) ≠ none) :
    ∃ d k', k - n ≤ k' ∧ i.onGrid? tie k' = some d ∧ i.search tie (n + 1) k = ⟨d, k'⟩ := by
  induction n generalizing k with
  | zero =>
    cases hgrid : i.onGrid? tie k with
    | none => exact absurd (show i.onGrid? tie (k - (0 : ℕ)) = none by simpa using hgrid) h
    | some d =>
      refine ⟨d, k, by omega, hgrid, ?_⟩
      rw [search, hgrid]
  | succ n ih =>
    cases hgrid : i.onGrid? tie k with
    | none =>
      have hlast : k - (n + 1 : ℕ) = k - 1 - n := by omega
      rw [hlast] at h ⊢
      obtain ⟨d, k', hk', hhit, hsearch⟩ := ih h
      refine ⟨d, k', hk', hhit, ?_⟩
      rw [search, hgrid]
      exact hsearch
    | some d =>
      refine ⟨d, k, by omega, hgrid, ?_⟩
      rw [search, hgrid]

end Interval

/-! ## Intervals of doubles -/

/-- A power of two as a fraction. -/
theorem ratio_one (e : ℤ) : ((ratio 1 e).1 : ℚ) = 2 ^ e * (ratio 1 e).2 :=
  power_eq_fraction (b := 2) (by decide) rfl

/-- The unit that intervals are measured in is a quarter of the last place. -/
theorem quarter_eq (e : ℤ) :
    ((ratio 1 (e - 2)).1 : ℚ) = 2 ^ e / 4 * (ratio 1 (e - 2)).2 := by
  rw [ratio_one, zpow_sub₀ (by norm_num)]
  norm_num

theorem quarter_pos (e : ℤ) : 0 < (ratio 1 (e - 2)).1 := by
  have hpos : (0 : ℚ) < (ratio 1 (e - 2)).1 := by
    rw [ratio_one]
    exact mul_pos (Double.zpow_two_pos _) (Nat.cast_pos.mpr (ratio_snd_pos 1 _))
  exact_mod_cast hpos

/-- The neighbour below is half or all of the last place away. -/
theorem exists_low_eq (m : ℕ) (e : ℤ) : ∃ w : ℕ, 1 ≤ w ∧ w ≤ 2 ∧
    (Interval.of m e).low = (4 * m - w) * (ratio 1 (e - 2)).1 := by
  unfold Interval.of
  dsimp only
  split
  · exact ⟨1, by decide, by decide, rfl⟩
  · exact ⟨2, by decide, by decide, rfl⟩

/-- An interval reaches at most a half of the last place around a double and a quarter at least. -/
structure Interval.Surrounds (i : Interval) (m : ℕ) (e : ℤ) : Prop where
  den_pos : 0 < i.den
  low_pos : 0 < i.low
  value_eq : (i.value : ℚ) = m * 2 ^ e * i.den
  half_le_low : (m - 1 / 2) * 2 ^ e * i.den ≤ (i.low : ℚ)
  low_le_quarter : (i.low : ℚ) ≤ (m - 1 / 4) * 2 ^ e * i.den
  high_eq : (i.high : ℚ) = (m + 1 / 2) * 2 ^ e * i.den

theorem surrounds_of {m : ℕ} (h0 : 0 < m) (e : ℤ) : (Interval.of m e).Surrounds m e := by
  have hplace : (0 : ℚ) ≤ 2 ^ e * (ratio 1 (e - 2)).2 :=
    mul_nonneg (Double.zpow_two_pos e).le (Nat.cast_nonneg _)
  obtain ⟨w, hw1, hw2, hlow⟩ := exists_low_eq m e
  have hlow' : ((Interval.of m e).low : ℚ)
      = (m - w / 4) * (2 ^ e * (ratio 1 (e - 2)).2) := by
    rw [hlow, Nat.cast_mul, quarter_eq, Nat.cast_sub (by omega)]
    push_cast
    ring
  have hw1' : (1 : ℚ) ≤ w := by exact_mod_cast hw1
  have hw2' : (w : ℚ) ≤ 2 := by exact_mod_cast hw2
  refine ⟨ratio_snd_pos 1 _, ?_, ?_, ?_, ?_, ?_⟩
  · rw [hlow]
    exact Nat.mul_pos (by omega) (quarter_pos e)
  · show ((4 * m * (ratio 1 (e - 2)).1 : ℕ) : ℚ) = m * 2 ^ e * (ratio 1 (e - 2)).2
    push_cast
    rw [quarter_eq]
    ring
  · rw [hlow', mul_assoc]
    exact mul_le_mul_of_nonneg_right (by linarith) hplace
  · rw [hlow', mul_assoc]
    exact mul_le_mul_of_nonneg_right (by linarith) hplace
  · show (((4 * m + 2) * (ratio 1 (e - 2)).1 : ℕ) : ℚ) = (m + 1 / 2) * 2 ^ e * (ratio 1 (e - 2)).2
    push_cast
    rw [quarter_eq]
    ring

namespace Interval.Surrounds

variable {i : Interval} {m : ℕ} {e : ℤ} (h : i.Surrounds m e)
include h

theorem value_div : (i.value / i.den : ℚ) = m * 2 ^ e := by
  rw [h.value_eq, mul_div_cancel_right₀]
  exact (Nat.cast_pos.mpr h.den_pos).ne'

theorem value_pos (h0 : 0 < m) : 0 < i.value := by
  have hpos : (0 : ℚ) < i.value := by
    rw [h.value_eq]
    exact mul_pos (mul_pos (Nat.cast_pos.mpr h0) (Double.zpow_two_pos e))
      (Nat.cast_pos.mpr h.den_pos)
  exact_mod_cast hpos

/-- The grid of 18 digits has a hit: its step is at most a quarter of the last place. -/
theorem onGrid?_ne_none (tie : Tie) (h0 : 0 < m) (hm : m < 2 ^ 53) :
    i.onGrid? tie (leadingExponent i.value i.den - 17) ≠ none := by
  have hden : (0 : ℚ) < i.den := Nat.cast_pos.mpr h.den_pos
  have hplace := Double.zpow_two_pos e
  have hlead := ten_zpow_leadingExponent_le (h.value_pos h0) h.den_pos
  have hm' : (m : ℚ) ≤ 2 ^ 53 := by exact_mod_cast hm.le
  rw [h.value_div] at hlead
  generalize leadingExponent i.value i.den = lead at hlead
  have hstep : (10 : ℚ) ^ (lead - 17) ≤ 2 ^ e / 4 := calc
    (10 : ℚ) ^ (lead - 17) = 10 ^ lead / 10 ^ 17 := zpow_sub₀ (by norm_num) lead 17
    _ ≤ 2 ^ 53 * 2 ^ e / 10 ^ 17 := by
      refine div_le_div_of_nonneg_right (hlead.trans ?_) (by norm_num)
      exact mul_le_mul_of_nonneg_right hm' hplace.le
    _ ≤ 2 ^ e / 4 := by linarith
  have hstep' := mul_le_mul_of_nonneg_right hstep hden.le
  have habove := Interval.lt_below (k := lead - 17) h.den_pos
  have hvalue := h.value_eq
  refine Interval.onGrid?_ne_none (Interval.holds_of_lt ?_ ?_)
  · have hlow := h.low_le_quarter
    linarith
  · have hbelow := Interval.below_le (i := i) (k := lead - 17)
    have hhigh := h.high_eq
    have hhalf : 0 < 2 ^ e * (i.den : ℚ) := mul_pos hplace hden
    linarith

/-- What is hit is positive, and at most half of the last place away from the double. -/
theorem abs_sub_le {tie : Tie} {k : ℤ} {d : ℕ} (hit : i.onGrid? tie k = some d) :
    0 < d ∧ |(d * 10 ^ k : ℚ) - m * 2 ^ e| ≤ 2 ^ e / 2 := by
  have hden : (0 : ℚ) < i.den := Nat.cast_pos.mpr h.den_pos
  obtain ⟨hlow, hhigh⟩ := Interval.le_of_holds (Interval.onGrid?_eq_some hit).1
  refine ⟨Nat.pos_of_ne_zero ?_, abs_le.mpr ⟨?_, ?_⟩⟩
  · rintro rfl
    rw [Nat.cast_zero, zero_mul, zero_mul] at hlow
    exact absurd h.low_pos (not_lt.mpr (by exact_mod_cast hlow))
  · have hends := le_of_mul_le_mul_right (h.half_le_low.trans hlow) hden
    linarith
  · rw [h.high_eq] at hhigh
    have hends := le_of_mul_le_mul_right hhigh hden
    linarith

/-- A hit on one of the first 18 grids has 18 digits, or is the power of ten above. -/
theorem le_of_onGrid? {tie : Tie} {k : ℤ} {d : ℕ} (h0 : 0 < m) (hit : i.onGrid? tie k = some d)
    (hk : leadingExponent i.value i.den - 17 ≤ k) : d ≤ 10 ^ 18 := by
  have hden : (0 : ℚ) < i.den := Nat.cast_pos.mpr h.den_pos
  have hten : (0 : ℚ) < 10 ^ k := zpow_pos (by norm_num) k
  have hlead := lt_ten_zpow_leadingExponent (h.value_pos h0) h.den_pos
  have hbelow : (i.below k : ℚ) * 10 ^ k ≤ i.value / i.den :=
    (le_div_iff₀ hden).mpr Interval.below_le
  have hlt : (i.below k : ℚ) * 10 ^ k < 10 ^ 18 * 10 ^ k := calc
    (i.below k : ℚ) * 10 ^ k < 10 ^ (leadingExponent i.value i.den + 1) := hbelow.trans_lt hlead
    _ ≤ 10 ^ (18 + k) := zpow_le_zpow_right₀ (by norm_num) (by omega)
    _ = 10 ^ 18 * 10 ^ k := zpow_add₀ (by norm_num) 18 k
  have hlt' : i.below k < 10 ^ 18 := by exact_mod_cast lt_of_mul_lt_mul_right hlt hten.le
  rcases (Interval.onGrid?_eq_some hit).2 with rfl | rfl
  · exact hlt'.le
  · exact hlt'

end Interval.Surrounds

/-- Carrying changes no value. -/
theorem value_carry (d : Scaled) : d.carry.value = d.value := by
  unfold Scaled.carry
  split_ifs with hten
  · unfold Scaled.value
    dsimp only
    rw [hten, zpow_add_one₀ (by norm_num)]
    push_cast
    ring
  · rfl

/-- The shortest decimal of a double is a hit on one of the first 18 grids, perhaps carried. -/
theorem exists_hit (tie : Tie) {m : ℕ} (h0 : 0 < m) (hm : m < 2 ^ 53) (e : ℤ) :
    ∃ d k, leadingExponent (Interval.of m e).value (Interval.of m e).den - 17 ≤ k ∧
      (Interval.of m e).onGrid? tie k = some d ∧ shortest tie m e = (⟨d, k⟩ : Scaled).carry := by
  obtain ⟨d, k, hk, hit, hsearch⟩ := Interval.search_eq (k := leadingExponent
    (Interval.of m e).value (Interval.of m e).den) 17
    ((surrounds_of h0 e).onGrid?_ne_none tie h0 hm)
  refine ⟨d, k, hk, hit, ?_⟩
  unfold shortest
  dsimp only
  rw [hsearch]

/-- The shortest decimal of a double has 18 digits at most, and is at most half of the last place
away from it. -/
theorem shortest_spec (tie : Tie) {m : ℕ} (h0 : 0 < m) (hm : m < 2 ^ 53) (e : ℤ) :
    0 < (shortest tie m e).digits ∧ (shortest tie m e).digits ≤ 10 ^ 18 ∧
      |(shortest tie m e).value - m * 2 ^ e| ≤ 2 ^ e / 2 := by
  have hi := surrounds_of h0 e
  obtain ⟨d, k, hk, hit, hshortest⟩ := exists_hit tie h0 hm e
  obtain ⟨hpos, hnear⟩ := hi.abs_sub_le hit
  have hle := hi.le_of_onGrid? h0 hit hk
  rw [hshortest, value_carry]
  refine ⟨?_, ?_, hnear⟩
  · unfold Scaled.carry
    split_ifs
    · exact Nat.one_pos
    · exact hpos
  · unfold Scaled.carry
    split_ifs
    · norm_num
    · exact hle

end Placement.Decimal

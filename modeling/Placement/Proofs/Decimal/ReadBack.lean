import Placement.Proofs.Decimal.Shortest
/-
  What a shortest decimal reads back as.

  * `Canonical.nearest_eq_of_between`: whatever lies between the midpoints to the two neighbours of
    a double (`BetweenMidpoints`) is rounded to it, the midpoints too when the mantissa is even.
    Below a power of two the neighbour is twice as near, and the midpoint is a tie in units of the
    lower place.
  * `betweenMidpoints_of_holds`: the interval that shortest decimals are searched in is just that
    one.
  * `parts_toFloat`: so the double nearest to a shortest decimal is the one that was printed, given
    a canonical mantissa that is not zero and an exponent of a finite double.
-/
namespace Placement

namespace Double

/-- What is at most a half away from an integer is rounded to it, less than a half if it is odd. -/
theorem nearestInt_toEven_eq {q : ℚ} {n : ℤ} (hlow : n - 1 / 2 ≤ q) (hhigh : q ≤ n + 1 / 2)
    (hodd : n % 2 = 1 → n - 1 / 2 < q ∧ q < n + 1 / 2) : nearestInt .toEven q = n := by
  rcases le_or_gt (n : ℚ) q with hq | hq
  · have hfloor : ⌊q⌋ = n := Int.floor_eq_iff.mpr ⟨hq, by linarith⟩
    have hfract : Int.fract q = q - n := by rw [← Int.self_sub_floor, hfloor]
    unfold nearestInt
    rw [hfract, hfloor]
    by_cases hlt : q - n < 1 / 2
    · rw [if_pos hlt]
    · have heven : n % 2 = 0 := by
        by_contra hne
        exact hlt (by linarith [(hodd (by omega)).2])
      rw [if_neg hlt, if_neg (by linarith)]
      exact if_pos heven
  · have hfloor : ⌊q⌋ = n - 1 :=
      Int.floor_eq_iff.mpr ⟨by push_cast; linarith, by push_cast; linarith⟩
    have hfract : Int.fract q = q - n + 1 := by
      rw [← Int.self_sub_floor, hfloor]
      push_cast
      ring
    unfold nearestInt
    rw [hfract, hfloor, if_neg (by linarith)]
    by_cases hgt : 1 / 2 < q - n + 1
    · rw [if_pos hgt, sub_add_cancel]
    · have heven : n % 2 = 0 := by
        by_contra hne
        exact hgt (by linarith [(hodd (by omega)).1])
      rw [if_neg hgt]
      show (if (n - 1) % 2 = 0 then n - 1 else n - 1 + 1) = n
      rw [if_neg (by omega), sub_add_cancel]

/-- A number with 53 bits before its last place, or fewer at the lowest one. -/
theorem lastPlace_of_lt {q : ℚ} {e : ℤ} (hpos : 0 < q) (hlowest : -1074 ≤ e)
    (hfull : 2 ^ 52 * 2 ^ e ≤ q ∨ e = -1074) (hlt : q < 2 ^ 53 * 2 ^ e) : lastPlace q = e := by
  have hlog : Int.log 2 q < 53 + e := by
    refine (Int.lt_zpow_iff_log_lt (b := 2) (by decide) hpos).mp ?_
    calc q < 2 ^ 53 * 2 ^ e := hlt
      _ = ((2 : ℕ) : ℚ) ^ (53 + e) := by
        rw [Nat.cast_ofNat, zpow_add₀ (by norm_num)]
        rfl
  unfold lastPlace
  rcases hfull with hfull | rfl
  · have hle : 52 + e ≤ Int.log 2 q := by
      refine (Int.zpow_le_iff_le_log (b := 2) (by decide) hpos).mp ?_
      calc ((2 : ℕ) : ℚ) ^ (52 + e) = 2 ^ 52 * 2 ^ e := by
            rw [Nat.cast_ofNat, zpow_add₀ (by norm_num)]
            rfl
        _ ≤ q := hfull
    omega
  · omega

/-- How far the midpoint to the neighbour below is away, in units of the last place. -/
def below (m : ℕ) (e : ℤ) : ℚ := if m = 2 ^ 52 ∧ e ≠ -1074 then 1 / 4 else 1 / 2

theorem below_le (m : ℕ) (e : ℤ) : below m e ≤ 1 / 2 := by
  unfold below
  split <;> norm_num

/-- A number lies between the midpoints to the neighbours, or on one of them if the mantissa is
even. -/
structure BetweenMidpoints (m : ℕ) (e : ℤ) (q : ℚ) : Prop where
  low_le : (m - below m e) * 2 ^ e ≤ q
  le_high : q ≤ (m + 1 / 2) * 2 ^ e
  of_odd : m % 2 = 1 → (m - below m e) * 2 ^ e < q ∧ q < (m + 1 / 2) * 2 ^ e

section Between

variable {m : ℕ} {e : ℤ} (h : Canonical m e) (hm : 0 < m) {q : ℚ} (hq : BetweenMidpoints m e q)
include hm hq

theorem BetweenMidpoints.pos : 0 < q := by
  have hone : (1 : ℚ) ≤ m := by exact_mod_cast hm
  have hbelow := below_le m e
  exact (mul_pos (by linarith) (zpow_two_pos e)).trans_le hq.low_le

include h

/-- With all 53 bits before the last place the midpoints are ties. -/
theorem Canonical.nearest_eq_of_full (hfull : 2 ^ 52 * 2 ^ e ≤ q ∨ e = -1074) :
    nearest q = m * 2 ^ e := by
  have hplace := zpow_two_pos e
  have hlt : (m : ℚ) + 1 ≤ 2 ^ 53 := by exact_mod_cast h.lt
  have hq53 : q < 2 ^ 53 * 2 ^ e :=
    hq.le_high.trans_lt (mul_lt_mul_of_pos_right (by linarith) hplace)
  have hhalf : ((m : ℤ) : ℚ) - 1 / 2 ≤ (m - below m e : ℚ) := by
    have hbelow := below_le m e
    rw [Int.cast_natCast]
    linarith
  have hmantissa : nearestInt .toEven (q / 2 ^ e) = m := by
    refine nearestInt_toEven_eq ?_ ?_ fun hodd => ?_
    · exact hhalf.trans ((le_div_iff₀ hplace).mpr hq.low_le)
    · exact (div_le_iff₀ hplace).mpr hq.le_high
    · obtain ⟨hlow, hhigh⟩ := hq.of_odd (by omega)
      exact ⟨hhalf.trans_lt ((lt_div_iff₀ hplace).mpr hlow), (div_lt_iff₀ hplace).mpr hhigh⟩
  rw [nearest_of_nonneg (hq.pos hm).le]
  unfold nearestMagnitude nearestMantissa
  rw [lastPlace_of_lt (hq.pos hm) h.lowest_le hfull hq53, hmantissa, Int.cast_natCast]

/-- Below a power of two the last place is one lower, and the midpoint is a quarter away. -/
theorem Canonical.nearest_eq_of_lower (hlow : q < 2 ^ 52 * 2 ^ e) (hlowest : e ≠ -1074) :
    nearest q = m * 2 ^ e := by
  have hm52 : m = 2 ^ 52 := by
    have hbelow := below_le m e
    have hge : 2 ^ 52 ≤ m := h.full.resolve_right hlowest
    have hle : (m : ℚ) - below m e < 2 ^ 52 :=
      lt_of_mul_lt_mul_right (hq.low_le.trans_lt hlow) (zpow_two_pos e).le
    have hle' : (m : ℚ) < 2 ^ 52 + 1 := by linarith
    have hle'' : m < 2 ^ 52 + 1 := by exact_mod_cast hle'
    omega
  have hquarter : below m e = 1 / 4 := if_pos ⟨hm52, hlowest⟩
  have hstep : (2 : ℚ) ^ e = 2 * 2 ^ (e - 1) := by
    rw [← zpow_one_add₀ (by norm_num)]
    congr 1
    omega
  have hplace := zpow_two_pos (e - 1)
  have hmcast : (m : ℚ) = 2 ^ 52 := by exact_mod_cast hm52
  have hge := hq.low_le
  rw [hquarter, hmcast, hstep] at hge
  rw [hstep] at hlow
  have hmantissa : nearestInt .toEven (q / 2 ^ (e - 1)) = ((2 ^ 53 : ℕ) : ℤ) := by
    refine nearestInt_toEven_eq ?_ ?_ fun hodd => absurd hodd (by decide)
    · rw [le_div_iff₀ hplace]
      push_cast
      linarith
    · rw [div_le_iff₀ hplace]
      push_cast
      linarith
  have hlowest' := h.lowest_le
  have hlast : lastPlace q = e - 1 :=
    lastPlace_of_lt (hq.pos hm) (by omega) (.inl (by linarith)) (by linarith)
  rw [nearest_of_nonneg (hq.pos hm).le]
  unfold nearestMagnitude nearestMantissa
  rw [hlast, hmantissa, hmcast, hstep]
  push_cast
  ring

/-- Between the midpoints all is rounded to the number in the middle. -/
theorem Canonical.nearest_eq_of_between : nearest q = m * 2 ^ e := by
  by_cases hfull : 2 ^ 52 * 2 ^ e ≤ q ∨ e = -1074
  · exact h.nearest_eq_of_full hm hq hfull
  · obtain ⟨hlow, hlowest⟩ := not_or.mp hfull
    exact h.nearest_eq_of_lower hm hq (not_le.mp hlow) hlowest

end Between

/-- Between the midpoints all stands for the double in the middle. -/
theorem Canonical.rounded_eq_of_between {m : ℕ} {e : ℤ} (h : Canonical m e) (hm : 0 < m)
    (he : e ≤ 971) {q : ℚ} (hq : BetweenMidpoints m e q) : rounded q = m * 2 ^ e := by
  unfold rounded
  rw [h.nearest_eq_of_between hm hq, bounded_of_abs_le]
  rw [abs_of_nonneg (magnitude_nonneg m e)]
  exact (h.lt_limit he).le

/-- Canonical numbers are told by their magnitude. -/
theorem Canonical.unique {m m' : ℕ} {e e' : ℤ} (h : Canonical m e) (h' : Canonical m' e')
    (heq : (m : ℚ) * 2 ^ e = m' * 2 ^ e') : m = m' ∧ e = e' := by
  rcases lt_trichotomy (toLex (e, (m : ℤ))) (toLex (e', (m' : ℤ))) with hlt | heq' | hgt
  · exact absurd heq (magnitude_lt h h' hlt).ne
  · have hpair : (e, (m : ℤ)) = (e', (m' : ℤ)) := heq'
    rw [Prod.mk.injEq, Int.natCast_inj] at hpair
    exact hpair.symm
  · exact absurd heq (magnitude_lt h' h hgt).ne'

/-- A double that stands for a positive canonical number comes apart into it. -/
theorem Denotes.parts_eq {x : Float} {m : ℕ} {e : ℤ} (h : Denotes x (m * 2 ^ e))
    (hc : Canonical m e) (he : e ≤ 971) (hm : 0 < m) : Decimal.parts x = .finite false m e := by
  have hpos := magnitude_pos hm e
  have hfinite : x.isFinite = true := by
    rw [Double.isFinite_iff h.isNaN, h.value, abs_of_pos hpos]
    exact hc.lt_limit he
  obtain ⟨s, m', e', hparts, hc', -, hvalue⟩ := canonical_parts hfinite
  rw [h.value] at hvalue
  cases s with
  | negative =>
    have hneg : (m : ℚ) * 2 ^ e = -(m' * 2 ^ e') := hvalue
    exact absurd (magnitude_nonneg m' e') (not_le.mpr (by linarith))
  | positive =>
    obtain ⟨rfl, rfl⟩ := hc.unique hc' hvalue
    exact hparts

/-- One double at most stands for a positive number below the limit. -/
theorem Denotes.unique {x y : Float} {q : ℚ} (hx : Denotes x q) (hy : Denotes y q) (hpos : 0 < q)
    (hlt : q < limit) : x = y := by
  have hfinite : x.isFinite = true := by
    rw [hx.isFinite_iff, abs_of_pos hpos]
    exact hlt
  obtain ⟨s, m, e, hparts, hc, he, hvalue⟩ := canonical_parts hfinite
  rw [hx.value] at hvalue
  cases s with
  | negative =>
    have hneg : q = -(m * 2 ^ e) := hvalue
    exact absurd (magnitude_nonneg m e) (not_le.mpr (by linarith))
  | positive =>
    have heq : q = m * 2 ^ e := hvalue
    have hm : 0 < m := by
      refine Nat.pos_of_ne_zero ?_
      rintro rfl
      rw [heq, Nat.cast_zero, zero_mul] at hpos
      exact lt_irrefl 0 hpos
    rw [heq] at hy
    exact eq_of_parts_eq hparts (hy.parts_eq hc he hm)

theorem parts_neg {x : Float} {negative : Bool} {m : ℕ} {e : ℤ}
    (h : Decimal.parts x = .finite negative m e) :
    Decimal.parts (-x) = .finite (!negative) m e := by
  rw [Double.parts_eq] at h ⊢
  rw [unpack_neg]
  cases hu : x.toModel.unpack with
  | notANumber => rw [hu] at h; cases h
  | infinity s => rw [hu] at h; cases h
  | zero s =>
    rw [hu] at h
    cases h
    cases s <;> rfl
  | finite s m e hm =>
    rw [hu] at h
    cases h
    cases s <;> rfl

/-- A double is its magnitude under its sign. -/
theorem eq_of_magnitude {x y : Float} {negative : Bool} {m : ℕ} {e : ℤ}
    (hx : Decimal.parts x = .finite negative m e) (hy : Decimal.parts y = .finite false m e) :
    (if negative then -y else y) = x := by
  cases negative with
  | false => exact eq_of_parts_eq hy hx
  | true => exact eq_of_parts_eq (parts_neg hy) hx

end Double

namespace Decimal

open Double (Canonical BetweenMidpoints below)

/-! ## Intervals -/

/-- The lower end of an interval is the midpoint to the neighbour below. -/
theorem low_eq {m : ℕ} (hm : 0 < m) (e : ℤ) :
    ((Interval.of m e).low : ℚ) = (m - below m e) * 2 ^ e * (Interval.of m e).den := by
  have hlow : ((Interval.of m e).low : ℚ)
      = (4 * m - 4 * below m e) * ((ratio 1 (e - 2)).1 : ℚ) := by
    unfold Interval.of below
    dsimp only
    split
    · rw [if_pos ‹_›, Nat.cast_mul, Nat.cast_sub (by omega)]
      push_cast
      ring
    · rw [if_neg ‹_›, Nat.cast_mul, Nat.cast_sub (by omega)]
      push_cast
      ring
  rw [hlow, quarter_eq]
  show _ = (m - below m e) * 2 ^ e * ((ratio 1 (e - 2)).2 : ℚ)
  ring

/-- A point strictly within an open interval. -/
theorem Interval.lt_of_holds {i : Interval} {k : ℤ} {d : ℕ} (hopen : i.closed = false)
    (h : i.holds (gridPoint d k).1 (gridPoint d k).2 = true) :
    (i.low : ℚ) < d * 10 ^ k * i.den ∧ (d * 10 ^ k * i.den : ℚ) < i.high := by
  rw [gridPoint_eq] at h
  unfold holds at h
  rw [hopen, if_neg Bool.false_ne_true, Bool.and_eq_true, decide_eq_true_iff,
    decide_eq_true_iff] at h
  constructor
  · have hlow : (i.low : ℚ) * (gridPoint 1 k).2 < d * (gridPoint 1 k).1 * i.den := by
      exact_mod_cast h.1
    rw [point_eq] at hlow
    exact lt_of_mul_lt_mul_right hlow (unit_pos k).le
  · have hhigh : (d : ℚ) * (gridPoint 1 k).1 * i.den < i.high * (gridPoint 1 k).2 := by
      exact_mod_cast h.2
    rw [point_eq] at hhigh
    exact lt_of_mul_lt_mul_right hhigh (unit_pos k).le

/-- A grid point in the interval of a double lies between the midpoints to its neighbours. -/
theorem betweenMidpoints_of_holds {m : ℕ} (hm : 0 < m) {e k : ℤ} {d : ℕ}
    (h : (Interval.of m e).holds (gridPoint d k).1 (gridPoint d k).2 = true) :
    BetweenMidpoints m e (d * 10 ^ k) := by
  have hden : (0 : ℚ) < (Interval.of m e).den := Nat.cast_pos.mpr (surrounds_of hm e).den_pos
  have hlow := low_eq hm e
  have hhigh := (surrounds_of hm e).high_eq
  obtain ⟨hle, hge⟩ := Interval.le_of_holds h
  refine ⟨?_, ?_, fun hodd => ?_⟩
  · rw [hlow] at hle
    exact le_of_mul_le_mul_right hle hden
  · rw [hhigh] at hge
    exact le_of_mul_le_mul_right hge hden
  · have hopen : (Interval.of m e).closed = false := decide_eq_false (by omega)
    obtain ⟨hlt, hgt⟩ := Interval.lt_of_holds hopen h
    rw [hlow] at hlt
    rw [hhigh] at hgt
    exact ⟨lt_of_mul_lt_mul_right hlt hden.le, lt_of_mul_lt_mul_right hgt hden.le⟩

/-- The shortest decimal of a double is rounded to the double. -/
theorem rounded_shortest (tie : Tie) {m : ℕ} {e : ℤ} (h : Canonical m e) (hm : 0 < m)
    (he : e ≤ 971) : Double.rounded (shortest tie m e).value = m * 2 ^ e := by
  obtain ⟨d, k, -, hit, hshortest⟩ := exists_hit tie hm h.lt e
  rw [hshortest, value_carry]
  exact h.rounded_eq_of_between hm he
    (betweenMidpoints_of_holds hm (Interval.onGrid?_eq_some hit).1)

/-- Every decimal with the value of the shortest one is read as the double. -/
theorem parts_toFloat (tie : Tie) {m : ℕ} {e : ℤ} (h : Canonical m e) (hm : 0 < m) (he : e ≤ 971)
    {d : Scaled} (hd : d.value = (shortest tie m e).value) :
    parts d.toFloat = .finite false m e := by
  have hread := denotes_scaled d
  rw [hd, rounded_shortest tie h hm he] at hread
  exact hread.parts_eq h he hm

end Decimal

end Placement

import Placement.Proofs.Decimal.ReadBack
import Placement.Proofs.Double.Error
import Placement.Proofs.Scoring.Precision
/-
  Where a bid is rounded to the wrong side of a half. A level is multiplied by the scale first, and
  the product is rounded to a double before anyone looks for a half in it. Halves are doubles, so
  the product never crosses one, but it may come to lie on one. What then goes to the even integer
  need not have been half-way: `Slips` says when the even integer is the one further away.

  * `nearestInt_rounded_eq_iff`: the integer found is the nearest one, unless the product slips.
  * `roundTo_nearest_iff`: and so is the decimal, GIVEN a level and at most twelve places.
  * `not_slips_of_rounded_eq`: a product that is a double itself, as all exact halves are, does not
    slip.
  * `roundTo_short`: there is a product that does.
-/
namespace Placement

namespace Double

/-! ## Halves -/

/-- Halves are doubles. -/
theorem rounded_half {n : ℕ} (h : n < 2 ^ 52) : rounded (n + 1 / 2) = n + 1 / 2 := by
  have hodd : ((n : ℚ) + 1 / 2) = ((2 * n + 1 : ℕ) : ℚ) * 2 ^ (-1 : ℤ) := by
    push_cast
    ring
  have hlimit : (n : ℚ) + 1 / 2 ≤ limit := calc
    (n : ℚ) + 1 / 2 ≤ ((n + 1 : ℕ) : ℚ) := by push_cast; linarith
    _ ≤ limit := (natCast_lt_limit (by omega)).le
  unfold rounded
  rw [hodd, nearest_mul_two_zpow (by omega) (by decide), ← hodd]
  exact bounded_of_abs_le ((abs_of_nonneg (by positivity)).trans_le hlimit)

section Crossing

variable {n : ℕ} (h : n < 2 ^ 52) {q : ℚ}
include h

theorem rounded_le_half (hq : q ≤ n + 1 / 2) : rounded q ≤ n + 1 / 2 :=
  (rounded_mono hq).trans_eq (rounded_half h)

theorem half_le_rounded (hq : n + 1 / 2 ≤ q) : n + 1 / 2 ≤ rounded q :=
  (rounded_half h).symm.trans_le (rounded_mono hq)

theorem lt_half_of_rounded_lt (hr : rounded q < n + 1 / 2) : q < n + 1 / 2 :=
  lt_of_not_ge fun hge => (half_le_rounded h hge).not_gt hr

theorem half_lt_of_lt_rounded (hr : n + 1 / 2 < rounded q) : n + 1 / 2 < q :=
  lt_of_not_ge fun hge => (rounded_le_half h hge).not_gt hr

end Crossing

/-- A half goes to its even neighbour. -/
theorem nearestInt_toEven_half (n : ℕ) :
    nearestInt .toEven (n + 1 / 2) = if n % 2 = 0 then (n : ℤ) else n + 1 := by
  split
  · refine nearestInt_toEven_eq ?_ ?_ fun hodd => absurd hodd (by omega)
    · push_cast
      linarith
    · push_cast
      exact le_rfl
  · refine nearestInt_toEven_eq ?_ ?_ fun hodd => absurd hodd (by omega)
    · push_cast
      linarith
    · push_cast
      linarith

/-- What goes to an odd integer is not half-way to another one. -/
theorem ne_half_of_odd {q : ℚ} (hodd : nearestInt .toEven q % 2 = 1) (n : ℕ) : q ≠ n + 1 / 2 := by
  rintro rfl
  rw [nearestInt_toEven_half] at hodd
  split at hodd <;> omega

theorem lt_nearestInt (tie : Decimal.Tie) {n : ℕ} {q : ℚ} (h : n + 1 / 2 < q) :
    (n : ℤ) < nearestInt tie q := by
  have hnear := (abs_le.mp (abs_nearestInt_sub_le tie q)).1
  have hlt : (n : ℚ) < nearestInt tie q := by linarith
  exact_mod_cast hlt

theorem nearestInt_lt (tie : Decimal.Tie) {n : ℕ} {q : ℚ} (h : q < n + 1 / 2) :
    nearestInt tie q < n + 1 := by
  have hnear := (abs_le.mp (abs_nearestInt_sub_le tie q)).2
  have hlt : (nearestInt tie q : ℚ) < n + 1 := by linarith
  exact_mod_cast hlt

/-! ## Slips -/

/-- A number that a double can only take for a half, and that is nearer to the odd neighbour of that
half. -/
def Slips (q : ℚ) : Prop :=
  ∃ n : ℕ, rounded q = n + 1 / 2 ∧
    (n % 2 = 0 ∧ n + 1 / 2 < q ∨ n % 2 = 1 ∧ q < n + 1 / 2)

/-- Doubles do not slip. -/
theorem not_slips_of_rounded_eq {q : ℚ} (h : rounded q = q) : ¬ Slips q := by
  rintro ⟨n, hhalf, ⟨-, hlt⟩ | ⟨-, hlt⟩⟩
  · exact hlt.ne (hhalf.symm.trans h)
  · exact hlt.ne (h.symm.trans hhalf)

section Units

variable {q : ℚ} (h : q < 2 ^ 51)
include h

/-- A slip takes the even neighbour of a half where the odd one is nearest. -/
theorem Slips.nearestInt_rounded (hslip : Slips q) :
    nearestInt .toEven (rounded q) = nearestInt .toEven q - 1 ∨
      nearestInt .toEven (rounded q) = nearestInt .toEven q + 1 := by
  obtain ⟨n, hhalf, hside⟩ := hslip
  have hn : n < 2 ^ 51 := by
    have hle : rounded q ≤ 2 ^ 51 :=
      rounded_le_two_zpow (k := 51) (by decide) (by decide) (by exact_mod_cast h.le)
    have hlt : (n : ℚ) < 2 ^ 51 := by linarith
    exact_mod_cast hlt
  rw [hhalf, nearestInt_toEven_half]
  rcases hside with ⟨heven, hlt⟩ | ⟨hodd, hlt⟩
  · left
    have hnext : q < ((n + 1 : ℕ) : ℚ) + 1 / 2 := by
      refine lt_half_of_rounded_lt (by omega) ?_
      rw [hhalf]
      push_cast
      linarith
    have hlow := lt_nearestInt .toEven hlt
    have hhigh := nearestInt_lt .toEven hnext
    rw [if_pos heven]
    omega
  · right
    obtain ⟨m, rfl⟩ : ∃ m, n = m + 1 := ⟨n - 1, by omega⟩
    have hprev : (m : ℚ) + 1 / 2 < q := by
      refine half_lt_of_lt_rounded (by omega) ?_
      rw [hhalf]
      push_cast
      linarith
    have hlow := lt_nearestInt .toEven hprev
    have hhigh := nearestInt_lt .toEven hlt
    rw [if_neg (by omega)]
    push_cast at hhigh ⊢
    omega

variable (h0 : 0 ≤ q)
include h0

/-- What does not slip is rounded to the integer nearest to it. -/
theorem nearestInt_rounded_of_not_slips (hno : ¬ Slips q) :
    nearestInt .toEven (rounded q) = nearestInt .toEven q := by
  obtain ⟨k, hk⟩ := Int.eq_ofNat_of_zero_le (nearestInt_nonneg .toEven h0)
  have hnear := abs_le.mp (abs_nearestInt_sub_le .toEven q)
  rw [hk, Int.cast_natCast] at hnear
  have hk52 : k < 2 ^ 52 := by
    have hbound : (k : ℚ) < 2 ^ 52 := by linarith
    exact_mod_cast hbound
  have hhigh : rounded q ≤ k + 1 / 2 := rounded_le_half hk52 (by linarith)
  rw [hk]
  cases k with
  | zero =>
    refine nearestInt_toEven_eq ?_ (by exact_mod_cast hhigh) fun hodd => absurd hodd (by decide)
    have hpos := rounded_nonneg h0
    push_cast
    linarith
  | succ m =>
    push_cast at hnear
    have hlow : m + 1 / 2 ≤ rounded q := half_le_rounded (by omega) (by linarith)
    refine nearestInt_toEven_eq ?_ (by exact_mod_cast hhigh) fun hodd => ?_
    · push_cast
      linarith
    have hne := ne_half_of_odd (by rw [hk]; exact hodd)
    -- on either of the halves next to an odd integer the product would have slipped
    have hlow' : rounded q ≠ m + 1 / 2 := fun heq =>
      hno ⟨m, heq, .inl ⟨by omega, lt_of_le_of_ne (by linarith) (hne m).symm⟩⟩
    have hhigh' : rounded q ≠ (m + 1 : ℕ) + 1 / 2 := fun heq =>
      hno ⟨m + 1, heq, .inr ⟨by omega, lt_of_le_of_ne (by push_cast; linarith) (hne (m + 1))⟩⟩
    constructor
    · have hlt := lt_of_le_of_ne hlow hlow'.symm
      push_cast
      linarith
    · exact_mod_cast lt_of_le_of_ne hhigh hhigh'

theorem nearestInt_rounded_eq_iff :
    nearestInt .toEven (rounded q) = nearestInt .toEven q ↔ ¬ Slips q := by
  refine ⟨fun heq hslip => ?_, nearestInt_rounded_of_not_slips h h0⟩
  rcases hslip.nearestInt_rounded h with hoff | hoff <;> omega

end Units

end Double

/-! ## Decimals -/

namespace Heuristic

open Double

section Places

variable {places : UInt32} (hp : places.toNat ≤ 12)
include hp

/-- Two decimals of a level are two doubles. -/
theorem rounded_places_inj {k l : ℤ} (hk0 : 0 ≤ k) (hk : (k : ℚ) ≤ 10 ^ places.toNat) (hl0 : 0 ≤ l)
    (hl : (l : ℚ) ≤ 10 ^ places.toNat)
    (heq : rounded (k / 10 ^ places.toNat) = rounded (l / 10 ^ places.toNat)) : k = l := by
  have hscale : (0 : ℚ) < 10 ^ places.toNat := by positivity
  have hscale12 : (10 : ℚ) ^ places.toNat ≤ 10 ^ 12 := pow_le_pow_right₀ (by norm_num) hp
  have hkerr := abs_rounded_sub_le (div_nonneg (Int.cast_nonneg hk0) hscale.le)
    (div_le_one_of_le₀ hk hscale.le)
  have hlerr := abs_rounded_sub_le (div_nonneg (Int.cast_nonneg hl0) hscale.le)
    (div_le_one_of_le₀ hl hscale.le)
  have hclose : |(k : ℚ) / 10 ^ places.toNat - l / 10 ^ places.toNat| ≤ 1 / 2 ^ 52 := by
    rw [heq, abs_le] at hkerr
    rw [abs_le] at hlerr ⊢
    constructor <;> linarith
  rw [← sub_div, abs_div, abs_of_pos hscale, div_le_iff₀ hscale, ← Int.cast_sub, ← Int.cast_abs]
    at hclose
  have hone : ((|k - l| : ℤ) : ℚ) < 1 := by linarith
  have hzero : |k - l| = 0 := by
    have hlt : |k - l| < 1 := by exact_mod_cast hone
    have hnonneg := abs_nonneg (k - l)
    omega
  exact sub_eq_zero.mp (abs_eq_zero.mp hzero)

variable {v : Float} (hv : IsLevel v)
include hv

theorem units_lt : Double.value v * 10 ^ places.toNat < 2 ^ 51 := calc
  Double.value v * 10 ^ places.toNat ≤ 10 ^ places.toNat :=
    mul_le_of_le_one_left (by positivity) hv.value_le_one
  _ ≤ 10 ^ 12 := pow_le_pow_right₀ (by norm_num) hp
  _ < 2 ^ 51 := by norm_num

omit hp in
theorem zero_le_units : 0 ≤ Double.value v * 10 ^ places.toNat :=
  mul_nonneg hv.value_nonneg (by positivity)

/-- A level is rounded to the nearest decimal exactly when its product with the scale does not
slip. -/
theorem denotes_nearest_iff : Denotes (roundTo places v)
      (rounded (nearestInt .toEven (Double.value v * 10 ^ places.toNat) / 10 ^ places.toNat))
    ↔ ¬ Slips (Double.value v * 10 ^ places.toNat) := by
  have hpos : 0 ≤ Double.value v * 10 ^ places.toNat := zero_le_units hv
  have hfound := denotes_roundTo hp hv
  rw [← nearestInt_rounded_eq_iff (units_lt hp hv) hpos]
  constructor
  · intro hnearest
    refine rounded_places_inj hp (nearestInt_nonneg _ (units_nonneg hv)) (wholeUnits_le hp hv)
      (nearestInt_nonneg _ hpos) ?_ (hfound.value.symm.trans hnearest.value)
    have hmono := nearestInt_mono .toEven (q := Double.value v * 10 ^ places.toNat)
      (r := ((10 ^ places.toNat : ℕ) : ℚ))
      (by push_cast; exact mul_le_of_le_one_left (by positivity) hv.value_le_one)
    rw [nearestInt_natCast] at hmono
    exact_mod_cast hmono
  · intro heq
    rwa [heq] at hfound

end Places

/-- Rounding a level to at most twelve places, with the product and the quotient rounded to doubles.
What is found is the double nearest to a number of whole units over the scale. The units are the
integer nearest to the exact product, and the even one of two, exactly when the product does not
slip: it does where a double can only take it for a half that it is not, and then the even neighbour
of the half is found in place of the odd one, which is nearer. A product that is a double does not
slip. -/
theorem roundTo_nearest_iff (places : UInt32) (hp : places.toNat ≤ 12) (v : Float)
    (hv : IsLevel v) :
    Denotes (roundTo places v)
      (rounded (nearestInt .toEven (rounded (Double.value v * 10 ^ places.toNat))
        / 10 ^ places.toNat)) ∧
    (Denotes (roundTo places v)
        (rounded (nearestInt .toEven (Double.value v * 10 ^ places.toNat) / 10 ^ places.toNat))
      ↔ ¬ Slips (Double.value v * 10 ^ places.toNat)) ∧
    (Slips (Double.value v * 10 ^ places.toNat) →
      nearestInt .toEven (rounded (Double.value v * 10 ^ places.toNat)) % 2 = 0 ∧
      |nearestInt .toEven (rounded (Double.value v * 10 ^ places.toNat))
        - nearestInt .toEven (Double.value v * 10 ^ places.toNat)| = 1) ∧
    (rounded (Double.value v * 10 ^ places.toNat) = Double.value v * 10 ^ places.toNat →
      ¬ Slips (Double.value v * 10 ^ places.toNat)) := by
  refine ⟨denotes_roundTo hp hv, denotes_nearest_iff hp hv, fun hslip => ⟨?_, ?_⟩,
    not_slips_of_rounded_eq⟩
  · obtain ⟨n, hhalf, -⟩ := hslip
    rw [hhalf, nearestInt_toEven_half]
    split <;> omega
  · rcases hslip.nearestInt_rounded (units_lt hp hv) with hoff | hoff
    · rw [hoff]
      norm_num
    · rw [hoff]
      norm_num

/-- The double that 0.015 is read as lies just below it, and so does its product with 100 below one
and a half; the double product does not. -/
theorem slips_short : Slips (Double.value 0.015 * 10 ^ (2 : UInt32).toNat) := by
  refine ⟨1, ?_, .inr ⟨rfl, by decide +kernel⟩⟩
  have hproduct : Denotes (0.015 * scale 2)
      (rounded (Double.value 0.015 * 10 ^ (2 : UInt32).toNat)) :=
    denotes_mul_scale (by decide) ⟨by decide +kernel, by decide +kernel⟩
  rw [← hproduct.value]
  decide +kernel

theorem roundTo_nearest_iff_short : roundTo 2 0.015 = 0.02 ∧
    ¬ Denotes (roundTo 2 0.015) (rounded (nearestInt .toEven
      (Double.value 0.015 * 10 ^ (2 : UInt32).toNat) / 10 ^ (2 : UInt32).toNat)) := by
  obtain ⟨-, hiff, -⟩ := roundTo_nearest_iff 2 (by decide) 0.015
    ⟨by decide +kernel, by decide +kernel⟩
  exact ⟨by decide +kernel, fun hnearest => hiff.mp hnearest slips_short⟩

/-- Not every level is rounded to the nearest decimal. -/
theorem roundTo_short : ¬ ∀ (places : UInt32) (v : Float), places.toNat ≤ 12 → IsLevel v →
    Denotes (roundTo places v)
      (rounded (nearestInt .toEven (Double.value v * 10 ^ places.toNat)
        / 10 ^ places.toNat)) := by
  intro h
  have hplaces : (2 : UInt32).toNat ≤ 12 := by decide
  have hlevel : IsLevel 0.015 := ⟨by decide +kernel, by decide +kernel⟩
  exact (denotes_nearest_iff hplaces hlevel).mp (h 2 0.015 hplaces hlevel) slips_short

end Heuristic

end Placement

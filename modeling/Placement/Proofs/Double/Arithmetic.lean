import Placement.Proofs.Double.Rounding
/-
  Arithmetic of doubles. `Denotes x q`: the double `x` is a number and stands for `q`. On finite
  operands each operation denotes the exact result after `rounded`, which is `nearest` with an
  infinity beyond the last double: `denotes_add`, `denotes_mul`, `denotes_div`, `denotes_sub` and
  `denotes_count`. A change of sign is exact (`value_neg`). Nothing after these looks into an
  operation again.
-/
namespace Placement.Double

open Float.Model (UnpackedFloat Format totalExponent)
open Float.Model.UnpackedFloat

/-! ## Unpacked operations -/

theorem withSign_mul (s s' : Sign) (q r : ℚ) :
    withSign (s * s') (q * r) = withSign s q * withSign s' r := by
  cases s <;> cases s'
  · exact (neg_mul_neg q r).symm
  · exact (neg_mul q r).symm
  · exact (mul_neg q r).symm
  · rfl

theorem withSign_div (s s' : Sign) (q r : ℚ) :
    withSign (s / s') (q / r) = withSign s q / withSign s' r := by
  cases s <;> cases s'
  · exact (neg_div_neg_eq q r).symm
  · exact (neg_div r q).symm
  · exact (div_neg q).symm
  · rfl

theorem withSign_neg (s : Sign) (q : ℚ) : withSign (-s) q = -withSign s q := by
  cases s with
  | negative => exact (neg_neg q).symm
  | positive => rfl

theorem withSign_apply (s : Sign) (n : ℤ) : ((s.apply n : ℤ) : ℚ) = withSign s n := by
  cases s with
  | negative => exact Int.cast_neg n
  | positive => rfl

/-- A mantissa of 53 bits needs no exponent below its own. -/
theorem le_lastPlace {q : ℚ} (hq : 2 ^ 52 ≤ q) (e : ℤ) : e ≤ lastPlace (q * 2 ^ e) := by
  have hpow : (2 : ℚ) ^ (52 + e) ≤ q * 2 ^ e := by
    rw [zpow_add₀ (by norm_num)]
    exact mul_le_mul_of_nonneg_right hq (zpow_two_pos e).le
  have hpos : 0 < q * 2 ^ e := (zpow_two_pos _).trans_le hpow
  have hlog := (Int.zpow_le_iff_le_log (b := 2) (by decide) hpos).mp hpow
  unfold lastPlace
  omega

section Finite

variable {m m' : ℕ} {e e' : ℤ} (hm : 0 < m) (hm' : 0 < m') (h : Canonical m e)
  (h' : Canonical m' e')
include hm hm' h h'

/-- A product has more bits than are kept, or lies below the lowest place. -/
theorem product_le_lastPlace : e + e' ≤ lastPlace (((m * m' : ℕ) : ℚ) * 2 ^ (e + e')) := by
  have hfull : 2 ^ 52 ≤ m * m' ∨ e + e' ≤ -1074 := by
    rcases h.full with hfull | hlow
    · exact .inl (hfull.trans (Nat.le_mul_of_pos_right m hm'))
    · rcases h'.full with hfull' | hlow'
      · exact .inl (hfull'.trans (Nat.le_mul_of_pos_left m' hm))
      · exact .inr (by omega)
  rcases hfull with hfull | hlow
  · exact le_lastPlace (by exact_mod_cast hfull) _
  · exact hlow.trans (lowest_le_lastPlace _)

theorem isNearest_mul_finite (s s' : Sign) :
    IsNearest (mul .binary64 (.finite s m e hm) (.finite s' m' e' hm'))
      (withSign s (m * 2 ^ e) * withSign s' (m' * 2 ^ e')) := by
  have hexact : (m : ℚ) * 2 ^ e * (m' * 2 ^ e') = ((m * m' : ℕ) : ℚ) * 2 ^ (e + e') := by
    rw [zpow_add₀ (by norm_num), Nat.cast_mul]
    ring
  rw [← withSign_mul, hexact]
  exact isNearest_roundWithAccuracy _ (represents_exact _)
    (Nat.cast_pos.mpr (Nat.mul_pos hm hm')) (product_le_lastPlace hm hm' h h')

omit h h' in
/-- A quotient has the exponent that its operands suggest, or the next one. -/
theorem quotient_le_lastPlace :
    Format.binary64.targetExponent (totalExponent m e - totalExponent m' e')
      ≤ lastPlace (m * 2 ^ e / (m' * 2 ^ e')) := by
  have hnum : (2 : ℚ) ^ ((m.log2 : ℤ) + e) ≤ m * 2 ^ e := by
    rw [zpow_add₀ (by norm_num), zpow_natCast]
    refine mul_le_mul_of_nonneg_right ?_ (zpow_two_pos e).le
    exact_mod_cast Nat.log2_self_le hm.ne'
  have hden : (m' : ℚ) * 2 ^ e' ≤ 2 ^ ((m'.log2 : ℤ) + 1 + e') := by
    rw [zpow_add₀ (by norm_num)]
    refine mul_le_mul_of_nonneg_right ?_ (zpow_two_pos e').le
    exact_mod_cast (Nat.lt_log2_self (n := m')).le
  have hquot : (2 : ℚ) ^ ((m.log2 : ℤ) + e - ((m'.log2 : ℤ) + 1 + e'))
      ≤ m * 2 ^ e / (m' * 2 ^ e') := by
    rw [zpow_sub₀ (by norm_num)]
    exact div_le_div₀ (magnitude_nonneg m e) hnum (magnitude_pos hm' e') hden
  have hpos := div_pos (magnitude_pos hm e) (magnitude_pos hm' e')
  have hlog := (Int.zpow_le_iff_le_log (b := 2) (by decide) hpos).mp hquot
  show max ((m.log2 : ℤ) + 1 + e - ((m'.log2 : ℤ) + 1 + e') - 53) (-1074) ≤ _
  unfold lastPlace
  omega

omit h h' in
theorem isNearest_div_finite (s s' : Sign) :
    IsNearest (div .binary64 (.finite s m e hm) (.finite s' m' e' hm'))
      (withSign s (m * 2 ^ e) / withSign s' (m' * 2 ^ e')) := by
  have hle : min (e - e') (Format.binary64.targetExponent
      (totalExponent m e - totalExponent m' e')) ≤ lastPlace (m * 2 ^ e / (m' * 2 ^ e')) :=
    (min_le_right _ _).trans (quotient_le_lastPlace hm hm')
  have hmin : min (e - e') (Format.binary64.targetExponent
      (totalExponent m e - totalExponent m' e')) ≤ e - e' := min_le_left _ _
  unfold div divCore
  dsimp only
  generalize min (e - e') (Format.binary64.targetExponent
    (totalExponent m e - totalExponent m' e')) = t at hle hmin
  generalize hk : (e - e' - t).toNat = k
  have hexact : ((m <<< k : ℕ) : ℚ) / m' * 2 ^ t = m * 2 ^ e / (m' * 2 ^ e') := by
    have ht : t = e - e' - k := by omega
    have hm0 : (m' : ℚ) ≠ 0 := Nat.cast_ne_zero.mpr hm'.ne'
    have he0 := (zpow_two_pos e').ne'
    have hk0 : (2 : ℚ) ^ k ≠ 0 := by positivity
    rw [ht, zpow_sub₀ (by norm_num), zpow_sub₀ (by norm_num), zpow_natCast, Nat.shiftLeft_eq,
      Nat.cast_mul, Nat.cast_pow, Nat.cast_ofNat]
    field_simp
  rw [← withSign_div, ← hexact]
  have hpos : 0 < m <<< k := by
    rw [Nat.shiftLeft_eq]
    positivity
  refine isNearest_roundWithAccuracy _ (represents_quotient _ _ hm')
    (div_pos (Nat.cast_pos.mpr hpos) (Nat.cast_pos.mpr hm')) ?_
  rw [hexact]
  exact hle

end Finite

/-- A lower exponent takes a longer mantissa. -/
theorem decreaseExponent_fst {m : ℕ} {e t : ℤ} (h : t ≤ e) :
    ((decreaseExponent m e t).1 : ℚ) * 2 ^ t = m * 2 ^ e := by
  obtain ⟨k, rfl⟩ : ∃ k : ℕ, e = t + k := ⟨(e - t).toNat, by omega⟩
  have hk : (t + k - t : ℤ).toNat = k := by omega
  unfold decreaseExponent
  dsimp only
  rw [hk, Nat.shiftLeft_eq, Nat.cast_mul, Nat.cast_pow, Nat.cast_ofNat, zpow_add₀ (by norm_num),
    zpow_natCast]
  ring

theorem isNearest_sub_finite (s s' : Sign) {m m' : ℕ} (e e' : ℤ) (hm : 0 < m) (hm' : 0 < m') :
    IsNearest (sub .binary64 (.finite s m e hm) (.finite s' m' e' hm'))
      (withSign s (m * 2 ^ e) - withSign s' (m' * 2 ^ e')) := by
  have hleft := decreaseExponent_fst (m := m) (min_le_left e e')
  have hright := decreaseExponent_fst (m := m') (min_le_right e e')
  unfold sub
  dsimp only
  generalize (decreaseExponent m e (min e e')).1 = n at hleft
  generalize (decreaseExponent m' e' (min e e')).1 = n' at hright
  have hexact : ((s.apply n - s'.apply n' : ℤ) : ℚ) * 2 ^ min e e'
      = withSign s (m * 2 ^ e) - withSign s' (m' * 2 ^ e') := by
    rw [← hleft, ← hright, Int.cast_sub, withSign_apply, withSign_apply]
    cases s <;> cases s' <;> simp only [withSign, Int.cast_natCast] <;> ring
  rw [← hexact]
  exact isNearest_normalize _ _ _

theorem isNearest_self {u : UnpackedFloat} (h : InPlace u) (hu : u.isFinite = true) :
    IsNearest u (unpackedValue u) := by
  cases u with
  | notANumber => exact absurd hu Bool.false_ne_true
  | infinity s => exact absurd hu Bool.false_ne_true
  | zero s => exact isNearest_zero s
  | finite s m e hm => exact isNearest_finite s hm h (Canonical.nearest_eq h).symm

theorem unpackedValue_neg (u : UnpackedFloat) : unpackedValue u.neg = -unpackedValue u := by
  cases u with
  | notANumber => exact neg_zero.symm
  | infinity s => exact withSign_neg s _
  | zero s => exact neg_zero.symm
  | finite s m e hm => exact withSign_neg s _

section Unpacked

variable {a b : UnpackedFloat} (ha : Fits a) (hb : Fits b) (ha' : a.isFinite = true)
  (hb' : b.isFinite = true)
include ha hb ha' hb'

theorem isNearest_mul : IsNearest (mul .binary64 a b) (unpackedValue a * unpackedValue b) := by
  cases a with
  | notANumber => exact absurd ha' Bool.false_ne_true
  | infinity s => exact absurd ha' Bool.false_ne_true
  | zero s =>
    rw [show unpackedValue (.zero s) = 0 from rfl, zero_mul]
    cases b with
    | notANumber => exact absurd hb' Bool.false_ne_true
    | infinity s => exact absurd hb' Bool.false_ne_true
    | zero s' => exact isNearest_zero _
    | finite s' m' e' hm' => exact isNearest_zero _
  | finite s m e hm =>
    cases b with
    | notANumber => exact absurd hb' Bool.false_ne_true
    | infinity s => exact absurd hb' Bool.false_ne_true
    | zero s' =>
      rw [show unpackedValue (.zero s') = 0 from rfl, mul_zero]
      exact isNearest_zero _
    | finite s' m' e' hm' => exact isNearest_mul_finite hm hm' ha.1 hb.1 s s'

omit ha hb in
theorem isNearest_div (h0 : unpackedValue b ≠ 0) :
    IsNearest (div .binary64 a b) (unpackedValue a / unpackedValue b) := by
  cases b with
  | notANumber => exact absurd hb' Bool.false_ne_true
  | infinity s => exact absurd hb' Bool.false_ne_true
  | zero s => exact absurd rfl h0
  | finite s' m' e' hm' =>
    cases a with
    | notANumber => exact absurd ha' Bool.false_ne_true
    | infinity s => exact absurd ha' Bool.false_ne_true
    | zero s =>
      rw [show unpackedValue (.zero s) = 0 from rfl, zero_div]
      exact isNearest_zero _
    | finite s m e hm => exact isNearest_div_finite hm hm' s s'

theorem isNearest_sub : IsNearest (sub .binary64 a b) (unpackedValue a - unpackedValue b) := by
  cases a with
  | notANumber => exact absurd ha' Bool.false_ne_true
  | infinity s => exact absurd ha' Bool.false_ne_true
  | zero s =>
    rw [show unpackedValue (.zero s) = 0 from rfl, zero_sub]
    cases b with
    | notANumber => exact absurd hb' Bool.false_ne_true
    | infinity s => exact absurd hb' Bool.false_ne_true
    | zero s' =>
      rw [show unpackedValue (.zero s') = 0 from rfl, neg_zero]
      cases s <;> cases s' <;> exact isNearest_zero _
    | finite s' m' e' hm' =>
      rw [← unpackedValue_neg]
      exact isNearest_self (u := .finite (-s') m' e' hm') hb.1 rfl
  | finite s m e hm =>
    cases b with
    | notANumber => exact absurd hb' Bool.false_ne_true
    | infinity s => exact absurd hb' Bool.false_ne_true
    | zero s' =>
      rw [show unpackedValue (.zero s') = 0 from rfl, sub_zero]
      exact isNearest_self (u := .finite s m e hm) ha.1 rfl
    | finite s' m' e' hm' => exact isNearest_sub_finite s s' e e' hm hm'

end Unpacked

/-! ## Doubles -/

/-- What the double nearest to a number stands for. -/
def rounded (q : ℚ) : ℚ := bounded (nearest q)

/-- A double is a number and stands for the one given. -/
structure Denotes (x : Float) (q : ℚ) : Prop where
  isNaN : x.isNaN = false
  value : value x = q

theorem cutOff_ne_notANumber {u : UnpackedFloat} (h : u ≠ .notANumber) :
    cutOff u ≠ .notANumber := by
  cases u with
  | finite s m e hm =>
    show (if 971 < e then UnpackedFloat.infinity s else .finite s m e hm) ≠ _
    by_cases he : 971 < e
    · rw [if_pos he]
      nofun
    · rw [if_neg he]
      nofun
  | _ => exact h

/-- A result in place is packed into the double nearest to the exact one. -/
theorem IsNearest.denotes {u : UnpackedFloat} {q : ℚ} (h : IsNearest u q) :
    Denotes (.ofModel (.pack u)) (rounded q) where
  isNaN := by
    show (Float.Model.pack u).unpack.isNaN = false
    rw [unpack_pack h.inPlace]
    have hne := cutOff_ne_notANumber h.number
    cases hu : cutOff u with
    | notANumber => exact absurd hu hne
    | _ => rfl
  value := by
    show unpackedValue (Float.Model.pack u).unpack = _
    rw [unpack_pack h.inPlace, unpackedValue_cutOff h.inPlace, h.value]
    rfl

section Operations

variable {x y : Float} (hx : x.isFinite = true) (hy : y.isFinite = true)
include hx hy

theorem denotes_mul : Denotes (x * y) (rounded (value x * value y)) :=
  (isNearest_mul (fits_unpack x) (fits_unpack y) hx hy).denotes

theorem denotes_div (h0 : value y ≠ 0) : Denotes (x / y) (rounded (value x / value y)) :=
  (isNearest_div hx hy h0).denotes

theorem denotes_sub : Denotes (x - y) (rounded (value x - value y)) :=
  (isNearest_sub (fits_unpack x) (fits_unpack y) hx hy).denotes

end Operations

theorem denotes_count (n : UInt64) : Denotes n.toFloat (rounded n.toNat) := by
  have h := isNearest_normalize n.toNat 0 .positive
  rw [zpow_zero, mul_one, Int.cast_natCast] at h
  exact h.denotes

theorem cutOff_of_fits {u : UnpackedFloat} (h : Fits u) : cutOff u = u := by
  cases u with
  | finite s m e hm => exact if_neg (not_lt.mpr h.2)
  | _ => rfl

theorem fits_neg {u : UnpackedFloat} (h : Fits u) : Fits u.neg := by
  cases u with
  | finite s m e hm => exact h
  | _ => trivial

theorem unpack_neg (x : Float) : (-x).toModel.unpack = x.toModel.unpack.neg := by
  have hfits := fits_neg (fits_unpack x)
  show (Float.Model.pack x.toModel.unpack.neg).unpack = _
  rw [unpack_pack hfits.inPlace, cutOff_of_fits hfits]

/-- Negation is exact. -/
@[simp] theorem value_neg (x : Float) : value (-x) = -value x := by
  unfold value
  rw [unpack_neg, unpackedValue_neg]

@[simp] theorem isNaN_neg (x : Float) : (-x).isNaN = x.isNaN := by
  show (-x).toModel.unpack.isNaN = x.toModel.unpack.isNaN
  rw [unpack_neg]
  cases x.toModel.unpack <;> rfl

@[simp] theorem isFinite_neg (x : Float) : (-x).isFinite = x.isFinite := by
  show (-x).toModel.unpack.isFinite = x.toModel.unpack.isFinite
  rw [unpack_neg]
  cases x.toModel.unpack <;> rfl

theorem apply_neg (s : Sign) (n : ℤ) : (-s).apply n = -s.apply n := by
  cases s with
  | negative => exact (neg_neg n).symm
  | positive => rfl

/-- A sum is a difference with the sign of one operand turned. -/
theorem add_eq_sub_neg (a b : UnpackedFloat) : add .binary64 a b = sub .binary64 a b.neg := by
  cases b with
  | notANumber => cases a <;> rfl
  | infinity s' => cases a <;> cases s' <;> rfl
  | zero s' => cases a <;> cases s' <;> rfl
  | finite s' m' e' hm' =>
    cases a with
    | finite s m e hm =>
      show _ = UnpackedFloat.normalize .binary64 (s.apply _ - (-s').apply _) _ _
      rw [apply_neg, sub_neg_eq_add]
      rfl
    | _ => cases s' <;> rfl

theorem denotes_add {x y : Float} (hx : x.isFinite = true) (hy : y.isFinite = true) :
    Denotes (x + y) (rounded (value x + value y)) := by
  have h := denotes_sub hx ((isFinite_neg y).trans hy)
  rw [value_neg, sub_neg_eq_add] at h
  have hsum : x + y = x - -y := by
    show Float.ofModel (.pack (add .binary64 x.toModel.unpack y.toModel.unpack))
      = Float.ofModel (.pack (sub .binary64 x.toModel.unpack (-y).toModel.unpack))
    rw [unpack_neg, add_eq_sub_neg]
  rwa [hsum]

/-! ## What rounding keeps -/

theorem rounded_mono {q r : ℚ} (h : q ≤ r) : rounded q ≤ rounded r := bounded_mono (nearest_mono h)

/-- What a double stands for is not rounded. -/
theorem rounded_value {x : Float} (hx : x.isFinite = true) : rounded (value x) = value x := by
  have h := isNearest_self (fits_unpack x).inPlace hx
  unfold rounded
  rw [← show value x = nearest (value x) from h.value]
  exact bounded_of_abs_le (abs_value_le x)

@[simp] theorem value_zero : value 0 = 0 := rfl

@[simp] theorem value_one : value 1 = 1 := by
  show (((2 ^ 52 : ℕ) : ℚ)) * 2 ^ (-52 : ℤ) = 1
  norm_num

theorem isFinite_zero : (0 : Float).isFinite = true := rfl

theorem isFinite_one : (1 : Float).isFinite = true := rfl

@[simp] theorem rounded_zero : rounded 0 = 0 := by
  have h := rounded_value isFinite_zero
  rwa [value_zero] at h

theorem rounded_nonneg {q : ℚ} (h : 0 ≤ q) : 0 ≤ rounded q := by
  have hmono := rounded_mono h
  rwa [rounded_zero] at hmono

/-- A number up to a finite double is rounded to at most that double. -/
theorem rounded_le {q : ℚ} {x : Float} (hx : x.isFinite = true) (h : q ≤ value x) :
    rounded q ≤ value x := by
  have hmono := rounded_mono h
  rwa [rounded_value hx] at hmono

/-- A number from a finite double on is rounded to at least that double. -/
theorem le_rounded {q : ℚ} {x : Float} (hx : x.isFinite = true) (h : value x ≤ q) :
    value x ≤ rounded q := by
  have hmono := rounded_mono h
  rwa [rounded_value hx] at hmono

theorem two_zpow_lt_limit {k : ℤ} (h : k ≤ 1023) : (2 : ℚ) ^ k < limit := by
  unfold limit
  rw [← zpow_natCast]
  exact zpow_lt_zpow_right₀ (by norm_num) (by omega)

/-- Powers of two within the range of the exponent are not rounded. -/
theorem rounded_two_zpow {k : ℤ} (hlow : -1022 ≤ k) (hhigh : k ≤ 1023) :
    rounded (2 ^ k) = 2 ^ k := by
  unfold rounded
  rw [nearest_two_zpow hlow]
  refine bounded_of_abs_le ?_
  rw [abs_of_pos (zpow_two_pos k)]
  exact (two_zpow_lt_limit hhigh).le

theorem rounded_le_two_zpow {q : ℚ} {k : ℤ} (hlow : -1022 ≤ k) (hhigh : k ≤ 1023)
    (h : q ≤ 2 ^ k) : rounded q ≤ 2 ^ k :=
  (rounded_mono h).trans_eq (rounded_two_zpow hlow hhigh)

theorem two_zpow_le_rounded {q : ℚ} {k : ℤ} (hlow : -1022 ≤ k) (hhigh : k ≤ 1023)
    (h : 2 ^ k ≤ q) : 2 ^ k ≤ rounded q :=
  (rounded_two_zpow hlow hhigh).symm.trans_le (rounded_mono h)

namespace Denotes

variable {x y : Float} {q r : ℚ}

theorem of_isNaN (h : x.isNaN = false) : Denotes x (Double.value x) := ⟨h, rfl⟩

theorem isFinite_iff (h : Denotes x q) : x.isFinite = true ↔ |q| < limit := by
  rw [Double.isFinite_iff h.isNaN, h.value]

theorem isFinite_of_le_two_zpow (h : Denotes x q) {k : ℤ} (hk : k ≤ 1023) (h0 : 0 ≤ q)
    (hle : q ≤ 2 ^ k) : x.isFinite = true := by
  rw [h.isFinite_iff, abs_of_nonneg h0]
  exact hle.trans_lt (two_zpow_lt_limit hk)

theorem le_iff (hx : Denotes x q) (hy : Denotes y r) : x ≤ y ↔ q ≤ r := by
  rw [le_iff_value hx.isNaN hy.isNaN, hx.value, hy.value]

theorem lt_iff (hx : Denotes x q) (hy : Denotes y r) : x < y ↔ q < r := by
  rw [lt_iff_value hx.isNaN hy.isNaN, hx.value, hy.value]

end Denotes

/-- What lies between zero and a finite double is finite. -/
theorem isFinite_of_le {x y : Float} (h0 : 0 ≤ x) (hle : x ≤ y) (hfin : y.isFinite = true) :
    x.isFinite = true := by
  obtain ⟨hx, hy⟩ := isNaN_of_le hle
  have hv := (le_iff_value hx hy).mp hle
  have hv0 := (le_iff_value rfl hx).mp h0
  have hlimit := (isFinite_iff hy).mp hfin
  rw [value_zero] at hv0
  rw [abs_of_nonneg (hv0.trans hv)] at hlimit
  rw [isFinite_iff hx, abs_of_nonneg hv0]
  exact hv.trans_lt hlimit

end Placement.Double

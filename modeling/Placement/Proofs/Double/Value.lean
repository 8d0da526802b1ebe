import Placement.Proofs.Double.Fields
import Placement.Proofs.Double.Nearest
/-
  `value x`, what the double `x` stands for: a number with 53 bits if it is finite, and `±2^1024` if
  it is an infinity, where the next double would be.

  * `unpack_pack`: a result that is packed into a double is cut off at these two ends (`cutOff`).
  * `isFinite_iff`: a double that is a number is finite exactly if its value is within them.
  * `lt_iff_value`, `le_iff_value`: the order of doubles that are numbers is that of their values.
-/
namespace Placement.Double

open Float.Model (UnpackedFloat Format)
open Float.Model.UnpackedFloat

/-! ## Unpacked doubles -/

/-- Finite numbers in place; the exponent may be too large for a double. -/
def InPlace : UnpackedFloat → Prop
  | .finite _ m e _ => Canonical m e
  | _ => True

/-- What a double can be unpacked to. -/
def Fits : UnpackedFloat → Prop
  | .finite _ m e _ => Canonical m e ∧ e ≤ 971
  | _ => True

theorem Fits.inPlace {u : UnpackedFloat} (h : Fits u) : InPlace u := by
  cases u with
  | finite s m e hm => exact h.1
  | _ => trivial

theorem toNat_implicit (m : BitVec 52) : (1#1 ++ m).toNat = 2 ^ 52 + m.toNat := by
  rw [BitVec.toNat_append, ← Nat.shiftLeft_add_eq_or_of_lt m.isLt]
  rfl

/-- Every double is unpacked to what fits one. -/
theorem fits_unpack (x : Float) : Fits x.toModel.unpack := by
  generalize hb : x.toModel.toBits.toBitVec = b
  have hm := (@unpackMantissa Format.binary64 b).isLt
  have he := (@unpackExponent Format.binary64 b).isLt
  change _ < 2 ^ 52 at hm
  change _ < 2 ^ 11 at he
  unfold Float.Model.unpack UnpackedFloat.unpack
  rw [hb]
  dsimp only
  by_cases hones : @unpackExponent Format.binary64 b = -1#11
  · rw [if_pos hones]
    split <;> trivial
  · rw [if_neg hones]
    have hlast : (@unpackExponent Format.binary64 b).toNat ≠ 2047 :=
      fun hc => hones (BitVec.eq_of_toNat_eq hc)
    by_cases hzero : @unpackExponent Format.binary64 b = 0#11
    · rw [if_pos hzero]
      by_cases hnone : @unpackMantissa Format.binary64 b = 0#52
      · rw [dif_pos hnone]
        trivial
      · rw [dif_neg hnone]
        have hexp : (@unpackExponent Format.binary64 b).toNat = 0 := by rw [hzero]; rfl
        show Canonical _ _ ∧ _
        rw [hexp]
        exact ⟨⟨by omega, by decide, .inr rfl⟩, by decide⟩
    · rw [if_neg hzero]
      have hfirst : (@unpackExponent Format.binary64 b).toNat ≠ 0 :=
        fun hc => hzero (BitVec.eq_of_toNat_eq hc)
      have hmant := toNat_implicit (@unpackMantissa Format.binary64 b)
      show Canonical (1#1 ++ @unpackMantissa Format.binary64 b).toNat _ ∧ _
      rw [hmant]
      have hbias : ((Format.binary64.exponentBias : ℤ)
        + (Format.binary64.mantissaBitsWithoutImplicit : ℤ)) = 1075 := rfl
      rw [hbias]
      exact ⟨⟨by omega, by omega, .inl (by omega)⟩, by omega⟩

/-- A number too large for a double becomes infinite. -/
def cutOff : UnpackedFloat → UnpackedFloat
  | .finite s m e hm => if 971 < e then .infinity s else .finite s m e hm
  | u => u

/-- The components that are put together are those that are read. -/
theorem unpack_packComponents (s : Sign) (e : BitVec 11) (m : BitVec 52) :
    Sign.ofBitVec (@unpackSign Format.binary64 (packComponents .binary64 s e m)) = s ∧
      @unpackExponent Format.binary64 (packComponents .binary64 s e m) = e ∧
      @unpackMantissa Format.binary64 (packComponents .binary64 s e m) = m := by
  refine ⟨?_, unpackExponent_packComponents, unpackMantissa_packComponents⟩
  show Sign.ofBitVec (BitVec.extractLsb' 63 1 ((s.toBitVec ++ e) ++ m)) = s
  rw [BitVec.extractLsb'_append_eq_of_le (by decide),
    BitVec.extractLsb'_append_eq_of_le (by decide)]
  cases s <;> rfl

theorem toNat_biasedExponent (e : ℤ) :
    (e + (Format.binary64.exponentBias : ℤ)
      + (Format.binary64.mantissaBitsWithoutImplicit : ℤ)).toNat = (e + 1075).toNat := by
  show (e + (1023 : ℤ) + (52 : ℤ)).toNat = _
  omega

section Pack

variable (s : Sign) {m : ℕ} {e : ℤ} (hm : 0 < m)

theorem pack_large (h : 971 < e) :
    UnpackedFloat.pack .binary64 (.finite s m e hm) = packedInfinity .binary64 s := by
  unfold UnpackedFloat.pack
  dsimp only
  rw [toNat_biasedExponent, if_pos (by show 2 ^ 11 ≤ _; omega)]

/-- Normal numbers leave out the bit that is always set. -/
theorem pack_normal (hlt : m < 2 ^ 53) (hfull : 2 ^ 52 ≤ m) (h : e ≤ 971) :
    UnpackedFloat.pack .binary64 (.finite s m e hm)
      = packComponents .binary64 s (BitVec.ofNat 11 (e + 1075).toNat) (BitVec.ofNat 52 m) := by
  have hlog : m.log2 + 1 = Format.binary64.mantissaBits := by
    have h1 := (Nat.le_log2 hm.ne').mpr hfull
    have h2 := (Nat.log2_lt hm.ne').mpr hlt
    show m.log2 + 1 = 53
    omega
  unfold UnpackedFloat.pack
  dsimp only
  rw [toNat_biasedExponent, if_neg (by show ¬ 2 ^ 11 ≤ _; omega), if_pos hlog]

/-- Numbers below all normal ones have the exponent field zero. -/
theorem pack_subnormal (hlt : m < 2 ^ 52) :
    UnpackedFloat.pack .binary64 (.finite s m (-1074) hm)
      = packComponents .binary64 s 0#11 (BitVec.ofNat 52 m) := by
  have hlog : m.log2 + 1 ≠ Format.binary64.mantissaBits := by
    have h2 := (Nat.log2_lt hm.ne').mpr hlt
    show m.log2 + 1 ≠ 53
    omega
  unfold UnpackedFloat.pack
  dsimp only
  rw [toNat_biasedExponent, if_neg (by decide), if_neg hlog]

theorem unpack_normal (hlt : m < 2 ^ 53) (hfull : 2 ^ 52 ≤ m) (hlow : -1074 ≤ e) (h : e ≤ 971) :
    UnpackedFloat.unpack .binary64
        (packComponents .binary64 s (BitVec.ofNat 11 (e + 1075).toNat) (BitVec.ofNat 52 m))
      = .finite s m e hm := by
  have hexp : (BitVec.ofNat 11 (e + 1075).toNat).toNat = (e + 1075).toNat := by
    rw [BitVec.toNat_ofNat, Nat.mod_eq_of_lt (by omega)]
  have hones : BitVec.ofNat 11 (e + 1075).toNat ≠ -1#11 := by
    intro hc
    have hnat := congrArg BitVec.toNat hc
    rw [hexp] at hnat
    change (e + 1075).toNat = 2047 at hnat
    omega
  have hzero : BitVec.ofNat 11 (e + 1075).toNat ≠ 0#11 := by
    intro hc
    have hnat := congrArg BitVec.toNat hc
    rw [hexp] at hnat
    change (e + 1075).toNat = 0 at hnat
    omega
  have hmant : (1#1 ++ BitVec.ofNat 52 m).toNat = m := by
    rw [toNat_implicit, BitVec.toNat_ofNat]
    omega
  obtain ⟨hs, hE, hM⟩ := unpack_packComponents s (BitVec.ofNat 11 (e + 1075).toNat)
    (BitVec.ofNat 52 m)
  generalize packComponents .binary64 s _ _ = b at hs hE hM ⊢
  rw [← hE] at hones hzero hexp
  rw [← hM] at hmant
  unfold UnpackedFloat.unpack
  dsimp only
  rw [if_neg hones, if_neg hzero, UnpackedFloat.finite.injEq]
  refine ⟨hs, hmant, ?_⟩
  show ((@unpackExponent Format.binary64 b).toNat : ℤ) - (1023 + 52) = e
  omega

theorem unpack_subnormal (hlt : m < 2 ^ 52) :
    UnpackedFloat.unpack .binary64 (packComponents .binary64 s 0#11 (BitVec.ofNat 52 m))
      = .finite s m (-1074) hm := by
  have hmant : (BitVec.ofNat 52 m).toNat = m := by
    rw [BitVec.toNat_ofNat, Nat.mod_eq_of_lt hlt]
  have hzero : BitVec.ofNat 52 m ≠ 0#52 := by
    intro hc
    have hnat := congrArg BitVec.toNat hc
    rw [hmant] at hnat
    exact hm.ne' hnat
  obtain ⟨hs, hE, hM⟩ := unpack_packComponents s 0#11 (BitVec.ofNat 52 m)
  generalize packComponents .binary64 s _ _ = b at hs hE hM ⊢
  rw [← hM] at hmant hzero
  unfold UnpackedFloat.unpack
  dsimp only
  rw [if_neg (by rw [hE]; decide), if_pos hE, dif_neg hzero, UnpackedFloat.finite.injEq]
  refine ⟨hs, hmant, ?_⟩
  rw [hE]
  rfl

end Pack

/-- What is in place is packed and unpacked again, and only cut off. -/
theorem unpack_pack {u : UnpackedFloat} (h : InPlace u) :
    (Float.Model.pack u).unpack = cutOff u := by
  cases u with
  | notANumber => rfl
  | infinity s => cases s <;> rfl
  | zero s => cases s <;> rfl
  | finite s m e hm =>
    obtain ⟨hlt, hlow, hfull⟩ : Canonical m e := h
    show UnpackedFloat.unpack _ (UnpackedFloat.pack _ (.finite s m e hm))
      = if 971 < e then .infinity s else .finite s m e hm
    by_cases hbig : 971 < e
    · rw [if_pos hbig, pack_large s hm hbig]
      cases s <;> rfl
    · rw [if_neg hbig]
      by_cases hnormal : 2 ^ 52 ≤ m
      · rw [pack_normal s hm hlt hnormal (not_lt.mp hbig)]
        exact unpack_normal s hm hlt hnormal hlow (not_lt.mp hbig)
      · obtain rfl := hfull.resolve_left hnormal
        rw [pack_subnormal s hm (not_le.mp hnormal)]
        exact unpack_subnormal s hm (not_le.mp hnormal)

/-! ## Values -/

/-- A magnitude under a sign. -/
def withSign : Sign → ℚ → ℚ
  | .negative, q => -q
  | .positive, q => q

/-- Where the infinities stand: at the next number after the greatest finite double. -/
@[irreducible] def limit : ℚ := 2 ^ 1024

/-- What an unpacked double stands for. -/
def unpackedValue : UnpackedFloat → ℚ
  | .notANumber => 0
  | .infinity s => withSign s limit
  | .zero _ => 0
  | .finite s m e _ => withSign s (m * 2 ^ e)

/-- The number that a double stands for. -/
def value (x : Float) : ℚ := unpackedValue x.toModel.unpack

/-- A number between the two infinities. -/
def bounded (q : ℚ) : ℚ := max (-limit) (min q limit)

theorem limit_pos : 0 < limit := by
  unfold limit
  positivity

theorem bounded_mono {q r : ℚ} (h : q ≤ r) : bounded q ≤ bounded r :=
  max_le_max le_rfl (min_le_min_right limit h)

theorem bounded_of_abs_le {q : ℚ} (h : |q| ≤ limit) : bounded q = q := by
  obtain ⟨hlow, hhigh⟩ := abs_le.mp h
  unfold bounded
  rw [min_eq_left hhigh, max_eq_right hlow]

theorem bounded_neg (q : ℚ) : bounded (-q) = -bounded q := by
  have hlimit := limit_pos
  unfold bounded
  rcases le_total q limit with h | h
  · rcases le_total (-limit) q with h' | h'
    · rw [min_eq_left h, max_eq_right h', min_eq_left (by linarith), max_eq_right (by linarith)]
    · rw [min_eq_left h, max_eq_left h', min_eq_right (by linarith), max_eq_right (by linarith),
        neg_neg]
  · rw [min_eq_right h, max_eq_right (show -limit ≤ limit by linarith),
      min_eq_left (show -q ≤ limit by linarith), max_eq_left (show -q ≤ -limit by linarith)]

theorem bounded_of_limit_le {q : ℚ} (h : limit ≤ q) : bounded q = limit := by
  have hlimit := limit_pos
  unfold bounded
  rw [min_eq_right h, max_eq_right (by linarith)]

@[simp] theorem abs_withSign (s : Sign) (q : ℚ) : |withSign s q| = |q| := by
  cases s with
  | negative => exact abs_neg q
  | positive => rfl

theorem bounded_withSign (s : Sign) (q : ℚ) : bounded (withSign s q) = withSign s (bounded q) := by
  cases s with
  | negative => exact bounded_neg q
  | positive => rfl

/-- Numbers with an exponent in range are within the limit. -/
theorem Canonical.lt_limit {m : ℕ} {e : ℤ} (h : Canonical m e) (he : e ≤ 971) :
    (m : ℚ) * 2 ^ e < limit := by
  have hm : (m : ℚ) < 2 ^ 53 := by exact_mod_cast h.lt
  have hpow : (2 : ℚ) ^ e ≤ 2 ^ (971 : ℤ) := zpow_le_zpow_right₀ (by norm_num) he
  calc (m : ℚ) * 2 ^ e < 2 ^ 53 * 2 ^ e := mul_lt_mul_of_pos_right hm (zpow_two_pos e)
    _ ≤ 2 ^ 53 * 2 ^ (971 : ℤ) := mul_le_mul_of_nonneg_left hpow (by positivity)
    _ = limit := by
      unfold limit
      rw [← zpow_natCast, ← zpow_natCast, ← zpow_add₀ (by norm_num)]
      rfl

/-- All others are not. -/
theorem Canonical.limit_le {m : ℕ} {e : ℤ} (h : Canonical m e) (he : 971 < e) :
    limit ≤ (m : ℚ) * 2 ^ e := by
  have hm : (2 : ℚ) ^ 52 ≤ m := by
    rcases h.full with hfull | hlow
    · exact_mod_cast hfull
    · omega
  have hpow : (2 : ℚ) ^ (972 : ℤ) ≤ 2 ^ e := zpow_le_zpow_right₀ (by norm_num) he
  calc limit = 2 ^ 52 * 2 ^ (972 : ℤ) := by
        unfold limit
        rw [← zpow_natCast, ← zpow_natCast, ← zpow_add₀ (by norm_num)]
        rfl
    _ ≤ 2 ^ 52 * 2 ^ e := mul_le_mul_of_nonneg_left hpow (by positivity)
    _ ≤ m * 2 ^ e := mul_le_mul_of_nonneg_right hm (zpow_two_pos e).le

theorem magnitude_nonneg (m : ℕ) (e : ℤ) : (0 : ℚ) ≤ m * 2 ^ e :=
  mul_nonneg (Nat.cast_nonneg m) (zpow_two_pos e).le

theorem magnitude_pos {m : ℕ} (hm : 0 < m) (e : ℤ) : (0 : ℚ) < m * 2 ^ e :=
  mul_pos (Nat.cast_pos.mpr hm) (zpow_two_pos e)

/-- Cutting off is done at the limit. -/
theorem unpackedValue_cutOff {u : UnpackedFloat} (h : InPlace u) :
    unpackedValue (cutOff u) = bounded (unpackedValue u) := by
  have hlimit := limit_pos
  cases u with
  | notANumber => exact (bounded_of_abs_le (abs_zero.trans_le hlimit.le)).symm
  | zero s => exact (bounded_of_abs_le (abs_zero.trans_le hlimit.le)).symm
  | infinity s =>
    refine (bounded_of_abs_le ?_).symm
    show |withSign s limit| ≤ limit
    rw [abs_withSign, abs_of_pos hlimit]
  | finite s m e hm =>
    have hc : Canonical m e := h
    show unpackedValue (if 971 < e then .infinity s else .finite s m e hm)
      = bounded (withSign s (m * 2 ^ e))
    rw [bounded_withSign]
    by_cases he : 971 < e
    · rw [if_pos he, bounded_of_limit_le (hc.limit_le he)]
      rfl
    · rw [if_neg he, bounded_of_abs_le]
      · rfl
      · rw [abs_of_nonneg (magnitude_nonneg m e)]
        exact (hc.lt_limit (not_lt.mp he)).le

/-- Finite doubles are the ones within the limit. -/
theorem isFinite_iff_abs_lt {u : UnpackedFloat} (h : Fits u) (hn : u ≠ .notANumber) :
    u.isFinite = true ↔ |unpackedValue u| < limit := by
  have hlimit := limit_pos
  cases u with
  | notANumber => exact absurd rfl hn
  | zero s => exact iff_of_true rfl (abs_zero.trans_lt hlimit)
  | infinity s =>
    refine iff_of_false Bool.false_ne_true ?_
    show ¬ |withSign s limit| < limit
    rw [abs_withSign, abs_of_pos hlimit]
    exact lt_irrefl _
  | finite s m e hm =>
    refine iff_of_true rfl ?_
    show |withSign s (m * 2 ^ e)| < limit
    rw [abs_withSign, abs_of_nonneg (magnitude_nonneg m e)]
    exact h.1.lt_limit h.2

theorem isFinite_iff {x : Float} (hn : x.isNaN = false) :
    x.isFinite = true ↔ |value x| < limit :=
  isFinite_iff_abs_lt (fits_unpack x) (unpack_ne_notANumber hn)

theorem abs_value_le (x : Float) : |value x| ≤ limit := by
  have hlimit := limit_pos
  have hfits := fits_unpack x
  unfold value
  cases hu : x.toModel.unpack with
  | notANumber => exact abs_zero.trans_le hlimit.le
  | zero s => exact abs_zero.trans_le hlimit.le
  | infinity s =>
    show |withSign s limit| ≤ limit
    rw [abs_withSign, abs_of_pos hlimit]
  | finite s m e hm =>
    rw [hu] at hfits
    exact ((isFinite_iff_abs_lt hfits nofun).mp rfl).le

/-! ## Order -/

theorem toLex_lt_iff {α β : Type} [LinearOrder α] [LinearOrder β] (a₁ a₂ : α) (b₁ b₂ : β) :
    toLex (a₁, b₁) < toLex (a₂, b₂) ↔ a₁ < a₂ ∨ a₁ = a₂ ∧ b₁ < b₂ := Prod.Lex.toLex_lt_toLex

/-- Among canonical numbers a greater exponent or mantissa makes a greater number. -/
theorem magnitude_lt {m m' : ℕ} {e e' : ℤ} (h : Canonical m e) (h' : Canonical m' e')
    (hlt : toLex (e, (m : ℤ)) < toLex (e', (m' : ℤ))) : (m : ℚ) * 2 ^ e < m' * 2 ^ e' := by
  rcases (toLex_lt_iff _ _ _ _).mp hlt with he | ⟨rfl, hm⟩
  · exact h.lt_of_exponent_lt h' he
  · exact mul_lt_mul_of_pos_right (by exact_mod_cast hm) (zpow_two_pos e)

/-- The ranks of doubles and what they stand for. -/
inductive Stands : ℤ ×ₗ ℤ ×ₗ ℤ → ℚ → Prop
  | below : Stands (toLex (-2, toLex (0, 0))) (-limit)
  | negative {m : ℕ} {e : ℤ} (hm : 0 < m) (hc : Canonical m e) (he : e ≤ 971) :
    Stands (toLex (-1, toLex (-e, -(m : ℤ)))) (-(m * 2 ^ e))
  | zero : Stands (toLex (0, toLex (0, 0))) 0
  | positive {m : ℕ} {e : ℤ} (hm : 0 < m) (hc : Canonical m e) (he : e ≤ 971) :
    Stands (toLex (1, toLex (e, (m : ℤ)))) (m * 2 ^ e)
  | above : Stands (toLex (2, toLex (0, 0))) limit

theorem stands_unpacked {u : UnpackedFloat} (h : Fits u) :
    Stands (unpackedRank u) (unpackedValue u) := by
  cases u with
  | notANumber => exact .zero
  | zero s => exact .zero
  | infinity s =>
    cases s with
    | negative => exact .below
    | positive => exact .above
  | finite s m e hm =>
    cases s with
    | negative => exact .negative hm h.1 h.2
    | positive => exact .positive hm h.1 h.2

namespace Stands

variable {side side' : ℤ} {place place' : ℤ ×ₗ ℤ} {v v' : ℚ}

/-- The first place of a rank tells the side of zero, and what is infinite. -/
theorem side_cases (h : Stands (toLex (side, place)) v) :
    side = -2 ∧ v = -limit ∨ side = -1 ∧ -limit < v ∧ v < 0 ∨ side = 0 ∧ v = 0 ∨
      side = 1 ∧ 0 < v ∧ v < limit ∨ side = 2 ∧ v = limit := by
  cases h with
  | below => exact .inl ⟨rfl, rfl⟩
  | negative hm hc he =>
    have hpos := magnitude_pos hm
    exact .inr (.inl ⟨rfl, neg_lt_neg (hc.lt_limit he), neg_lt_zero.mpr (hpos _)⟩)
  | zero => exact .inr (.inr (.inl ⟨rfl, rfl⟩))
  | positive hm hc he =>
    exact .inr (.inr (.inr (.inl ⟨rfl, magnitude_pos hm _, hc.lt_limit he⟩)))
  | above => exact .inr (.inr (.inr (.inr ⟨rfl, rfl⟩)))

theorem lt_of_side_lt (h : Stands (toLex (side, place)) v) (h' : Stands (toLex (side', place')) v')
    (hlt : side < side') : v < v' := by
  have hlimit := limit_pos
  rcases h.side_cases with h | h | h | h | h <;>
    rcases h'.side_cases with h' | h' | h' | h' | h' <;>
    first
    | omega
    | linarith

/-- On one side only finite numbers differ. -/
theorem lt_of_place_lt (h : Stands (toLex (side, place)) v) (h' : Stands (toLex (side, place')) v')
    (hlt : place < place') : v < v' := by
  cases h with
  | negative hm hc he =>
    cases h' with
    | negative hm' hc' he' =>
      refine neg_lt_neg (magnitude_lt hc' hc ((toLex_lt_iff _ _ _ _).mpr ?_))
      rcases (toLex_lt_iff _ _ _ _).mp hlt with h | ⟨h, hm⟩ <;> omega
  | positive hm hc he =>
    cases h' with
    | positive hm' hc' he' => exact magnitude_lt hc hc' hlt
  | below =>
    cases h'
    exact absurd hlt (lt_irrefl _)
  | zero =>
    cases h'
    exact absurd hlt (lt_irrefl _)
  | above =>
    cases h'
    exact absurd hlt (lt_irrefl _)

theorem lt {r r' : ℤ ×ₗ ℤ ×ₗ ℤ} (h : Stands r v) (h' : Stands r' v') (hlt : r < r') : v < v' := by
  rcases (toLex_lt_iff _ _ _ _).mp hlt with hside | ⟨hside, hplace⟩
  · exact lt_of_side_lt h h' hside
  · refine lt_of_place_lt h ?_ hplace
    rw [hside]
    exact h'

theorem eq_of_negative {a b : ℤ} (h : Stands (toLex (-1, toLex (a, b))) v) :
    v = b * 2 ^ (-a) := by
  cases h with
  | negative hm hc he =>
    rw [neg_neg]
    push_cast
    ring

theorem eq_of_positive {a b : ℤ} (h : Stands (toLex (1, toLex (a, b))) v) : v = b * 2 ^ a := by
  cases h
  push_cast
  rfl

theorem unique {r : ℤ ×ₗ ℤ ×ₗ ℤ} (h : Stands r v) (h' : Stands r v') : v = v' := by
  cases h with
  | negative hm hc he =>
    rw [h'.eq_of_negative, neg_neg]
    push_cast
    ring
  | positive hm hc he =>
    rw [h'.eq_of_positive]
    push_cast
    rfl
  | below => cases h'; rfl
  | zero => cases h'; rfl
  | above => cases h'; rfl

theorem lt_iff {r r' : ℤ ×ₗ ℤ ×ₗ ℤ} (h : Stands r v) (h' : Stands r' v') : r < r' ↔ v < v' := by
  constructor
  · exact h.lt h'
  · intro hv
    rcases lt_trichotomy r r' with hr | rfl | hr
    · exact hr
    · exact absurd (h.unique h') hv.ne
    · exact absurd (h'.lt h hr) hv.asymm

end Stands

/-- Among numbers, less means to stand for less. -/
theorem lt_iff_value {x y : Float} (hx : x.isNaN = false) (hy : y.isNaN = false) :
    x < y ↔ value x < value y := by
  rw [lt_iff_rank hx hy]
  exact (stands_unpacked (fits_unpack x)).lt_iff (stands_unpacked (fits_unpack y))

/-- Among numbers, at most means to stand for at most. -/
theorem le_iff_value {x y : Float} (hx : x.isNaN = false) (hy : y.isNaN = false) :
    x ≤ y ↔ value x ≤ value y := by
  rw [← not_lt_iff_le hy hx, lt_iff_value hy hx, not_lt]

end Placement.Double

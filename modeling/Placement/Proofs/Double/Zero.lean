import Mathlib.Data.List.Forall2
import Placement.Proofs.Double.Arithmetic
/-
  Zeros of either sign. `Alike x y`: the doubles are equal, or both are zero. Products and quotients
  of alike doubles are alike (`Alike.mul`, `Alike.div`). A sum that starts at 0 never becomes the
  negative zero, and to any other double either zero adds nothing, so sums of alike doubles are
  equal (`sum_eq`, given a start that is not the negative zero).
-/
namespace Placement.Double

open Float.Model (UnpackedFloat Format)
open Float.Model.UnpackedFloat

/-- A double is zero, of either sign. -/
def IsZero (x : Float) : Prop := ∃ s, x.toModel.unpack = .zero s

/-- A double is the negative zero. -/
def IsMinusZero (x : Float) : Prop := x.toModel.unpack = .zero .negative

/-- Two doubles are equal, but for the sign of a zero. -/
def Alike (x y : Float) : Prop := x = y ∨ IsZero x ∧ IsZero y

theorem isZero_zero : IsZero 0 := ⟨.positive, rfl⟩

theorem not_isMinusZero_zero : ¬ IsMinusZero 0 := by
  unfold IsMinusZero
  rw [show (0 : Float).toModel.unpack = .zero .positive from rfl]
  nofun

/-- What compares equal to zero is one. -/
theorem isZero_of_beq {x : Float} (h : (x == 0) = true) : IsZero x := by
  have hbeq : (x.toModel.unpack.compare (.zero .positive) == some .eq) = true := h
  unfold IsZero
  cases hx : x.toModel.unpack with
  | zero s => exact ⟨s, rfl⟩
  | notANumber =>
    rw [hx] at hbeq
    exact nomatch hbeq
  | infinity s =>
    rw [hx] at hbeq
    cases s <;> exact nomatch hbeq
  | finite s m e hm =>
    rw [hx] at hbeq
    cases s <;> exact nomatch hbeq

/-- A result in place is the double it is packed into, and only cut off. -/
theorem unpack_ofModel_pack {u : UnpackedFloat} (h : InPlace u) :
    (Float.ofModel (.pack u)).toModel.unpack = cutOff u := unpack_pack h

theorem isZero_pack (s : Sign) : IsZero (.ofModel (.pack (.zero s))) :=
  ⟨s, unpack_ofModel_pack (u := .zero s) trivial⟩

namespace Alike

variable {x x' y y' : Float}

theorem refl (x : Float) : Alike x x := .inl rfl

theorem trans {z : Float} (h : Alike x y) (h' : Alike y z) : Alike x z := by
  rcases h with rfl | ⟨hx, hy⟩
  · exact h'
  rcases h' with rfl | ⟨-, hz⟩
  · exact .inr ⟨hx, hy⟩
  · exact .inr ⟨hx, hz⟩

theorem isFinite_eq (h : Alike x y) : x.isFinite = y.isFinite := by
  rcases h with rfl | ⟨⟨s, hs⟩, s', hs'⟩
  · rfl
  · show x.toModel.unpack.isFinite = y.toModel.unpack.isFinite
    rw [hs, hs']
    rfl

/-! ## Products and quotients -/

theorem mul_right (x : Float) (h : Alike y y') : Alike (x * y) (x * y') := by
  rcases h with rfl | ⟨⟨s, hs⟩, s', hs'⟩
  · exact refl _
  show Alike (.ofModel (.pack (mul .binary64 x.toModel.unpack y.toModel.unpack)))
    (.ofModel (.pack (mul .binary64 x.toModel.unpack y'.toModel.unpack)))
  rw [hs, hs']
  cases x.toModel.unpack with
  | notANumber => exact refl _
  | infinity => exact refl _
  | zero => exact .inr ⟨isZero_pack _, isZero_pack _⟩
  | finite => exact .inr ⟨isZero_pack _, isZero_pack _⟩

theorem mul_left (h : Alike x x') (y : Float) : Alike (x * y) (x' * y) := by
  rcases h with rfl | ⟨⟨s, hs⟩, s', hs'⟩
  · exact refl _
  show Alike (.ofModel (.pack (mul .binary64 x.toModel.unpack y.toModel.unpack)))
    (.ofModel (.pack (mul .binary64 x'.toModel.unpack y.toModel.unpack)))
  rw [hs, hs']
  cases y.toModel.unpack with
  | notANumber => exact refl _
  | infinity => exact refl _
  | zero => exact .inr ⟨isZero_pack _, isZero_pack _⟩
  | finite => exact .inr ⟨isZero_pack _, isZero_pack _⟩

theorem mul (h : Alike x x') (h' : Alike y y') : Alike (x * y) (x' * y') :=
  (mul_left h y).trans (mul_right x' h')

theorem div (h : Alike x x') (y : Float) : Alike (x / y) (x' / y) := by
  rcases h with rfl | ⟨⟨s, hs⟩, s', hs'⟩
  · exact refl _
  show Alike (.ofModel (.pack (UnpackedFloat.div .binary64 x.toModel.unpack y.toModel.unpack)))
    (.ofModel (.pack (UnpackedFloat.div .binary64 x'.toModel.unpack y.toModel.unpack)))
  rw [hs, hs']
  cases y.toModel.unpack with
  | notANumber => exact refl _
  | infinity => exact .inr ⟨isZero_pack _, isZero_pack _⟩
  | zero => exact refl _
  | finite => exact .inr ⟨isZero_pack _, isZero_pack _⟩

end Alike

/-! ## Sums -/

/-- Only zero is rounded to zero: a multiple of the lowest place is none of the numbers below it. -/
theorem eq_zero_of_nearest {m e : ℤ} (he : -1074 ≤ e) (h : nearest (m * 2 ^ e) = 0) : m = 0 := by
  have hlowest : nearest (2 ^ (-1074 : ℤ)) = 2 ^ (-1074 : ℤ) := by
    have hcanonical : Canonical 1 (-1074) := ⟨by norm_num, le_rfl, .inr rfl⟩
    have hnearest := hcanonical.nearest_eq
    rwa [Nat.cast_one, one_mul] at hnearest
  -- a positive multiple is at least the lowest place, which rounds to itself
  have hpos : ∀ k : ℤ, 0 < k → nearest (k * 2 ^ e) ≠ 0 := by
    intro k hk
    have hone : (1 : ℚ) ≤ k := by exact_mod_cast hk
    have hpow : (2 : ℚ) ^ (-1074 : ℤ) ≤ 2 ^ e := zpow_le_zpow_right₀ (by norm_num) he
    have hle : (2 : ℚ) ^ (-1074 : ℤ) ≤ k * 2 ^ e :=
      hpow.trans (le_mul_of_one_le_left (zpow_two_pos e).le hone)
    have hmono := nearest_mono hle
    rw [hlowest] at hmono
    exact ((zpow_two_pos (-1074)).trans_le hmono).ne'
  rcases lt_trichotomy m 0 with hm | hm | hm
  · have hneg := hpos (-m) (by omega)
    rw [Int.cast_neg, neg_mul, nearest_neg, h, neg_zero] at hneg
    exact absurd rfl hneg
  · exact hm
  · exact absurd h (hpos m hm)

theorem eq_zero_of_cutOff {u : UnpackedFloat} {s : Sign} (h : cutOff u = .zero s) :
    u = .zero s := by
  cases u with
  | finite s' m e hm =>
    have hcut : (if 971 < e then UnpackedFloat.infinity s' else .finite s' m e hm) = .zero s := h
    by_cases he : 971 < e
    · rw [if_pos he] at hcut
      exact nomatch hcut
    · rw [if_neg he] at hcut
      exact nomatch hcut
  | _ => exact h

/-- The sum of two finite numbers is in place, and is the positive zero where they cancel. -/
theorem add_finite (s s' : Sign) {m m' : ℕ} {e e' : ℤ} (hm : 0 < m) (hm' : 0 < m')
    (he : -1074 ≤ e) (he' : -1074 ≤ e') :
    InPlace (add .binary64 (.finite s m e hm) (.finite s' m' e' hm')) ∧
      add .binary64 (.finite s m e hm) (.finite s' m' e' hm') ≠ .zero .negative := by
  unfold add
  dsimp only
  generalize s.apply _ + s'.apply _ = n
  have hnearest := isNearest_normalize n (min e e') .positive
  refine ⟨hnearest.inPlace, fun hzero => ?_⟩
  have hvalue := hnearest.value
  rw [hzero] at hvalue
  cases eq_zero_of_nearest (le_min he he') hvalue.symm
  exact nomatch hzero

theorem add_unpacked {a b : UnpackedFloat} (ha : Fits a) (hb : Fits b)
    (hne : a ≠ .zero .negative) :
    InPlace (add .binary64 a b) ∧ add .binary64 a b ≠ .zero .negative := by
  cases a with
  | notANumber => cases b <;> exact ⟨trivial, nofun⟩
  | infinity s =>
    cases b with
    | infinity s' => cases s <;> cases s' <;> exact ⟨trivial, nofun⟩
    | _ => exact ⟨trivial, nofun⟩
  | zero s =>
    cases b with
    | notANumber | infinity => exact ⟨trivial, nofun⟩
    | finite => exact ⟨hb.inPlace, nofun⟩
    | zero s' =>
      cases s with
      | negative => exact absurd rfl hne
      | positive => cases s' <;> exact ⟨trivial, nofun⟩
  | finite s m e hm =>
    cases b with
    | notANumber | infinity => exact ⟨trivial, nofun⟩
    | zero => exact ⟨ha.inPlace, nofun⟩
    | finite s' m' e' hm' => exact add_finite s s' hm hm' ha.1.lowest_le hb.1.lowest_le

/-- A sum is the negative zero only where its first term is. -/
theorem not_isMinusZero_add {x : Float} (hx : ¬ IsMinusZero x) (y : Float) :
    ¬ IsMinusZero (x + y) := by
  obtain ⟨hplace, hne⟩ := add_unpacked (fits_unpack x) (fits_unpack y) hx
  intro hsum
  exact hne (eq_zero_of_cutOff ((unpack_ofModel_pack hplace).symm.trans hsum))

/-- To what is not the negative zero, either zero adds nothing. -/
theorem add_zero_eq {x z z' : Float} (hx : ¬ IsMinusZero x) (hz : IsZero z) (hz' : IsZero z') :
    x + z = x + z' := by
  obtain ⟨s, hs⟩ := hz
  obtain ⟨s', hs'⟩ := hz'
  show Float.ofModel (.pack (add .binary64 x.toModel.unpack z.toModel.unpack))
    = .ofModel (.pack (add .binary64 x.toModel.unpack z'.toModel.unpack))
  rw [hs, hs']
  unfold IsMinusZero at hx
  cases hu : x.toModel.unpack with
  | notANumber => rfl
  | infinity => rfl
  | finite => rfl
  | zero s'' =>
    cases s'' with
    | negative => exact absurd hu hx
    | positive => cases s <;> cases s' <;> rfl

/-- Sums of alike doubles are equal. -/
theorem sum_eq {xs ys : List Float} (h : List.Forall₂ Alike xs ys) {start : Float}
    (hstart : ¬ IsMinusZero start) :
    xs.foldl (· + ·) start = ys.foldl (· + ·) start := by
  induction h generalizing start with
  | nil => rfl
  | @cons x y _ _ hxy _ ih =>
    have hfirst : start + x = start + y := by
      rcases hxy with rfl | ⟨hx, hy⟩
      · rfl
      · exact add_zero_eq hstart hx hy
    rw [List.foldl_cons, List.foldl_cons, hfirst]
    exact ih (not_isMinusZero_add hstart y)

end Placement.Double

import Placement.Proofs.Decimal.ReadBack
import Placement.Proofs.Decimal.Significand
import Placement.Proofs.Double.Integral
import Placement.Proofs.Json.Numeral
import Placement.Proofs.Json.RoundTrip
/-
  Printed doubles. `exists_numeral`: a finite double is printed as a numeral of JSON, with a point
  or an exponent in it, so that it is read as a double again, if not always as the same one; the
  reader may refuse it only beyond half of `Decimal.ceiling`. `exists_pointed`: in the layout of
  TOML it is printed with a fraction and no exponent, and the double nearest to that numeral is the
  one that was printed.
-/
namespace Placement.Json

open Decimal (Scaled Literal ceiling)

/-! ## Numerals of decimals -/

/-- The digits of a natural number. -/
def Digits.ofNat (n : ℕ) : Digits :=
  ⟨Nat.toDigits 10 n, Nat.toDigits_ne_nil, fun _ h => Decimal.isDigit_toDigits h⟩

/-- Zeros before digits. -/
def Digits.padded (zeros : ℕ) (d : Digits) : Digits where
  chars := List.replicate zeros '0' ++ d.chars
  nonempty := List.append_ne_nil_of_right_ne_nil _ d.nonempty
  areDigits c h := by
    rcases List.mem_append.mp h with h | h
    · rw [List.eq_of_mem_replicate h]
      rfl
    · exact d.areDigits c h

/-- Digits with zeros behind them. -/
def Digits.scaled (d : Digits) (zeros : ℕ) : Digits where
  chars := d.chars ++ List.replicate zeros '0'
  nonempty := List.append_ne_nil_of_left_ne_nil d.nonempty _
  areDigits c h := by
    rcases List.mem_append.mp h with h | h
    · exact d.areDigits c h
    · rw [List.eq_of_mem_replicate h]
      rfl

/-- The first digits, one at least. -/
def Digits.take (d : Digits) (n : ℕ) (h : 0 < n) : Digits where
  chars := d.chars.take n
  nonempty := by
    obtain ⟨c, rest, hd, -⟩ := d.exists_cons
    obtain ⟨k, rfl⟩ := Nat.exists_eq_succ_of_ne_zero h.ne'
    rw [hd]
    exact List.cons_ne_nil _ _
  areDigits c hc := d.areDigits c (List.mem_of_mem_take hc)

/-- The digits behind the first ones. -/
def Digits.drop (d : Digits) (n : ℕ) (h : n < d.chars.length) : Digits where
  chars := d.chars.drop n
  nonempty := by
    rw [Ne, List.drop_eq_nil_iff]
    omega
  areDigits c hc := d.areDigits c (List.mem_of_mem_drop hc)

/-- The digits behind the first one, if there are any. -/
def Digits.tail? (d : Digits) : Option Digits :=
  if h : 1 < d.chars.length then some (d.drop 1 h) else none

theorem Digits.chars_tail? (d : Digits) : (d.tail?.map Digits.chars).getD [] = d.chars.drop 1 := by
  unfold tail?
  split_ifs with h
  · rfl
  · exact (List.drop_eq_nil_iff.mpr (not_lt.mp h)).symm

theorem Digits.fractionChars_tail? (d : Digits) : Numeral.fractionChars d.tail?
    = (if (d.chars.drop 1).isEmpty then "" else "." ++ String.ofList (d.chars.drop 1)).toList := by
  unfold tail?
  split_ifs with h hnil hnil
  · exact absurd (List.isEmpty_iff.mp hnil) (d.drop 1 h).nonempty
  · simp [Numeral.fractionChars, drop]
  · rfl
  · exact absurd (List.isEmpty_iff.mpr (List.drop_eq_nil_iff.mpr (not_lt.mp h))) hnil

theorem Digits.head_take {d : Digits} (hd : d.chars.head? ≠ some '0') {n : ℕ} (h : 0 < n) :
    (d.take n h).chars.head? ≠ some '0' := by
  obtain ⟨k, rfl⟩ := Nat.exists_eq_succ_of_ne_zero h.ne'
  obtain ⟨c, rest, hcons, -⟩ := d.exists_cons
  show (d.chars.take (k + 1)).head? ≠ some '0'
  rw [hcons] at hd ⊢
  exact hd

theorem Digits.head_scaled {d : Digits} (hd : d.chars.head? ≠ some '0') (zeros : ℕ) :
    (d.scaled zeros).chars.head? ≠ some '0' := by
  obtain ⟨c, rest, hcons, -⟩ := d.exists_cons
  show (d.chars ++ List.replicate zeros '0').head? ≠ some '0'
  rw [hcons] at hd ⊢
  exact hd

theorem Digits.head_ofNat {n : ℕ} (h : 0 < n) : (Digits.ofNat n).chars.head? ≠ some '0' := by
  intro hhead
  obtain ⟨rest, hrest⟩ := List.head?_eq_some_iff.mp hhead
  exact Decimal.toDigits_head_ne_zero h rest hrest

namespace Numeral

/-- A numeral is read as a double, unless it is too large. -/
def IsPointed (n : Numeral) : Prop := n.fraction ≠ none ∨ n.power ≠ none

/-- The decimal that a numeral denotes, its minus aside. -/
def scaled (n : Numeral) : Scaled :=
  ⟨Decimal.ofDigits (n.literal.whole ++ n.literal.fraction),
    n.literal.exponent - n.literal.fraction.length⟩

/-- A positive decimal in positions is a numeral with a fraction that denotes it, and has no more
digits before its point than its leading digit is worth. -/
theorem exists_positional {d : Scaled} (hd : 0 < d.digits) :
    ∃ n : Numeral, n.negative = false ∧ n.power = none ∧ n.fraction ≠ none ∧
      (n.whole.chars.length : ℤ)
        ≤ max 1 (d.exponent + (Nat.toDigits 10 d.digits).length) ∧
      (Decimal.positionalText true d).toList = n.unsignedChars ∧ n.scaled.value = d.value := by
  have hhead := Digits.head_ofNat hd
  unfold Decimal.positionalText
  dsimp only
  by_cases hexp : 0 ≤ d.exponent
  · rw [if_pos hexp, if_pos rfl]
    refine ⟨⟨false, (Digits.ofNat d.digits).scaled d.exponent.toNat, some (.ofNat 0), none,
      .inr (Digits.head_scaled hhead _)⟩, rfl, rfl, Option.some_ne_none _, ?_, ?_, ?_⟩
    · show (((Nat.toDigits 10 d.digits) ++ List.replicate d.exponent.toNat '0').length : ℤ) ≤ _
      rw [List.length_append, List.length_replicate]
      omega
    · simp [Decimal.zeros, unsignedChars, fractionChars, powerChars, Digits.scaled, Digits.ofNat]
    · -- the zero behind the point is one more place, and is taken off again
      show (Decimal.ofDigits ((Nat.toDigits 10 d.digits ++ List.replicate d.exponent.toNat '0')
        ++ Nat.toDigits 10 0) : ℚ) * 10 ^ (-1 : ℤ) = d.digits * 10 ^ d.exponent
      rw [Decimal.ofDigits_append, Decimal.ofDigits_append, Decimal.ofDigits_zeros,
        Decimal.ofDigits_toDigits, Decimal.ofDigits_toDigits, List.length_replicate]
      show ((_ * 10 ^ 1 + 0 : ℕ) : ℚ) * 10 ^ (-1 : ℤ) = _
      conv_rhs => rw [← Int.toNat_of_nonneg hexp, zpow_natCast]
      push_cast
      rw [add_zero, add_zero, zpow_neg_one, mul_inv_cancel_right₀ (by norm_num)]
  rw [if_neg hexp]
  by_cases hwhole : 0 < d.exponent + (Nat.toDigits 10 d.digits).length
  · have hlt : (d.exponent + (Nat.toDigits 10 d.digits).length).toNat
        < (Nat.toDigits 10 d.digits).length := by omega
    have hpos : 0 < (d.exponent + (Nat.toDigits 10 d.digits).length).toNat := by omega
    rw [if_pos hwhole]
    refine ⟨⟨false, (Digits.ofNat d.digits).take _ hpos,
      some ((Digits.ofNat d.digits).drop _ hlt), none, .inr (Digits.head_take hhead _)⟩,
      rfl, rfl, Option.some_ne_none _, ?_, ?_, ?_⟩
    · show (((Nat.toDigits 10 d.digits).take _).length : ℤ) ≤ _
      rw [List.length_take]
      omega
    · simp [unsignedChars, fractionChars, powerChars, Digits.take, Digits.drop, Digits.ofNat]
    · show (Decimal.ofDigits ((Nat.toDigits 10 d.digits).take _
        ++ (Nat.toDigits 10 d.digits).drop _) : ℚ)
        * 10 ^ (0 - (((Nat.toDigits 10 d.digits).drop _).length : ℤ)) = d.digits * 10 ^ d.exponent
      rw [List.take_append_drop, Decimal.ofDigits_toDigits, List.length_drop]
      congr 2
      omega
  · rw [if_neg hwhole]
    refine ⟨⟨false, .ofNat 0, some ((Digits.ofNat d.digits).padded
      (-(d.exponent + (Nat.toDigits 10 d.digits).length)).toNat), none, .inl rfl⟩,
      rfl, rfl, Option.some_ne_none _, le_max_left _ _, ?_, ?_⟩
    · simp [Decimal.zeros, unsignedChars, fractionChars, powerChars, Digits.padded, Digits.ofNat]
    · show (Decimal.ofDigits (Nat.toDigits 10 0 ++ (List.replicate _ '0'
        ++ Nat.toDigits 10 d.digits)) : ℚ) * 10 ^ (0 - ((List.replicate _ '0'
        ++ Nat.toDigits 10 d.digits).length : ℤ)) = d.digits * 10 ^ d.exponent
      rw [Decimal.ofDigits_append, Decimal.ofDigits_append, Decimal.ofDigits_zeros,
        Decimal.ofDigits_toDigits, Decimal.ofDigits_toDigits, List.length_append,
        List.length_replicate, Nat.zero_mul, Nat.zero_mul, Nat.zero_add, Nat.zero_add]
      congr 2
      omega

theorem isLetter_small : 'e' = 'e' ∨ 'e' = 'E' := .inl rfl

/-- The exponent of the leading digit, as it is written. -/
def leadingPower (leading : ℤ) : Power :=
  ⟨'e', some (decide (leading < 0)), .ofNat leading.natAbs, isLetter_small⟩

theorem value_leadingPower (leading : ℤ) : (leadingPower leading).value = leading := by
  show Decimal.signed (decide (leading < 0)) (Decimal.ofDigits (Nat.toDigits 10 leading.natAbs)) = _
  rw [Decimal.ofDigits_toDigits]
  unfold Decimal.signed
  by_cases h : leading < 0
  · rw [if_pos (decide_eq_true h)]
    omega
  · rw [if_neg (by simpa using h)]
    omega

theorem chars_leadingPower (leading : ℤ) : (leadingPower leading).chars
    = ("e" ++ (if 0 ≤ leading then "+" else "-") ++ Decimal.digitText leading.natAbs).toList := by
  show 'e' :: (Power.signChars (some (decide (leading < 0))) ++ Nat.toDigits 10 leading.natAbs) = _
  by_cases h : leading < 0
  · rw [decide_eq_true h, if_neg (not_le.mpr h)]
    simp [Power.signChars, Decimal.digitText]
  · rw [decide_eq_false h, if_pos (not_lt.mp h)]
    simp [Power.signChars, Decimal.digitText]

/-- A positive decimal with an exponent is a numeral of its digits. -/
theorem exists_scientific {d : Scaled} (hd : 0 < d.digits) :
    ∃ n : Numeral, n.negative = false ∧ n.power ≠ none ∧
      n.literal.whole ++ n.literal.fraction = Nat.toDigits 10 d.digits ∧
      n.literal.exponent - n.literal.fraction.length = d.exponent ∧
      (Decimal.scientificText d).toList = n.unsignedChars := by
  have hlength : 0 < (Nat.toDigits 10 d.digits).length :=
    List.length_pos_of_ne_nil Nat.toDigits_ne_nil
  have hfraction : ((Digits.ofNat d.digits).tail?.map Digits.chars).getD []
      = (Nat.toDigits 10 d.digits).drop 1 := (Digits.ofNat d.digits).chars_tail?
  refine ⟨⟨false, (Digits.ofNat d.digits).take 1 Nat.one_pos, (Digits.ofNat d.digits).tail?,
    some (leadingPower (d.exponent + (Nat.toDigits 10 d.digits).length - 1)),
    .inr (Digits.head_take (Digits.head_ofNat hd) Nat.one_pos)⟩,
    rfl, Option.some_ne_none _, ?_, ?_, ?_⟩
  · show (Nat.toDigits 10 d.digits).take 1
      ++ ((Digits.ofNat d.digits).tail?.map Digits.chars).getD [] = _
    rw [hfraction, List.take_append_drop]
  · show (leadingPower _).value
      - (((Digits.ofNat d.digits).tail?.map Digits.chars).getD []).length = _
    rw [value_leadingPower, hfraction, List.length_drop]
    omega
  · show _ = (Nat.toDigits 10 d.digits).take 1
      ++ (fractionChars (Digits.ofNat d.digits).tail? ++ (leadingPower _).chars)
    rw [Digits.fractionChars_tail?, chars_leadingPower]
    simp only [Decimal.scientificText, String.toList_append, String.toList_ofList,
      List.append_assoc]
    rfl

/-! ## Numerals of doubles -/

/-- A numeral is read as the double that its decimal is read as, under its sign. -/
theorem nearest_eq (n : Numeral) :
    n.nearest = if n.negative then -n.scaled.toFloat else n.scaled.toFloat := rfl

/-- A numeral is read as a double when its decimal is computed. -/
theorem exists_number? {n : Numeral} (h : n.IsPointed)
    (hcomputed : n.literal.fitting.computed? ≠ none) : ∃ y, n.number? = some (.double y) := by
  obtain ⟨y, hy⟩ := Option.ne_none_iff_exists'.mp hcomputed
  have hplain : ((n.fraction.map Digits.chars).isNone && (n.power.map Power.value).isNone)
      = false := by
    rcases h with h | h
    · obtain ⟨digits, hdigits⟩ := Option.ne_none_iff_exists'.mp h
      rw [hdigits]
      rfl
    · obtain ⟨p, hp⟩ := Option.ne_none_iff_exists'.mp h
      rw [hp, Bool.and_comm]
      rfl
  have hread : n.literal.computed? = some (if n.negative then -y else y) := by
    unfold Literal.computed?
    rw [hy]
    rfl
  refine ⟨if n.negative then -y else y, ?_⟩
  unfold number? Number.ofLiteral?
  simp only [hplain, Bool.false_and, Bool.false_eq_true, if_false]
  exact congrArg (Option.map Number.double) hread

/-- Without an exponent and with few digits before the point, no numeral is too large. -/
theorem computed?_of_no_power {n : Numeral} (hpower : n.power = none)
    (hwhole : (n.whole.chars.length : ℤ) ≤ 16) : n.literal.fitting.computed? ≠ none := by
  obtain ⟨hdigits, hexponent⟩ := Decimal.fitting_le n.literal
  have hexponent' : n.literal.fitting.exponent ≤ 16 := by
    have hzero : n.literal.exponent = 0 := by
      unfold literal
      rw [hpower]
      rfl
    rw [hzero, zero_add] at hexponent
    exact hexponent.trans hwhole
  have hten : (10 : ℚ) ^ n.literal.fitting.exponent ≤ 10 ^ (16 : ℤ) :=
    zpow_le_zpow_right₀ (by norm_num) hexponent'
  have hceiling : (2 : ℚ) ^ 118 ≤ ceiling := pow_le_pow_right₀ (by norm_num) (by norm_num)
  refine Decimal.computed?_ne_none hdigits ?_ ?_
  · exact (hten.trans (by norm_num)).trans hceiling
  · have hdigits' : (n.literal.fitting.digits : ℚ) ≤ 2 ^ 64 := by exact_mod_cast hdigits.le
    calc n.literal.fitting.value ≤ 2 ^ 64 * 10 ^ (16 : ℤ) :=
          mul_le_mul hdigits' hten (zpow_nonneg (by norm_num) _) (by norm_num)
      _ ≤ 2 ^ 118 := by norm_num
      _ ≤ ceiling := hceiling

/-- The magnitude of a finite double is printed as a numeral with a point or an exponent, and below
half of the ceiling the reader computes a double of it. -/
theorem exists_magnitude {m : ℕ} (hm : m < 2 ^ 53) (e : ℤ) :
    ∃ n : Numeral, n.negative = false ∧ n.IsPointed ∧
      (if m = 0 then "0.0" else doubles.decimal (Decimal.shortest doubles.tie m e)).toList
        = n.unsignedChars ∧
      (2 * (m * 2 ^ e : ℚ) ≤ ceiling → n.literal.fitting.computed? ≠ none) := by
  rcases Nat.eq_zero_or_pos m with rfl | hpos
  · refine ⟨⟨false, .ofNat 0, some (.ofNat 0), none, .inl rfl⟩, rfl,
      .inl (Option.some_ne_none _), ?_, fun _ => computed?_of_no_power rfl (by decide)⟩
    rw [if_pos rfl]
    rfl
  obtain ⟨hdigits, hle, hnear⟩ := Decimal.shortest_spec doubles.tie hpos hm e
  rw [if_neg hpos.ne']
  generalize Decimal.shortest doubles.tie m e = d at hdigits hle hnear
  unfold Decimal.Layout.decimal
  dsimp only
  split_ifs with hpositional
  · obtain ⟨n, hnegative, hpower, hfraction, hwhole, htext, -⟩ := exists_positional hdigits
    refine ⟨n, hnegative, .inl hfraction, htext, fun _ => computed?_of_no_power hpower ?_⟩
    have hleading := (Bool.and_eq_true_iff.mp hpositional).2
    have hleading' := of_decide_eq_true hleading
    omega
  · obtain ⟨n, hnegative, hpower, hchars, hexponent, htext⟩ := exists_scientific hdigits
    refine ⟨n, hnegative, .inr hpower, htext, fun hceiling => ?_⟩
    have hsignificand : Decimal.ofDigits (n.literal.whole ++ n.literal.fraction) = d.digits := by
      rw [hchars, Decimal.ofDigits_toDigits]
    have hfits : d.digits < UInt64.size := hle.trans_lt (by decide)
    have hfitting : n.literal.fitting = d := by
      rw [Decimal.fitting_eq (hsignificand ▸ hfits), hsignificand, hexponent]
    have hplace := Double.zpow_two_pos e
    have hone : (1 : ℚ) ≤ m := by exact_mod_cast hpos
    have hplace' : (2 : ℚ) ^ e ≤ m * 2 ^ e := le_mul_of_one_le_left hplace.le hone
    have hvalue : d.value ≤ ceiling := by
      have h := (abs_le.mp hnear).2
      linarith
    have hten : (10 : ℚ) ^ d.exponent ≤ d.value :=
      le_mul_of_one_le_left (zpow_nonneg (by norm_num) _) (by exact_mod_cast hdigits)
    rw [hfitting]
    exact Decimal.computed?_ne_none hfits (hten.trans hvalue) hvalue

end Numeral

/-- Every finite double is printed as a numeral. Below half of the ceiling that is read as a
double. -/
theorem exists_numeral {x : Float} (hx : x.isFinite = true) :
    ∃ n : Numeral, (doubles.write x).toList = n.chars ∧
      (2 * |Double.value x| ≤ ceiling → ∃ y, n.number? = some (.double y)) := by
  obtain ⟨s, m, e, hparts, hm, hvalue⟩ := Double.parts_of_isFinite hx
  obtain ⟨n, hnegative, hpointed, htext, hcomputed⟩ := Numeral.exists_magnitude hm e
  refine ⟨{ n with negative := Double.isNegative s }, ?_, fun hceiling => ?_⟩
  · have hpoint : (if doubles.keepsPoint then "0.0" else "0") = "0.0" := rfl
    unfold Decimal.Layout.write
    rw [hparts]
    dsimp only
    rw [hpoint]
    unfold Numeral.chars
    dsimp only
    cases Double.isNegative s with
    | false => exact htext
    | true =>
      rw [if_pos rfl, if_pos rfl, String.toList_append, htext]
      rfl
  · have hmagnitude := mul_nonneg (Nat.cast_nonneg (α := ℚ) m) (Double.zpow_two_pos e).le
    rw [hvalue, Double.abs_withSign, abs_of_nonneg hmagnitude] at hceiling
    exact Numeral.exists_number? hpointed (hcomputed hceiling)

/-- A finite double that is written without an exponent is written as a numeral with a fraction, and
the double nearest to that is the one that was written. -/
theorem exists_pointed {x : Float} (hx : x.isFinite = true) :
    ∃ n : Numeral, (Decimal.pointed.write x).toList = n.chars ∧ n.fraction ≠ none ∧
      n.power = none ∧ n.nearest = x := by
  obtain ⟨s, m, e, hparts, hcanonical, he, -⟩ := Double.canonical_parts hx
  -- the magnitude comes apart into the same mantissa and exponent
  obtain ⟨n, hpower, hfraction, htext, hread⟩ : ∃ n : Numeral, n.power = none ∧
      n.fraction ≠ none ∧ (if m = 0 then "0.0" else
        Decimal.pointed.decimal (Decimal.shortest Decimal.pointed.tie m e)).toList
        = n.unsignedChars ∧ Decimal.parts n.scaled.toFloat = .finite false m e := by
    rcases Nat.eq_zero_or_pos m with rfl | hm
    · obtain rfl : e = -1074 := hcanonical.full.resolve_left (by decide)
      exact ⟨⟨false, .ofNat 0, some (.ofNat 0), none, .inl rfl⟩, rfl, Option.some_ne_none _, rfl,
        by decide⟩
    · have hdigits := (Decimal.shortest_spec Decimal.pointed.tie hm hcanonical.lt e).1
      obtain ⟨n, -, hpower, hfraction, -, htext, hvalue⟩ := Numeral.exists_positional hdigits
      refine ⟨n, hpower, hfraction, ?_, Decimal.parts_toFloat _ hcanonical hm he hvalue⟩
      rw [if_neg hm.ne']
      exact htext
  refine ⟨{ n with negative := Double.isNegative s }, ?_, hfraction, hpower, ?_⟩
  · unfold Decimal.Layout.write
    rw [hparts]
    show (if Double.isNegative s = true then "-" ++ (if m = 0 then "0.0" else _)
      else if m = 0 then "0.0" else _).toList = _
    unfold Numeral.chars
    dsimp only
    cases Double.isNegative s with
    | false => exact htext
    | true =>
      rw [if_pos rfl, if_pos rfl, String.toList_append, htext]
      rfl
  · rw [Numeral.nearest_eq]
    exact Double.eq_of_magnitude hparts hread

end Placement.Json

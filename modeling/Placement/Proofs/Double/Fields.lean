import Placement.Decimal.Layout
import Placement.Decimal.Binary
import Placement.Proofs.Double.Order
/-
  The fields of a double. A double that is not finite has an exponent field of ones
  (`exponent_of_not_isFinite`), so it comes apart into no mantissa and is written by name
  (`write_of_not_isFinite`). Fields determine the double (`eq_of_toNat_toBits`).
-/
namespace Placement.Double

open Float.Model (UnpackedFloat Format)

/-- The exponent field of a double as a number. -/
theorem toNat_unpackExponent (x : Float) :
    (@UnpackedFloat.unpackExponent Format.binary64 x.toModel.toBits.toBitVec).toNat
      = x.toBits.toNat / 0x10000000000000 % 0x800 := by
  show (x.toBits.toBitVec.extractLsb 62 52).toNat = _
  rw [BitVec.extractLsb_toNat, Nat.shiftRight_eq_div_pow]
  rfl

/-- What is not finite has an exponent field of ones. -/
theorem exponent_of_not_isFinite {x : Float} (h : x.isFinite = false) :
    x.toBits.toNat / 0x10000000000000 % 0x800 = 2047 := by
  have hu : x.toModel.unpack.isFinite = false := h
  rw [← toNat_unpackExponent]
  by_contra hne
  have hones : @UnpackedFloat.unpackExponent Format.binary64 x.toModel.toBits.toBitVec
      ≠ -1#11 := by
    intro heq
    rw [heq] at hne
    exact hne rfl
  -- any other exponent field belongs to a zero, a subnormal or a normal number
  have hfinite : x.toModel.unpack.isFinite = true := by
    unfold Float.Model.unpack UnpackedFloat.unpack
    dsimp only
    rw [if_neg hones]
    by_cases hz : @UnpackedFloat.unpackExponent Format.binary64 x.toModel.toBits.toBitVec = 0#11
    · rw [if_pos hz]
      by_cases hm : @UnpackedFloat.unpackMantissa Format.binary64 x.toModel.toBits.toBitVec = 0#52
      · rw [dif_pos hm]
        rfl
      · rw [dif_neg hm]
        rfl
    · rw [if_neg hz]
      rfl
  rw [hu] at hfinite
  exact Bool.false_ne_true hfinite

/-- What is not finite has no mantissa. -/
theorem parts_of_not_isFinite {x : Float} (h : x.isFinite = false) :
    Decimal.parts x = .nan ∨ ∃ negative, Decimal.parts x = .infinite negative := by
  unfold Decimal.parts
  dsimp only
  rw [if_pos (exponent_of_not_isFinite h)]
  split
  · exact .inr ⟨_, rfl⟩
  · exact .inl rfl

/-- What is not finite is written by one of its three names. -/
theorem write_of_not_isFinite {x : Float} (h : x.isFinite = false) (l : Decimal.Layout) :
    l.write x = l.nan ∨ l.write x = l.infinity ∨ l.write x = l.negativeInfinity := by
  unfold Decimal.Layout.write
  rcases parts_of_not_isFinite h with hp | ⟨negative, hp⟩
  · rw [hp]
    exact .inl rfl
  · rw [hp]
    cases negative with
    | false => exact .inr (.inl rfl)
    | true => exact .inr (.inr rfl)

/-! ## Infinity -/

theorem toNat_unpackMantissa (x : Float) :
    (@UnpackedFloat.unpackMantissa Format.binary64 x.toModel.toBits.toBitVec).toNat
      = x.toBits.toNat % 0x10000000000000 := by
  show (x.toBits.toBitVec.extractLsb 51 0).toNat = _
  rw [BitVec.extractLsb_toNat, Nat.shiftRight_eq_div_pow]
  show x.toBits.toNat / 2 ^ 0 % 2 ^ 52 = _
  rw [Nat.pow_zero, Nat.div_one]

theorem toNat_unpackSign (x : Float) :
    (@UnpackedFloat.unpackSign Format.binary64 x.toModel.toBits.toBitVec).toNat
      = x.toBits.toNat / 0x8000000000000000 % 2 := by
  show (x.toBits.toBitVec.extractLsb 63 63).toNat = _
  rw [BitVec.extractLsb_toNat, Nat.shiftRight_eq_div_pow]
  rfl

/-- A double is told by its bits. -/
theorem eq_of_toNat_toBits {x y : Float} (h : x.toBits.toNat = y.toBits.toNat) : x = y := by
  have hbits : x.toModel.toBits = y.toModel.toBits := UInt64.toNat_inj.mp h
  have hmodel : x.toModel = y.toModel := by
    cases hx : x.toModel
    cases hy : y.toModel
    rw [hx, hy] at hbits
    cases hbits
    rfl
  cases x
  cases hmodel
  rfl

/-- A double with the exponent of ones and neither mantissa nor sign is infinity. -/
theorem eq_infinity_of_toNat_toBits {x : Float} (h : x.toBits.toNat = 0x7FF0000000000000) :
    x = 1 / 0 := by
  refine eq_of_toNat_toBits ?_
  rw [h]
  rfl

/-- What is not finite, but a number, has no mantissa and is infinite on one side. -/
theorem unpack_of_not_isFinite {x : Float} (hf : x.isFinite = false) (hn : x.isNaN = false) :
    @UnpackedFloat.unpackMantissa Format.binary64 x.toModel.toBits.toBitVec = 0#52 ∧
      x.toModel.unpack = .infinity (.ofBitVec
        (@UnpackedFloat.unpackSign Format.binary64 x.toModel.toBits.toBitVec)) := by
  have hones : @UnpackedFloat.unpackExponent Format.binary64 x.toModel.toBits.toBitVec
      = -1#11 := by
    apply BitVec.eq_of_toNat_eq
    rw [toNat_unpackExponent, exponent_of_not_isFinite hf]
    rfl
  by_cases hm : @UnpackedFloat.unpackMantissa Format.binary64
      x.toModel.toBits.toBitVec = 0#52
  · refine ⟨hm, ?_⟩
    unfold Float.Model.unpack UnpackedFloat.unpack
    dsimp only
    rw [if_pos hones, if_pos hm]
  · have hnan : x.toModel.unpack = .notANumber := by
      unfold Float.Model.unpack UnpackedFloat.unpack
      dsimp only
      rw [if_pos hones, if_neg hm]
    exact absurd hnan (unpack_ne_notANumber hn)

/-- What is not finite, but a number and not negative, is infinity. -/
theorem eq_infinity {x : Float} (hf : x.isFinite = false) (hn : x.isNaN = false)
    (h0 : ¬ x < 0) : x = 1 / 0 := by
  obtain ⟨hmant, hunpack⟩ := unpack_of_not_isFinite hf hn
  have hsign : @UnpackedFloat.unpackSign Format.binary64
      x.toModel.toBits.toBitVec = 0#1 := by
    by_contra hs
    rw [UnpackedFloat.Sign.ofBitVec, if_neg hs] at hunpack
    apply h0
    rw [lt_iff_unpacked, hunpack]
    decide
  apply eq_infinity_of_toNat_toBits
  have hexp := exponent_of_not_isFinite hf
  have hs := toNat_unpackSign x
  have hm := toNat_unpackMantissa x
  rw [hsign] at hs
  rw [hmant] at hm
  have hlt := x.toBits.toNat_lt
  have h1 : (0#1).toNat = 0 := rfl
  have h2 : (0#52).toNat = 0 := rfl
  omega

end Placement.Double

/-
  Doubles taken apart into a sign, a natural mantissa and a power of two, and the integers
  nearest to them. Every text and every rounding of a number starts from `parts`.
-/
namespace Placement.Decimal

/-- What a double denotes: `finite s m e` is `m · 2^e`, negated when `s`. -/
inductive Parts where
  | nan
  | infinite (negative : Bool)
  | finite (negative : Bool) (mantissa : Nat) (exponent : Int)
  deriving DecidableEq

/-- Reads the fields of the 64-bit interchange format. -/
def parts (x : Float) : Parts :=
  let bits := x.toBits.toNat
  let negative := decide (0x8000000000000000 ≤ bits)
  let field : Nat := bits / 0x10000000000000 % 0x800
  let fraction : Nat := bits % 0x10000000000000
  if field = 2047 then
    if fraction = 0 then .infinite negative else .nan
  else if field = 0 then .finite negative fraction (-1074)
  else .finite negative (0x10000000000000 + fraction) ((field : Int) - 1075)

/-- Which of two equally near integers is taken. -/
inductive Tie where
  | toEven
  | up
  deriving DecidableEq

/-- The natural number nearest to `num / den`, for a positive `den`. -/
def roundQuotient (tie : Tie) (num den : Nat) : Nat :=
  let quotient := num / den
  let twice := 2 * (num % den)
  if twice < den then quotient
  else if den < twice then quotient + 1
  else match tie with
    | .up => quotient + 1
    | .toEven => if quotient % 2 = 0 then quotient else quotient + 1

/-- The fraction `m · 2^e` as a numerator and a positive denominator. -/
def ratio (mantissa : Nat) (exponent : Int) : Nat × Nat :=
  if 0 ≤ exponent then (mantissa * Nat.pow 2 exponent.toNat, 1)
  else (mantissa, Nat.pow 2 (-exponent).toNat)

theorem ratio_snd_pos (m : Nat) (e : Int) : 0 < (ratio m e).2 := by
  unfold ratio
  split
  · exact Nat.one_pos
  · exact Nat.two_pow_pos _

/-- Rounding loses at most one unit. -/
theorem roundQuotient_eq_or (tie : Tie) (num den : Nat) :
    roundQuotient tie num den = num / den ∨ roundQuotient tie num den = num / den + 1 := by
  simp only [roundQuotient]
  repeat' split
  all_goals simp

/-- The integral double nearest to `x`. A double with a non-negative exponent is integral already,
and the sign of a zero is kept. -/
def toIntegral (tie : Tie) (x : Float) : Float :=
  match parts x with
  | .finite negative mantissa exponent =>
    if 0 ≤ exponent then x
    else
      let magnitude := (roundQuotient tie mantissa (Nat.pow 2 (-exponent).toNat)).toUInt64.toFloat
      if negative then -magnitude else magnitude
  | _ => x

/-- To the nearest integer, exact halves to the even one. -/
def roundTiesEven (x : Float) : Float := toIntegral .toEven x

/-- To the nearest integer, exact halves away from zero. -/
def roundHalfAway (x : Float) : Float := toIntegral .up x

end Placement.Decimal

import Placement.Decimal.Literal
/-
  Decimals read with a significand of 64 bits: digits that no longer fit are dropped, the
  significand is rounded to a double, and that is multiplied or divided by a power of ten. Each of
  the two steps rounds, so the double may be a neighbour of the nearest one. It is the nearest when
  the significand is below `2^53` and the power of ten at most `10^22`, for then both are exact.
-/
namespace Placement.Decimal

/-- Takes digits behind a significand as long as it fits 64 bits, and leaves the others. -/
def takeFitting (significand : Nat) : List Char → Nat × List Char
  | [] => (significand, [])
  | c :: rest =>
    let grown := 10 * significand + digitValue c
    if grown < UInt64.size then takeFitting grown rest else (significand, c :: rest)

/-- What is taken fits. -/
theorem takeFitting_lt {significand : Nat} (h : significand < UInt64.size) (cs : List Char) :
    (takeFitting significand cs).1 < UInt64.size := by
  induction cs generalizing significand with
  | nil => exact h
  | cons c rest ih =>
    rw [takeFitting]
    split
    · exact ih ‹_›
    · exact h

/-- What is left stands at the end of the digits. -/
theorem takeFitting_suffix (significand : Nat) (cs : List Char) :
    (takeFitting significand cs).2 <:+ cs := by
  induction cs generalizing significand with
  | nil => exact List.suffix_rfl
  | cons c rest ih =>
    rw [takeFitting]
    split
    · exact (ih _).trans (List.suffix_cons c rest)
    · exact List.suffix_rfl

/-- A written number with the digits that fit. Digits dropped before the point still count for the
power of ten, those after it do not. -/
def Literal.fitting (l : Literal) : Scaled :=
  let whole := takeFitting 0 l.whole
  let all := takeFitting whole.1 l.fraction
  ⟨all.1, l.exponent + whole.2.length - (l.fraction.length - all.2.length : Nat)⟩

/-- The greatest power of ten that is a double. -/
def greatestPower : Nat := 308

/-- A power of ten as a double, up to the greatest one. -/
def tenTo (k : Nat) : Float := OfScientific.ofScientific 1 false (min k greatestPower)

/-- The double computed for a decimal; none if it is beyond the doubles. A zero may have any power
of ten. Powers below the least double are divided by in two steps. -/
def Scaled.computed? (d : Scaled) : Option Float :=
  let x := d.digits.toUInt64.toFloat
  let k := d.exponent.natAbs
  if d.exponent < 0 then
    some (if k ≤ greatestPower then x / tenTo k
      else x / tenTo greatestPower / tenTo (k - greatestPower))
  else if k ≤ greatestPower then
    let y := x * tenTo k
    if y.isFinite then some y else none
  else if d.digits = 0 then some 0
  else none

/-- The double computed for a written number; none if it is beyond the doubles. -/
def Literal.computed? (l : Literal) : Option Float :=
  l.fitting.computed?.map fun x => if l.negative then -x else x

end Placement.Decimal

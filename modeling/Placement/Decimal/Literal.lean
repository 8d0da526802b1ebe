import Placement.Decimal.Shortest
/-
  Decimals as they are read: runs of digits, and the double nearest to a decimal.
-/
namespace Placement.Decimal

/-- The value of a character as a decimal digit. -/
def digitValue (c : Char) : Nat := c.toNat - '0'.toNat

/-- The natural number that a run of digits denotes. -/
def ofDigits (cs : List Char) : Nat := cs.foldl (fun n c => 10 * n + digitValue c) 0

/-- Splits off the digits at the front. -/
def spanDigits (cs : List Char) : List Char × List Char := cs.span Char.isDigit

/-- The integer that a sign and a magnitude denote. -/
def signed (negative : Bool) (n : Nat) : Int := if negative then -(n : Int) else n

/-- The double nearest to a decimal, even on ties; a decimal beyond the range gives infinity.
Decimals far outside the range are settled by their leading exponent. -/
def Scaled.toFloat (d : Scaled) : Float :=
  let leading := digitCount d.digits + d.exponent
  if d.digits = 0 then 0
  else if 400 < leading then 1 / 0
  else if leading < -400 then 0
  else if 0 ≤ d.exponent then OfScientific.ofScientific d.digits false d.exponent.toNat
  else OfScientific.ofScientific d.digits true (-d.exponent).toNat

/-- A number written with digits: sign, digits before and after the point, power of ten. -/
structure Literal where
  negative : Bool
  whole : List Char
  fraction : List Char
  exponent : Int

/-- The double nearest to a written number. -/
def Literal.toFloat (l : Literal) : Float :=
  let magnitude := Scaled.toFloat ⟨ofDigits (l.whole ++ l.fraction), l.exponent - l.fraction.length⟩
  if l.negative then -magnitude else magnitude

end Placement.Decimal

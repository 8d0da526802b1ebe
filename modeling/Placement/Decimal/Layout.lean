import Placement.Decimal.Shortest
/-
  How numbers are written: layouts for shortest decimals, and a fixed number of places.
-/
namespace Placement.Decimal

/-- The decisions that a notation makes about a shortest decimal. The exponent of a number is
that of its leading digit. -/
structure Layout where
  /-- Whether a number of this exponent is written without one. -/
  positional : Int → Bool
  /-- Whether an integral number keeps `.0`. -/
  keepsPoint : Bool
  /-- Whether two equally near decimals resolve upwards or to the even digit. -/
  tie : Tie
  nan : String
  infinity : String
  negativeInfinity : String

/-- Decimal digits of a natural number. -/
def digitText (n : Nat) : String := String.ofList (Nat.toDigits 10 n)

/-- A run of zeros. -/
def zeros (n : Nat) : String := String.ofList (List.replicate n '0')

/-- `digits · 10^exponent` without an exponent. -/
def positionalText (keepsPoint : Bool) (d : Scaled) : String :=
  let text := Nat.toDigits 10 d.digits
  let whole := d.exponent + text.length
  if 0 ≤ d.exponent then
    String.ofList text ++ zeros d.exponent.toNat ++ (if keepsPoint then ".0" else "")
  else if 0 < whole then
    String.ofList (text.take whole.toNat) ++ "." ++ String.ofList (text.drop whole.toNat)
  else "0." ++ zeros (-whole).toNat ++ String.ofList text

/-- One digit, the others after a point, and the signed exponent. -/
def scientificText (d : Scaled) : String :=
  let text := Nat.toDigits 10 d.digits
  let leading := d.exponent + text.length - 1
  let rest := text.drop 1
  String.ofList (text.take 1)
    ++ (if rest.isEmpty then "" else "." ++ String.ofList rest)
    ++ "e" ++ (if 0 ≤ leading then "+" else "-") ++ digitText leading.natAbs

/-- The text of a shortest decimal. -/
def Layout.decimal (l : Layout) (d : Scaled) : String :=
  let leading := d.exponent + (Nat.toDigits 10 d.digits).length - 1
  if l.positional leading then positionalText l.keepsPoint d else scientificText d

/-- The text of a double: the fewest digits that read back. -/
def Layout.write (l : Layout) (x : Float) : String :=
  match parts x with
  | .nan => l.nan
  | .infinite negative => if negative then l.negativeInfinity else l.infinity
  | .finite negative mantissa exponent =>
    let magnitude :=
      if mantissa = 0 then (if l.keepsPoint then "0.0" else "0")
      else l.decimal (shortest l.tie mantissa exponent)
    if negative then "-" ++ magnitude else magnitude

/-- Numbers in messages: never an exponent, and no point in an integral number. -/
def plain : Layout where
  positional _ := true
  keepsPoint := false
  tie := .up
  nan := "NaN"
  infinity := "inf"
  negativeInfinity := "-inf"

/-- Numbers in messages about a document: as `plain`, but an integral number keeps `.0`. -/
def pointed : Layout where
  positional _ := true
  keepsPoint := true
  tie := .up
  nan := "NaN"
  infinity := "inf"
  negativeInfinity := "-inf"

/-- A natural number of `10^-places` units, with a point. -/
def placed (places units : Nat) : String :=
  let text := digitText (units % Nat.pow 10 places)
  digitText (units / Nat.pow 10 places)
    ++ (if places = 0 then "" else "." ++ zeros (places - text.length) ++ text)

/-- A double rounded to a number of places from its exact value, halves to even. -/
def fixed (places : Nat) (x : Float) : String :=
  match parts x with
  | .nan => plain.nan
  | .infinite negative => if negative then plain.negativeInfinity else plain.infinity
  | .finite negative mantissa exponent =>
    let value := ratio mantissa exponent
    let text := placed places (roundQuotient .toEven (value.1 * Nat.pow 10 places) value.2)
    if negative then "-" ++ text else text

end Placement.Decimal

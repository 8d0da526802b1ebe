import Placement.Decimal.Binary
/-
  The shortest decimal that reads back as a given double, and among the shortest the nearest.

  A positive double `m · 2^e` is read back from every decimal between the midpoints to its two
  neighbours, the midpoints included when `m` is even. Grids of 1, 2, …, 17 digits are tried in
  turn; if any point of a grid lies in that interval, so does one of the two points next to the
  double itself.
-/
namespace Placement.Decimal

/-- The number `digits · 10^exponent`. -/
structure Scaled where
  digits : Nat
  exponent : Int
  deriving DecidableEq

/-- How many decimal digits a number has; zero has none. -/
def digitCount (n : Nat) : Nat :=
  if n = 0 then 0 else digitCount (n / 10) + 1

/-- The greatest `e` with `10^e ≤ num / den`, both positive. -/
def leadingExponent (num den : Nat) : Int :=
  if den ≤ num then (digitCount (num / den) : Int) - 1
  else -(digitCount ((den + num - 1) / num - 1) : Int)

/-- The decimals that read back as one double: those between `low / den` and `high / den`. -/
structure Interval where
  low : Nat
  value : Nat
  high : Nat
  den : Nat
  closed : Bool

/-- The interval of the double `m · 2^e`. Below a power of two the neighbour is twice as near. -/
def Interval.of (mantissa : Nat) (exponent : Int) : Interval :=
  let narrow := mantissa = 0x10000000000000 ∧ exponent ≠ -1074
  let scale := ratio 1 (exponent - 2)
  { low := (4 * mantissa - if narrow then 1 else 2) * scale.1
    value := 4 * mantissa * scale.1
    high := (4 * mantissa + 2) * scale.1
    den := scale.2
    closed := mantissa % 2 = 0 }

/-- Whether `num / den'` lies in the interval. -/
def Interval.holds (i : Interval) (num den : Nat) : Bool :=
  if i.closed then i.low * den ≤ num * i.den && num * i.den ≤ i.high * den
  else i.low * den < num * i.den && num * i.den < i.high * den

/-- The grid point `d · 10^k` as a fraction. -/
def gridPoint (d : Nat) (k : Int) : Nat × Nat :=
  if 0 ≤ k then (d * Nat.pow 10 k.toNat, 1) else (d, Nat.pow 10 (-k).toNat)

/-- The nearest point of the grid of step `10^k` that lies in the interval, if one does. -/
def Interval.onGrid? (i : Interval) (tie : Tie) (k : Int) : Option Nat :=
  let unit := gridPoint 1 k
  let num := i.value * unit.2
  let den := i.den * unit.1
  let below := num / den
  let inside (d : Nat) : Bool := i.holds (gridPoint d k).1 (gridPoint d k).2
  match inside below, inside (below + 1) with
  | true, true => some (roundQuotient tie num den)
  | true, false => some below
  | false, true => some (below + 1)
  | false, false => none

/-- The first hit among the grids of step `10^k`, `10^(k-1)`, …. -/
def Interval.search (i : Interval) (tie : Tie) : Nat → Int → Scaled
  | 0, k => ⟨i.value / i.den, k⟩
  | n + 1, k =>
    match i.onGrid? tie k with
    | some d => ⟨d, k⟩
    | none => i.search tie n (k - 1)

/-- Ten units of one place are one unit of the next. -/
def Scaled.carry (d : Scaled) : Scaled :=
  if d.digits = 10 then ⟨1, d.exponent + 1⟩ else d

/-- The shortest decimal that reads back as the positive double `m · 2^e`; of several the nearest,
and `tie` decides between two equally near ones. -/
def shortest (tie : Tie) (mantissa : Nat) (exponent : Int) : Scaled :=
  let i := Interval.of mantissa exponent
  (i.search tie 18 (leadingExponent i.value i.den)).carry

end Placement.Decimal

import Placement.Decimal.Layout
/-
  Spans of time in whole nanoseconds.
-/
namespace Placement

/-- A span of time: seconds, and nanoseconds below one second. -/
structure Duration where
  seconds : Nat
  nanos : Nat
  nanos_lt : nanos < 1000000000
  deriving DecidableEq

namespace Duration

/-- A number of nanoseconds. -/
def ofNanos (n : Nat) : Duration where
  seconds := n / 1000000000
  nanos := n % 1000000000
  nanos_lt := Nat.mod_lt _ (by decide)

/-- A number of seconds. -/
def ofSeconds (n : Nat) : Duration := ⟨n, 0, by decide⟩

/-- A number of milliseconds. -/
def ofMillis (n : Nat) : Duration := ofNanos (n * 1000000)

/-- The whole span in nanoseconds. -/
def toNanos (d : Duration) : Nat := d.seconds * 1000000000 + d.nanos

/-- The longer of two spans. -/
def longer (a b : Duration) : Duration := if a.toNanos < b.toNanos then b else a

/-- The span in seconds as a double: the seconds, and then the part of a second. -/
def toFloat (d : Duration) : Float :=
  d.seconds.toUInt64.toFloat + d.nanos.toUInt64.toFloat / 1e9

/-- A whole part and a part of `10^-places` units, without trailing zeros. -/
def trimmed (whole part places : Nat) : String :=
  let text := Nat.toDigits 10 part
  let padded := List.replicate (places - text.length) '0' ++ text
  let digits := (padded.reverse.dropWhile (· = '0')).reverse
  Decimal.digitText whole
    ++ (if part = 0 then "" else "." ++ String.ofList digits)

/-- A span in the greatest unit of which it has at least one. -/
def text (d : Duration) : String :=
  if 0 < d.seconds then trimmed d.seconds d.nanos 9 ++ "s"
  else if 1000000 ≤ d.nanos then trimmed (d.nanos / 1000000) (d.nanos % 1000000) 6 ++ "ms"
  else if 1000 ≤ d.nanos then trimmed (d.nanos / 1000) (d.nanos % 1000) 3 ++ "µs"
  else trimmed d.nanos 0 0 ++ "ns"

end Duration

end Placement

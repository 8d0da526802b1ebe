/-
  The numbers that scores are computed in. Records hold doubles; a formula reads them into a
  scalar, which is again a double when the program runs and may be an exact number in a proof.
-/
namespace Placement

/-- Numbers that a score can be computed in, next to their arithmetic. -/
class Scalar (α : Type) where
  /-- The scalar of a field. -/
  ofFloat : Float → α
  /-- The scalar of a count. -/
  ofCount : UInt64 → α
  less : α → α → Bool
  isNaN : α → Bool
  isFinite : α → Bool
  sqrt : α → α

/-- Doubles, each operation rounded. -/
instance : Scalar Float where
  ofFloat x := x
  ofCount n := n.toFloat
  less x y := x < y
  isNaN x := x.isNaN
  isFinite x := x.isFinite
  sqrt x := x.sqrt

/-- The curves that scores are bent by. Nothing is asked of them: a theorem says what it needs. -/
structure Curves (α : Type) where
  /-- The exponential. -/
  exp : α → α
  /-- The natural logarithm of one more than its argument. -/
  log1p : α → α

namespace Scalar

variable {α : Type} [Scalar α]

/-- The greater of two scalars; what is no number gives way. -/
def greater (a b : α) : α :=
  if isNaN a then b else if isNaN b then a else if less a b then b else a

/-- The lesser of two scalars; what is no number gives way. -/
def lesser (a b : α) : α :=
  if isNaN a then b else if isNaN b then a else if less b a then b else a

/-- A scalar between two bounds; what is no number stays as it is. -/
def clamp (low high x : α) : α :=
  if less x low then low else if less high x then high else x

end Scalar

/-- The logarithm of one more than `x`. Where `1 + x` is rounded, the logarithm is corrected by
the part that was lost. -/
def logOnePlus (x : Float) : Float :=
  let y := 1 + x
  if y == 1 then x else if y.isFinite then y.log * (x / (y - 1)) else y.log

/-- The curves of the running program. -/
def Curves.native : Curves Float := ⟨Float.exp, logOnePlus⟩

end Placement

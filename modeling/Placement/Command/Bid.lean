import Placement.Command.Basic
/-
  The bid command: one request in, one bid of the tuned scorer out.
-/
namespace Placement.Command

/-- The bid of the tuned scorer on the request in a text. -/
def bidOn (s : Surroundings) (t : Tuning) (input : String) : Except Rejection Bid := do
  let request ← BidRequest.ofText input
  (t.chosenScorer s.curves).bidOn request s.own

/-- Answers a bid request. The reasoning is kept only on demand. -/
def bid (s : Surroundings) (t : Tuning) (explain : Bool) (input : String) : BidAnswer :=
  match bidOn s t input with
  | .ok b => .ok { b.response with reasoning := if explain then b.reasoning else none }
  | .error rejection => .error ⟨rejection.message⟩

end Placement.Command

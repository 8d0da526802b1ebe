import Placement.External.FanOut
import Placement.Tuning.Document
/-
  What the commands have in common: the surroundings they run in, and the form of their answers.
-/
namespace Placement

/-- What a command finds around it: the curves of its scorers, a way to run programs, and how long
its own work takes. -/
structure Surroundings where
  curves : Curves Float
  launch : Launch
  /-- Seconds that scoring takes. -/
  own : Float

/-- An answer to a bid request. -/
abbrev BidAnswer := Except ErrorResponse BidResponse

/-- An answer to a selection request. -/
abbrev SelectionAnswer := Except SelectionErrorResponse SelectionResponse

/-- An answer to a bid request as JSON. -/
def BidAnswer.toJson : BidAnswer → Json
  | .ok r => r.toJson
  | .error r => r.toJson

/-- An answer to a selection request as JSON. -/
def SelectionAnswer.toJson : SelectionAnswer → Json
  | .ok r => r.toJson
  | .error r => r.toJson

end Placement

import Placement.Decimal.Binary
import Placement.Record.Shape
import Placement.Scalar
/-
  Bids, and the records that bidders and selectors answer with.
-/
namespace Placement

/-- A raw score as a bid: within 0 and 1, and 0 when it is not finite. -/
def sanitize (x : Float) : Float := if x.isFinite then Scalar.clamp 0 1 x else 0

/-- Seconds to the microsecond. -/
def roundSeconds (s : Float) : Float := Decimal.roundHalfAway (s * 1e6) / 1e6

/-- A bid of a system on a job; 0 says that the job cannot run there. -/
structure Bid where
  value : Float
  reasoning : Option String
  /-- What the decision took. -/
  seconds : Float
  deriving DecidableEq

/-- The answer of a bidder. -/
structure BidResponse where
  bid : Float
  seconds : Float
  reasoning : Option String
  deriving DecidableEq

/-- The answer of a bidder that failed. -/
structure ErrorResponse where
  error : String
  deriving DecidableEq

/-- The answer of a selector: the chosen system, if any can run the job. -/
structure SelectionResponse where
  selected : Option String
  seconds : Float
  deriving DecidableEq

/-- The answer of a selector that failed. -/
structure SelectionErrorResponse where
  error : String
  selected : Option String
  deriving DecidableEq

/-- A member that is left out when there is nothing to write. -/
def textMember (key : String) : Option String → List (String × Json)
  | some s => [(key, .text s)]
  | none => []

/-- A text, or null. -/
def textOrNull : Option String → Json
  | some s => .text s
  | none => .null

namespace Bid

/-- Whether a bid says that the job can run. -/
def isFeasible (b : Bid) : Bool := 0 < b.value

def shape : Shape Bid :=
  (Shape.empty Bid.mk)
    |>.required "value" readDouble
    |>.trailing "reasoning" readText
    |>.required "decision_time_seconds" readDouble

def toJson (b : Bid) : Json := .object (
  [("value", .number (.double b.value))]
  ++ textMember "reasoning" b.reasoning
  ++ [("decision_time_seconds", .number (.double b.seconds))])

/-- The answer that hands a bid on, its time to the microsecond. -/
def response (b : Bid) : BidResponse := ⟨b.value, roundSeconds b.seconds, b.reasoning⟩

end Bid

namespace BidResponse

def shape : Shape BidResponse :=
  (Shape.empty BidResponse.mk)
    |>.required "bid" readDouble
    |>.required "bid_generation_time_seconds" readDouble
    |>.trailing "reasoning" readText

def toJson (r : BidResponse) : Json := .object (
  [("bid", .number (.double r.bid)), ("bid_generation_time_seconds", .number (.double r.seconds))]
  ++ textMember "reasoning" r.reasoning)

end BidResponse

namespace ErrorResponse

def shape : Shape ErrorResponse := (Shape.empty ErrorResponse.mk) |>.required "error" readText

def toJson (r : ErrorResponse) : Json := .object [("error", .text r.error)]

end ErrorResponse

namespace SelectionResponse

def shape : Shape SelectionResponse :=
  (Shape.empty SelectionResponse.mk)
    |>.optional "selected_system" readText
    |>.required "decision_time_seconds" readDouble

def toJson (r : SelectionResponse) : Json := .object [
  ("selected_system", textOrNull r.selected),
  ("decision_time_seconds", .number (.double r.seconds))]

end SelectionResponse

namespace SelectionErrorResponse

def shape : Shape SelectionErrorResponse :=
  (Shape.empty SelectionErrorResponse.mk)
    |>.required "error" readText
    |>.optional "selected_system" readText

def toJson (r : SelectionErrorResponse) : Json := .object [
  ("error", .text r.error),
  ("selected_system", textOrNull r.selected)]

/-- A failure selects nothing. -/
def of (error : String) : SelectionErrorResponse := ⟨error, none⟩

end SelectionErrorResponse

end Placement

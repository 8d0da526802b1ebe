import Placement.Answer
import Placement.External.Failure
import Placement.Json.Reader
import Placement.Text.Octets
/-
  The output of an external bidder: exactly one JSON object, with an error or with a bid.
-/
namespace Placement

/-- Why an output is no response. -/
inductive Malformation where
  | notJson
  | notObject
  | notNumber (key : String)
  deriving DecidableEq

/-- A malformed output in words. -/
def Malformation.message : Malformation → String
  | .notJson => "expected one JSON object: " ++ syntaxFault
  | .notObject => "expected a JSON object"
  | .notNumber key => ticked key ++ " must be a number"

namespace BidResponse

/-- The number under a key. -/
def numberUnder (members : Json.Members) (key : String) : Except Failure Float :=
  match (members.find? key).bind Json.toFloat? with
  | some x => .ok x
  | none => .error (.malformed (Malformation.notNumber key).message)

/-- What an error member reports: its text, or any other value as JSON. -/
def reported : Json → String
  | .text message => message
  | v => v.render

/-- Reads a response. An error member counts whatever stands beside it; otherwise the bid and its
time must be numbers, and the bid is taken as it is. -/
def ofMembers (members : Json.Members) : Except Failure BidResponse := do
  match members.find? "error" with
  | some v => throw (.reported (reported v))
  | none =>
    let bid ← numberUnder members "bid"
    let seconds ← numberUnder members "bid_generation_time_seconds"
    return ⟨bid, seconds, (members.find? "reasoning").bind Json.toText?⟩

/-- Reads a response from its text. -/
def ofText (s : String) : Except Failure BidResponse :=
  match Json.parse? s with
  | some (.object members) => ofMembers members
  | some _ => .error (.malformed Malformation.notObject.message)
  | none => .error (.malformed Malformation.notJson.message)

/-- Reads a response from what a bidder wrote. -/
def ofOctets (bs : List UInt8) : Except Failure BidResponse :=
  match Text.ofOctets? bs with
  | some s => ofText s
  | none => .error (.malformed Malformation.notJson.message)

end BidResponse

end Placement

import Placement.External.Reply
import Placement.External.Response
import Placement.Scoring.Choice
/-
  From the outcome of an external bidder to a bid. The gate comes first, whatever the outcome; a
  value from outside is brought within 0 and 1; and when there is none, the heuristic bids.
-/
namespace Placement

/-- What an external bidder came to. -/
abbrev Outcome := Except Failure BidResponse

/-- What stands behind an external bidder: the gate and the heuristic scorer. -/
structure Fallback where
  nodeCheck : NodeCheck
  heuristic : Scorer

/-- The fallback of a tuning, whichever scorer it chooses. -/
def Tuning.fallback (curves : Curves Float) (t : Tuning) : Fallback :=
  ⟨t.gate.nodeCheck, t.scorerOf curves .heuristic⟩

namespace Fallback

/-- The bid of 0 on a job that cannot run, found within so many seconds. -/
def gate? (f : Fallback) (c : Context) (own : Float) : Option Bid :=
  (c.infeasibility? f.nodeCheck).map fun reason => ⟨0, some reason.reasoning, own⟩

/-- Takes a bid from outside. -/
def accept (value : Float) (reasoning : Option String) (spent : Float) : Bid :=
  ⟨sanitize value, reasoning, spent⟩

/-- The reasoning of a bid that the heuristic made in place of another. -/
def stoodIn (why : String) (reasoning : Option String) : String :=
  match reasoning with
  | some detail => "fallback (" ++ why ++ "): " ++ detail
  | none => "fallback (" ++ why ++ ")"

/-- The heuristic's bid, made within `own` seconds after `spent` were lost on the bidder. -/
def standIn (f : Fallback) (c : Context) (why : String) (spent own : Float) : Bid :=
  let b := f.heuristic.bid c own
  ⟨b.value, some (stoodIn why b.reasoning), b.seconds + spent⟩

/-- A time that a bidder reports, if it can be one. -/
def reportedSeconds (s : Float) : Float := if s.isFinite && 0 < s then s else 0

/-- The bid on a job that passes the gate, from an outcome after some time. A response keeps its
own time; a failure is charged with the time that passed. -/
def settle (f : Fallback) (c : Context) (elapsed : Duration) (own : Float) : Outcome → Bid
  | .ok r => accept r.bid r.reasoning (reportedSeconds r.seconds)
  | .error failure => f.standIn c failure.message elapsed.toFloat own

/-- The bid that an outcome leads to. -/
def resolveResponse (f : Fallback) (c : Context) (outcome : Outcome) (elapsed : Duration)
    (own : Float) : Bid :=
  match f.gate? c own with
  | some b => b
  | none => f.settle c elapsed own outcome

/-- Why a reply without a score is not taken. -/
def scoreless : String := "reply carried no bid_score"

/-- The bid that a reply in free text leads to. -/
def resolveReply (f : Fallback) (c : Context) (reply : String) (elapsed : Duration)
    (own : Float) : Bid :=
  match f.gate? c own with
  | some b => b
  | none =>
    match Reply.parse? reply with
    | some r => accept r.bid r.reasoning elapsed.toFloat
    | none => f.standIn c scoreless elapsed.toFloat own

end Fallback

end Placement

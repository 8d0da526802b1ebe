import Placement.Answer
import Placement.Feasibility
import Placement.Request
/-
  Scorers: what they make of a context, and the bid that follows.
-/
namespace Placement

/-- What a scorer makes of a job on a system. -/
inductive Assessment where
  /-- The job does not pass the gate. -/
  | infeasible (reason : Infeasibility)
  /-- A raw score, which may lie outside 0 and 1, and how it came about. -/
  | scored (value : Float) (detail : String)
  deriving DecidableEq

/-- The bid value of an assessment. -/
def Assessment.value : Assessment → Float
  | .infeasible _ => 0
  | .scored value _ => sanitize value

/-- A way to score a job on a system. -/
structure Scorer where
  name : String
  assess : Context → Assessment

namespace Scorer

/-- The bid value of a scorer. -/
def score (s : Scorer) (c : Context) : Float := (s.assess c).value

/-- The bid of a scorer that took so many seconds. -/
def bid (s : Scorer) (c : Context) (seconds : Float) : Bid :=
  match s.assess c with
  | .infeasible reason => ⟨0, some reason.reasoning, seconds⟩
  | .scored value detail => ⟨sanitize value, some detail, seconds⟩

/-- The bid of a scorer on a request, if the records of the request are in range. -/
def bidOn (s : Scorer) (r : BidRequest) (seconds : Float) : Except Rejection Bid := do
  let context ← r.context
  return s.bid context seconds

/-- A scorer that gates first and scores what passes. -/
def gated (name : String) (check : NodeCheck) (score : Context → Float × String) : Scorer where
  name := name
  assess c :=
    match c.infeasibility? check with
    | some reason => .infeasible reason
    | none => .scored (score c).1 (score c).2

end Scorer

end Placement

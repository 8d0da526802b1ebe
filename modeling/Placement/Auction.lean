import Placement.Request
import Placement.Scoring.Assessment
/-
  Clearing an auction: every candidate is scored, and the first of the highest bids wins if it is
  above 0. A bid that failed or never came counts as 0.
-/
namespace Placement.Auction

/-- What a bid counts for in an auction. -/
def worth : Option Float → Float
  | some value => sanitize value
  | none => 0

/-- The leader after one more bid: only a strictly higher bid takes the lead. -/
def lead (leader : Option (String × Float)) (entry : String × Option Float) :
    Option (String × Float) :=
  match leader with
  | some (name, value) =>
    if worth entry.2 ≤ value then some (name, value) else some (entry.1, worth entry.2)
  | none => some (entry.1, worth entry.2)

/-- The winner among bids that were collected, if one is above 0. -/
def winner? (entries : List (String × Option Float)) : Option String :=
  match entries.foldl lead none with
  | some (name, value) => if 0 < value then some name else none
  | none => none

/-- The bid of a candidate, or why there is none. -/
structure Ranked where
  name : String
  bid : Except Rejection Float

/-- The bid, if there is one. -/
def Ranked.bid? (r : Ranked) : Option Float := r.bid.toOption

/-- The bid within 0 and 1; one that failed counts as 0. -/
def Ranked.value (r : Ranked) : Float :=
  match r.bid with
  | .ok value => sanitize value
  | .error _ => 0

/-- The bid of a scorer for one candidate. -/
def rankOne (s : Scorer) (job : Job) (now : Float) (c : Candidate) : Ranked :=
  ⟨c.name, (Context.of job c.system c.status now).map s.score⟩

/-- The bids of a scorer for all candidates, in their order. -/
def rank (s : Scorer) (r : SelectionRequest) : List Ranked :=
  r.candidates.map (rankOne s r.job r.now)

/-- The candidate that a scorer places the job on. -/
def select? (s : Scorer) (r : SelectionRequest) : Option String :=
  winner? ((rank s r).map fun ranked => (ranked.name, ranked.bid?))

end Placement.Auction

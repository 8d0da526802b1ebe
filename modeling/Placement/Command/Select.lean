import Placement.Auction
import Placement.Command.Basic
/-
  The select command: one job and its candidates in, the winner out. The candidates are bid on by
  the tuned scorer, or each by an external bidder.
-/
namespace Placement.Command

/-- What is to be done for a candidate before its bid is known. -/
inductive Standing where
  /-- It has no valid context and no bid. -/
  | invalid
  /-- Its job cannot run there. -/
  | gated (bid : Bid)
  /-- It is offered to the external bidder. -/
  | pending (context : Context)

/-- How a candidate stands. -/
def standing (f : Fallback) (own : Float) (r : BidRequest) : Standing :=
  match r.context with
  | .error _ => .invalid
  | .ok context =>
    match f.gate? context own with
    | some b => .gated b
    | none => .pending context

/-- Whether a request is offered to the external bidder. -/
def isPending (f : Fallback) (own : Float) (r : BidRequest) : Bool :=
  match standing f own r with
  | .pending _ => true
  | _ => false

/-- The requests for the candidates, in their order. -/
def bidRequests (r : SelectionRequest) : List BidRequest := r.candidates.map r.bidRequest

/-- The positions of the requests that are offered to the external bidder, in ascending order. -/
def pending (f : Fallback) (own : Float) (requests : List BidRequest) : List Nat :=
  (List.range requests.length).filter fun i => requests[i]?.any (isPending f own)

/-- The requests at some positions. -/
def offered (requests : List BidRequest) (positions : List Nat) : List BidRequest :=
  positions.filterMap (requests[·]?)

/-- The bids that are known before any run: those of the gate. -/
def gatedBids (f : Fallback) (own : Float) (requests : List BidRequest) : List (Option Float) :=
  requests.map fun r =>
    match standing f own r with
    | .gated b => some b.value
    | _ => none

/-- Records the bid that an outcome leads to, at the position of its request. -/
def record (f : Fallback) (elapsed : Duration) (own : Float) (requests : List BidRequest)
    (bids : List (Option Float)) (entry : Nat × Outcome) :
    Except Rejection (List (Option Float)) :=
  match requests[entry.1]? with
  | none => .ok bids
  | some r => do
    let context ← r.context
    return bids.set entry.1 (some (f.resolveResponse context entry.2 elapsed own).value)

/-- The bids of all requests, with the outcomes of those at the pending positions. -/
def recordAll (f : Fallback) (elapsed : Duration) (own : Float) (requests : List BidRequest)
    (outcomes : List Outcome) : Except Rejection (List (Option Float)) :=
  ((pending f own requests).zip outcomes).foldlM (record f elapsed own requests)
    (gatedBids f own requests)

/-- The bids of all requests, when the runs for those that are offered take a course. -/
def externalBids (f : Fallback) (own : Float) (fanOut : List BidRequest → FanOut.Course)
    (requests : List BidRequest) : Except Rejection (List (Option Float)) :=
  let positions := pending f own requests
  let course := fanOut (offered requests positions)
  recordAll f course.elapsed own requests (course.outcomes positions.length)

/-- The winner by the tuned scorer. -/
def selectLocally (curves : Curves Float) (t : Tuning) (r : SelectionRequest) : Option String :=
  Auction.select? (t.chosenScorer curves) r

/-- The winner by an external bidder, whose runs take a course. -/
def selectExternally (curves : Curves Float) (own : Float) (t : Tuning)
    (fanOut : List BidRequest → FanOut.Course) (r : SelectionRequest) :
    Except Rejection (Option String) := do
  let bids ← externalBids (t.fallback curves) own fanOut (bidRequests r)
  return Auction.winner? ((r.candidates.map Candidate.name).zip bids)

/-- Answers a selection request, when the runs of an external bidder take a course. Without an
external bidder the tuned scorer bids. -/
def selectThrough (curves : Curves Float) (own : Float) (t : Tuning)
    (fanOut : Bidder → List BidRequest → FanOut.Course) (bidder : List String)
    (timeout : Duration) (input : String) : SelectionAnswer :=
  match SelectionRequest.ofText input with
  | .error rejection => .error (.of rejection.message)
  | .ok r =>
    match Bidder.ofCommandLine? bidder with
    | none => .ok ⟨selectLocally curves t r, roundSeconds own⟩
    | some b =>
      match selectExternally curves own t (fanOut { b with timeout }) r with
      | .ok selected => .ok ⟨selected, roundSeconds own⟩
      | .error rejection => .error (.of rejection.message)

/-- Answers a selection request. -/
def select (s : Surroundings) (t : Tuning) (bidder : List String) (timeout : Duration)
    (input : String) : SelectionAnswer :=
  selectThrough s.curves s.own t (FanOut.course s.launch) bidder timeout input

end Placement.Command

import Placement.Command.Basic
/-
  The relay command: one request is handed to an external bidder, and the heuristic stands in when
  the bidder fails.
-/
namespace Placement.Command

/-- Why a request is not relayed. -/
inductive RelayError where
  | rejected (rejection : Rejection)
  | noBidder

/-- An error of the relay in words. -/
def RelayError.message : RelayError → String
  | .rejected rejection => rejection.message
  | .noBidder => "relay needs an external bidder command"

/-- The bid that comes back through the relay. A job that cannot run is not handed on. -/
def relayed (s : Surroundings) (t : Tuning) (bidder : List String) (timeout : Duration)
    (input : String) : Except RelayError Bid := do
  let request ← (BidRequest.ofText input).mapError .rejected
  let context ← request.context.mapError .rejected
  let fallback := t.fallback s.curves
  match fallback.gate? context s.own with
  | some b => return b
  | none =>
    match Bidder.ofCommandLine? bidder with
    | none => throw .noBidder
    | some b =>
      let b := { b with timeout }
      let run := b.run s.launch request
      return fallback.resolveResponse context (b.outcome run) (b.waited run) s.own

/-- Answers a bid request through an external bidder. -/
def relay (s : Surroundings) (t : Tuning) (bidder : List String) (timeout : Duration)
    (input : String) : BidAnswer :=
  match relayed s t bidder timeout input with
  | .ok b => .ok b.response
  | .error e => .error ⟨e.message⟩

end Placement.Command

import Placement.External.Bidder
import Placement.External.Fallback
/-
  One bidder, many requests: all runs start together and finish in any order. Their outcomes are
  taken in the order of the requests, and a run that has not finished is waited for.
-/
namespace Placement.FanOut

/-- What can happen next while runs are under way. -/
inductive Event where
  /-- A run finishes. -/
  | finish (position : Nat) (outcome : Outcome)
  /-- The outcome of the next run is taken. -/
  | take

/-- Runs under way: what each has come to once it has finished, and the outcomes taken so far. -/
structure Gathering where
  runs : List (Option Outcome)
  taken : List Outcome

namespace Gathering

/-- So many runs, none of which has finished. -/
def start (count : Nat) : Gathering := ⟨List.replicate count none, []⟩

/-- What an event leads to, if it is possible. A run finishes once, and only the outcome of a run
that has finished is taken. -/
def after? (g : Gathering) : Event → Option Gathering
  | .finish position outcome =>
    match g.runs[position]? with
    | some none => some { g with runs := g.runs.set position (some outcome) }
    | _ => none
  | .take =>
    match g.runs[g.taken.length]? with
    | some (some outcome) => some { g with taken := g.taken ++ [outcome] }
    | _ => none

/-- What a row of events leads to, if each is possible. -/
def afterAll? (g : Gathering) : List Event → Option Gathering
  | [] => some g
  | event :: rest => (g.after? event).bind fun next => next.afterAll? rest

end Gathering

/-- How a fan-out goes: what happens in turn, and how long it takes in all. -/
structure Course where
  events : List Event
  elapsed : Duration

/-- The outcomes that are taken in a course of so many runs. -/
def Course.outcomes (c : Course) (count : Nat) : List Outcome :=
  match (Gathering.start count).afterAll? c.events with
  | some g => g.taken
  | none => []

/-- A run that finished: the position of its request, and its outcome. -/
abbrev Finished := Nat × Outcome

/-- Inserts a run behind those that finish no later. -/
def place (run : Nat × Duration × Outcome) :
    List (Nat × Duration × Outcome) → List (Nat × Duration × Outcome)
  | [] => [run]
  | first :: rest =>
    if run.2.1.toNanos < first.2.1.toNanos then run :: first :: rest
    else first :: place run rest

/-- The runs of a bidder, in the order in which they finish. -/
def finishing (launch : Launch) (b : Bidder) (requests : List BidRequest) : List Finished :=
  let runs := requests.map fun r =>
    let run := b.run launch r
    (b.waited run, b.outcome run)
  let ordered := (runs.zipIdx.map fun run => (run.2, run.1.1, run.1.2)).foldl
    (fun placed run => place run placed) []
  ordered.map fun run => (run.1, run.2.2)

/-- How long all runs take together. -/
def elapsed (launch : Launch) (b : Bidder) (requests : List BidRequest) : Duration :=
  requests.foldl (fun d r => d.longer (b.waited (b.run launch r))) (.ofSeconds 0)

/-- The course that the runs of a bidder take: all finish before the first outcome is taken. -/
def course (launch : Launch) (b : Bidder) (requests : List BidRequest) : Course where
  events :=
    (finishing launch b requests).map (fun run => .finish run.1 run.2)
      ++ List.replicate requests.length .take
  elapsed := elapsed launch b requests

/-- The outcomes of a bidder for some requests, in their order. -/
def bidAll (launch : Launch) (b : Bidder) (requests : List BidRequest) : List Outcome :=
  (course launch b requests).outcomes requests.length

end Placement.FanOut

import Placement.Decimal.Literal
import Placement.Scoring.Assessment
/-
  The heuristic scorer. A bid is the product of six factors within 0 and 1, rounded to a number of
  decimal places:

    utilization   share of idle nodes
    node fit      free nodes over requested ones, at most 1
    queue         1 less a step per queued job, at least a floor
    resource      a level for the types of job and system
    site          a level for where the job comes from
    delay         exponential decay in the wait, at least a floor

  The site factor stands for the cost of moving a job and its data, and can be switched off.
-/
namespace Placement.Heuristic

open Scalar (greater lesser clamp)

/-- The factors behind a bid. -/
structure Factors where
  utilization : Float
  nodeFit : Float
  queue : Float
  resource : Float
  site : Float
  delay : Float
  deriving DecidableEq

/-- The product of the factors, from left to right. -/
def Factors.product (f : Factors) : Float :=
  f.utilization * f.nodeFit * f.queue * f.resource * f.site * f.delay

/-- The factors in words, to three places. -/
def Factors.detail (f : Factors) : String :=
  "utilization=" ++ Decimal.fixed 3 f.utilization
    ++ " node_compat=" ++ Decimal.fixed 3 f.nodeFit
    ++ " queue=" ++ Decimal.fixed 3 f.queue
    ++ " resource=" ++ Decimal.fixed 3 f.resource
    ++ " site=" ++ Decimal.fixed 3 f.site
    ++ " delay=" ++ Decimal.fixed 3 f.delay

/-- Share of idle nodes. -/
def utilization (system : System) (status : Status) : Float :=
  if system.nodes = 0 then 0
  else 1 - (status.busy system).toFloat / system.nodes.toFloat

/-- How much of a request fits at once. A request for nothing fits. -/
def nodeFit (available requested : UInt64) : Float :=
  if requested = 0 then 1 else lesser (available.toFloat / requested.toFloat) 1

/-- A long queue dampens a bid and never ends it. -/
def queueFactor (t : HeuristicTuning) (queued : UInt64) : Float :=
  greater (1 - t.queueStep * queued.toFloat) t.queueFloor

/-- The level for the types of a job and a system. -/
def resourceFactor (t : HeuristicTuning) (job system : ResourceType) : Float :=
  if job = system then t.exactType
  else if job.isCompute && system.isCompute then t.compatibleType
  else if decide (job = .storage) != decide (system = .storage) then t.storageMismatch
  else t.defaultType

/-- The level for where a job comes from. -/
def siteFactor (t : HeuristicTuning) (job : Job) (system : System) : Float :=
  if !t.siteAffinity then 1
  else if job.site ≠ system.site then t.crossSite
  else if job.system = system.name then t.sameSystem
  else t.sameSite

/-- Decay in the wait before a job starts. -/
def delayFactor (curves : Curves Float) (t : HeuristicTuning) (wait : Float) : Float :=
  greater (curves.exp (-t.delayDecay * greater wait 0)) t.delayFloor

/-- The factors of a bid; the gate is not looked at. -/
def factors (curves : Curves Float) (t : HeuristicTuning) (c : Context) : Factors where
  utilization := utilization c.system c.status
  nodeFit := nodeFit c.status.available c.job.nodes
  queue := queueFactor t c.status.queued
  resource := resourceFactor t c.job.type c.system.type
  site := siteFactor t c.job c.system
  delay := delayFactor curves t c.expectedWait

/-- A power of ten as a double, exact up to the twenty-second. -/
def scale (places : UInt32) : Float := Decimal.Scaled.toFloat ⟨1, places.toNat⟩

/-- A value to a number of decimal places, exact halves to even. -/
def roundTo (places : UInt32) (value : Float) : Float :=
  Decimal.roundTiesEven (value * scale places) / scale places

/-- The bid value of the factors. -/
def value (t : HeuristicTuning) (f : Factors) : Float := roundTo t.precision (clamp 0 1 f.product)

/-- The heuristic scorer. -/
def scorer (curves : Curves Float) (t : HeuristicTuning) (check : NodeCheck) : Scorer :=
  Scorer.gated "heuristic" check fun c =>
    let f := factors curves t c
    (value t f, f.detail)

end Placement.Heuristic

/-
  What a deployment may tune: the scorer, the gate, the levels and weights of the scorers, and
  how long an external bidder may take. Each part has its default.
-/
namespace Placement

/-- The scorers to choose from. -/
inductive ScorerKind where
  | heuristic
  | embedding
  deriving DecidableEq

/-- The name of a scorer. -/
def ScorerKind.name : ScorerKind → String
  | .heuristic => "heuristic"
  | .embedding => "embedding"

/-- What the number of requested nodes is compared with. -/
inductive NodeCheck where
  /-- All nodes: a job that fits the system may wait in its queue. -/
  | total
  /-- The nodes that are free now. -/
  | available
  deriving DecidableEq

/-- The name of a node check. -/
def NodeCheck.name : NodeCheck → String
  | .total => "total"
  | .available => "available"

/-- The gate. -/
structure GateTuning where
  nodeCheck : NodeCheck := .total
  deriving DecidableEq

/-- Levels of the heuristic's factors. -/
structure HeuristicTuning where
  /-- The types of job and system are equal. -/
  exactType : Float := 1.0
  /-- Both types are compute types. -/
  compatibleType : Float := 0.8
  /-- Exactly one of the types is storage. -/
  storageMismatch : Float := 0.3
  defaultType : Float := 0.5
  /-- Whether the locality of a job counts. -/
  siteAffinity : Bool := true
  sameSystem : Float := 1.0
  sameSite : Float := 0.9
  crossSite : Float := 0.7
  /-- What one queued job takes off. -/
  queueStep : Float := 0.1
  queueFloor : Float := 0.1
  /-- The rate at which a bid decays with the wait. -/
  delayDecay : Float := 0.05
  delayFloor : Float := 0.1
  /-- Decimal places of a bid. -/
  precision : UInt32 := 2
  deriving DecidableEq

/-- Where the features of a job saturate. -/
structure JobCaps where
  nodes : Float := 2048
  /-- One week of minutes. -/
  walltime : Float := 10080
  memory : Float := 1e6
  storage : Float := 500
  deriving DecidableEq

/-- Where the features of a system saturate. -/
structure SystemCaps where
  nodes : Float := 10624
  nodeSpeed : Float := 312e12
  memory : Float := 113664000
  storage : Float := 700e6
  deriving DecidableEq

/-- Parameters of the embedding scorer. -/
structure EmbeddingTuning where
  jobCaps : JobCaps := {}
  systemCaps : SystemCaps := {}
  /-- What stands for unbounded storage. -/
  unboundedStorage : Float := 1e9
  numericWeight : Float := 1.0
  typeWeight : Float := 0.7
  siteWeight : Float := 0.5
  /-- The speed at which a job takes its walltime. -/
  baselineSpeed : Float := 4.9e12
  staticWeight : Float := 0.6
  dynamicWeight : Float := 0.4
  headroomWeight : Float := 0.5
  slowdownWeight : Float := 0.5
  deriving DecidableEq

/-- External bidders. -/
structure ExternalTuning where
  timeoutSeconds : UInt64 := 30
  deriving DecidableEq

/-- All that may be tuned. -/
structure Tuning where
  scorer : ScorerKind := .heuristic
  gate : GateTuning := {}
  heuristic : HeuristicTuning := {}
  embedding : EmbeddingTuning := {}
  external : ExternalTuning := {}
  deriving DecidableEq

end Placement

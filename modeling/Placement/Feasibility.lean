import Placement.Context
import Placement.Tuning
import Placement.Decimal.Layout
/-
  The gate before every scorer: a job that fails any condition cannot run on the system, and the
  bid on it is 0.
-/
namespace Placement

/-- The condition that a job fails first, with what was compared. -/
inductive Infeasibility where
  | tooManyNodes (requested limit : UInt64)
  | gpuUnavailable
  | insufficientMemory (requested capacity : Float)
  | insufficientStorage (requested capacity : Float)
  | nonPositiveWalltime (walltime : Float)
  deriving DecidableEq

/-- A reason in words. -/
def Infeasibility.message : Infeasibility → String
  | .tooManyNodes requested limit =>
    "requests " ++ Decimal.digitText requested.toNat ++ " nodes, limit is "
      ++ Decimal.digitText limit.toNat
  | .gpuUnavailable => "needs a GPU, system has none"
  | .insufficientMemory requested capacity =>
    "requests " ++ Decimal.plain.write requested ++ " GB memory, system total is "
      ++ Decimal.plain.write capacity ++ " GB"
  | .insufficientStorage requested capacity =>
    "requests " ++ Decimal.plain.write requested ++ " GB storage, system has "
      ++ Decimal.plain.write capacity ++ " GB"
  | .nonPositiveWalltime walltime => "walltime " ++ Decimal.plain.write walltime ++ " is not positive"

/-- The number of nodes that a job may ask for. -/
def NodeCheck.limit (check : NodeCheck) (system : System) (status : Status) : UInt64 :=
  match check with
  | .total => system.nodes
  | .available => status.available

/-- The first condition that a job fails on a system, or nothing when it fits. -/
def infeasibility? (check : NodeCheck) (job : Job) (system : System) (status : Status) :
    Option Infeasibility :=
  if check.limit system status < job.nodes then
    some (.tooManyNodes job.nodes (check.limit system status))
  else if job.needsGpu && !system.hasGpu then some .gpuUnavailable
  else if system.totalMemory < job.memory then
    some (.insufficientMemory job.memory system.totalMemory)
  else if system.storageCapacity < job.storage then
    some (.insufficientStorage job.storage system.storageCapacity)
  else if job.walltime ≤ 0 then some (.nonPositiveWalltime job.walltime)
  else none

/-- The gate for a context. -/
def Context.infeasibility? (c : Context) (check : NodeCheck) : Option Infeasibility :=
  Placement.infeasibility? check c.job c.system c.status

/-- Whether a job fits a system, all of its nodes counted. -/
def isFeasible (job : Job) (system : System) (status : Status) : Bool :=
  (infeasibility? .total job system status).isNone

/-- The reasoning of a bid on a job that cannot run. -/
def Infeasibility.reasoning (reason : Infeasibility) : String := "infeasible: " ++ reason.message

end Placement

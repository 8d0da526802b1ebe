import Placement.Record.Check
import Placement.ResourceType
/-
  Jobs as the workload describes them. Memory and storage are totals over all nodes.
-/
namespace Placement

/-- A job that asks for a place to run. -/
structure Job where
  id : UInt64
  user : UInt64
  group : UInt64
  type : ResourceType
  submitted : Float
  /-- Requested minutes. -/
  walltime : Float
  nodes : UInt64
  needsGpu : Bool
  memory : Float
  storage : Float
  /-- Where the job comes from; only locality looks at it. -/
  site : String
  /-- The system it comes from; only locality looks at it. -/
  system : String
  deriving DecidableEq

namespace Job

/-- The fields of a job in their order. -/
def shape : Shape Job :=
  (Shape.empty Job.mk)
    |>.required "job_id" readCount
    |>.required "user_id" readCount
    |>.required "group_id" readCount
    |>.required "job_type" ResourceType.read
    |>.required "submission_time" readDouble
    |>.required "walltime" readDouble
    |>.required "num_nodes" readCount
    |>.required "needs_gpu" readFlag
    |>.required "requested_memory_gb" readDouble
    |>.required "requested_storage_gb" readDouble
    |>.required "hpc_site" readText
    |>.required "hpc_system" readText

/-- Names of job fields that are no longer in use. -/
def renames : Renames := [
  ("JobID", "job_id"),
  ("UserID", "user_id"),
  ("GroupID", "group_id"),
  ("JobType", "job_type"),
  ("SubmissionTime", "submission_time"),
  ("Walltime", "walltime"),
  ("Nodes", "num_nodes"),
  ("RequestedGPU", "needs_gpu"),
  ("RequestedMemoryGB", "requested_memory_gb"),
  ("RequestedStorageGB", "requested_storage_gb"),
  ("HPCSite", "hpc_site"),
  ("HPCSystem", "hpc_system")]

/-- Reads the fields of a job; ranges are not looked at. -/
def decode (v : Json) : Except Fault Job := renames.guarded (shape.decode "JobDescription") v

/-- The first field out of range. A walltime that is not positive is in range: such a job is valid
and fits nowhere. -/
def check (job : Job) : Except Breach Unit := do
  if job.nodes = 0 then throw .noNodes
  requireFinite "submission_time" job.submitted
  requireFinite "walltime" job.walltime
  requireNonNegative "requested_memory_gb" job.memory
  requireNonNegative "requested_storage_gb" job.storage

/-- Rejects a job with a field out of range. -/
def validate (job : Job) : Except Rejection Unit :=
  job.check.mapError fun breach => .job (.breach job.id breach)

/-- Reads a job and checks its ranges. -/
def read (v : Json) : Except Rejection Job := do
  let job ← (decode v).mapError fun fault => .job (.fault fault)
  job.validate
  return job

/-- A job as JSON, its fields in their order. -/
def toJson (job : Job) : Json := .object [
  ("job_id", .number (.natural job.id)),
  ("user_id", .number (.natural job.user)),
  ("group_id", .number (.natural job.group)),
  ("job_type", job.type.toJson),
  ("submission_time", .number (.double job.submitted)),
  ("walltime", .number (.double job.walltime)),
  ("num_nodes", .number (.natural job.nodes)),
  ("needs_gpu", .bool job.needsGpu),
  ("requested_memory_gb", .number (.double job.memory)),
  ("requested_storage_gb", .number (.double job.storage)),
  ("hpc_site", .text job.site),
  ("hpc_system", .text job.system)]

end Job

end Placement

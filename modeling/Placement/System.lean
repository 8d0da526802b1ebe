import Placement.Record.Check
import Placement.ResourceType
/-
  Systems that jobs run on, and how busy they are. Memory is per node, storage a total.
-/
namespace Placement

/-- What a system is able to do. -/
structure System where
  name : String
  site : String
  type : ResourceType
  nodes : UInt64
  /-- Memory of one node. -/
  nodeMemory : Float
  /-- Total storage; without one it is unbounded. -/
  storage : Option Float
  hasGpu : Bool
  /-- Operations per second of one node. -/
  nodeSpeed : Float
  interconnect : Option String
  deriving DecidableEq

/-- How busy a system is. -/
structure Status where
  available : UInt64
  /-- The simulated time at which the system expects to start the job. -/
  startEstimate : Float
  queued : UInt64
  deriving DecidableEq

namespace System

/-- The fields of a system in their order. -/
def shape : Shape System :=
  (Shape.empty System.mk)
    |>.required "name" readText
    |>.required "site" readText
    |>.required "type" ResourceType.read
    |>.required "num_nodes" readCount
    |>.required "memory_amount_in_gb" readDouble
    |>.trailing "storage_amount_in_gb" readDouble
    |>.required "has_gpu" readFlag
    |>.required "node_speed" readDouble
    |>.trailing "network_interconnect" readText

/-- Names of system fields that are no longer in use. -/
def renames : Renames := [
  ("node_limit", "num_nodes"),
  ("memory_limit", "memory_amount_in_gb"),
  ("storage_limit", "storage_amount_in_gb")]

/-- Reads the fields of a system; ranges are not looked at. -/
def decode (v : Json) : Except Fault System :=
  renames.guarded (shape.decode "SystemDescription") v

/-- Storage may be unbounded but not negative. -/
def checkStorage : Option Float → Except Breach Unit
  | none => .ok ()
  | some storage =>
    if storage.isNaN || storage < 0 then .error (.negative "storage_amount_in_gb" storage)
    else .ok ()

/-- The first field out of range. -/
def check (system : System) : Except Breach Unit := do
  if system.name.isEmpty then throw .unnamed
  if system.nodes = 0 then throw .noNodes
  requireNonNegative "memory_amount_in_gb" system.nodeMemory
  checkStorage system.storage
  requirePositive "node_speed" system.nodeSpeed

/-- Rejects a system with a field out of range. -/
def validate (system : System) : Except Rejection Unit :=
  system.check.mapError fun breach => .system (.breach system.name breach)

/-- Reads a system without a look at its ranges. -/
def readUnchecked (v : Json) : Except Rejection System :=
  (decode v).mapError fun fault => .system (.fault fault)

/-- Reads a system and checks its ranges. -/
def read (v : Json) : Except Rejection System := do
  let system ← readUnchecked v
  system.validate
  return system

/-- Memory of all nodes. -/
def totalMemory (system : System) : Float := system.nodeMemory * system.nodes.toFloat

/-- Storage, infinite when unbounded. -/
def storageCapacity (system : System) : Float := system.storage.getD (1 / 0)

/-- A system as JSON, its fields in their order. Unbounded storage is written as null, and an
unknown interconnect is left out. -/
def toJson (system : System) : Json := .object ([
  ("name", .text system.name),
  ("site", .text system.site),
  ("type", system.type.toJson),
  ("num_nodes", .number (.natural system.nodes)),
  ("memory_amount_in_gb", .number (.double system.nodeMemory)),
  ("storage_amount_in_gb",
    match system.storage with
    | some storage => .number (.double storage)
    | none => .null),
  ("has_gpu", .bool system.hasGpu),
  ("node_speed", .number (.double system.nodeSpeed))]
  ++ match system.interconnect with
    | some interconnect => [("network_interconnect", .text interconnect)]
    | none => [])

end System

namespace Status

/-- The fields of a status in their order. The queue is empty unless it is told. -/
def shape : Shape Status :=
  (Shape.empty Status.mk)
    |>.required "current_num_available_nodes" readCount
    |>.required "current_job_start_time_estimate" readDouble
    |>.field "queue_length" readCount (some 0) (some 0)

/-- Names of status fields that are no longer in use. -/
def renames : Renames := [
  ("available_nodes", "current_num_available_nodes"),
  ("current_num_avaibable_nodes", "current_num_available_nodes")]

/-- Reads the fields of a status; ranges need its system. -/
def decode (v : Json) : Except Fault Status := renames.guarded (shape.decode "SystemStatus") v

/-- Reads a status without a look at its ranges. -/
def read (v : Json) : Except Rejection Status :=
  (decode v).mapError fun fault => .system (.fault fault)

/-- The first field out of range for a system. -/
def check (status : Status) (system : System) : Except Breach Unit := do
  if !status.startEstimate.isFinite then throw .startNotFinite
  if system.nodes < status.available then throw (.overfull status.available system.nodes)

/-- Rejects a status out of range for a system. -/
def validate (status : Status) (system : System) : Except Rejection Unit :=
  (status.check system).mapError fun breach => .system (.breach system.name breach)

/-- Nodes at work; none when more are available than there are. -/
def busy (status : Status) (system : System) : UInt64 :=
  if status.available ≤ system.nodes then system.nodes - status.available else 0

/-- A status as JSON, its fields in their order. -/
def toJson (status : Status) : Json := .object [
  ("current_num_available_nodes", .number (.natural status.available)),
  ("current_job_start_time_estimate", .number (.double status.startEstimate)),
  ("queue_length", .number (.natural status.queued))]

end Status

end Placement

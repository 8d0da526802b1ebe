import Placement.Json.Reader
import Placement.Context
/-
  Requests as JSON: one job and one system to bid on, or one job and the candidates for it.
-/
namespace Placement

/-- A job, and the system that is asked for a bid. -/
structure BidRequest where
  job : Job
  system : System
  status : Status
  now : Float
  deriving DecidableEq

/-- A system offered for a job, under a name of its own. -/
structure Candidate where
  name : String
  system : System
  status : Status
  deriving DecidableEq

/-- A job, and the systems that compete for it. -/
structure SelectionRequest where
  job : Job
  candidates : List Candidate
  now : Float
  deriving DecidableEq

/-- The members of a request. -/
def requestMembers : Json → Except Rejection Json.Members
  | .object members => .ok members
  | v => .error (.transport (.notObject v.kind))

/-- The job of a request. -/
def requestJob (members : Json.Members) : Except Rejection Job :=
  match members.find? "job_description" with
  | some v => Job.read v
  | none => .error (.job (.absent "job_description"))

/-- A member that describes a system. -/
def systemMember (members : Json.Members) (key : String) : Except Rejection Json :=
  match members.find? key with
  | some v => .ok v
  | none => .error (.system (.absent key))

/-- The clock of a request; without one it shows zero. -/
def requestClock (members : Json.Members) : Except Rejection Float :=
  match members.find? "current_simulated_time" with
  | none | some .null => .ok 0
  | some (.number n) => .ok n.toFloat
  | some v => .error (.transport (.clockNotNumber v.kind))

/-- The value of a text that must be JSON. -/
def readJson (s : String) : Except Rejection Json :=
  match Json.parse? s with
  | some v => .ok v
  | none => .error (.transport .notJson)

namespace BidRequest

/-- Reads a request: the job, the system, its status, the status against the system, the clock. -/
def read (v : Json) : Except Rejection BidRequest := do
  let members ← requestMembers v
  let job ← requestJob members
  let system ← System.read (← systemMember members "hpc_system_description")
  let status ← Status.read (← systemMember members "hpc_system_status")
  status.validate system
  let now ← requestClock members
  return ⟨job, system, status, now⟩

/-- Reads a request from its text. -/
def ofText (s : String) : Except Rejection BidRequest := do read (← readJson s)

/-- The setting of the bid that is asked for. -/
def context (r : BidRequest) : Except Rejection Context := Context.of r.job r.system r.status r.now

/-- A request as JSON. -/
def toJson (r : BidRequest) : Json := .object [
  ("job_description", r.job.toJson),
  ("hpc_system_description", r.system.toJson),
  ("hpc_system_status", r.status.toJson),
  ("current_simulated_time", .number (.double r.now))]

end BidRequest

namespace Candidate

/-- The name of a candidate. -/
def readName (index : Nat) (members : Json.Members) : Except Rejection String :=
  match members.find? "system_name" with
  | some (.text name) => if name.isEmpty then .error (.system (.nameless index)) else .ok name
  | _ => .error (.system (.nameless index))

/-- Reads the candidate at a position. Its ranges are checked when it is scored, so that a system
out of range costs the others nothing. -/
def read (index : Nat) : Json → Except Rejection Candidate
  | .object members => do
    let name ← readName index members
    let system ← System.readUnchecked (← systemMember members "description")
    let status ← Status.read (← systemMember members "status")
    return ⟨name, system, status⟩
  | v => .error (.system (.notObject index v.kind))

/-- Reads candidates from a position on. -/
def readFrom (index : Nat) : List Json → Except Rejection (List Candidate)
  | [] => .ok []
  | v :: rest => do
    let candidate ← read index v
    let others ← readFrom (index + 1) rest
    return candidate :: others

/-- The candidates of a request. -/
def readAll (members : Json.Members) : Except Rejection (List Candidate) :=
  match members.find? "systems" with
  | some (.array items) => readFrom 0 items
  | some v => .error (.system (.notListed v.kind))
  | none => .error (.system (.absent "systems"))

/-- A candidate as JSON. -/
def toJson (c : Candidate) : Json := .object [
  ("system_name", .text c.name),
  ("description", c.system.toJson),
  ("status", c.status.toJson)]

end Candidate

namespace SelectionRequest

/-- Reads a request: the job, the candidates, the clock. -/
def read (v : Json) : Except Rejection SelectionRequest := do
  let members ← requestMembers v
  let job ← requestJob members
  let candidates ← Candidate.readAll members
  let now ← requestClock members
  return ⟨job, candidates, now⟩

/-- Reads a request from its text. -/
def ofText (s : String) : Except Rejection SelectionRequest := do read (← readJson s)

/-- The request for a bid of one candidate. -/
def bidRequest (r : SelectionRequest) (c : Candidate) : BidRequest :=
  ⟨r.job, c.system, c.status, r.now⟩

/-- A request as JSON. -/
def toJson (r : SelectionRequest) : Json := .object [
  ("job_description", r.job.toJson),
  ("systems", .array (r.candidates.map Candidate.toJson)),
  ("current_simulated_time", .number (.double r.now))]

end SelectionRequest

end Placement

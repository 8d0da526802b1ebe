import Placement.Job
import Placement.System
import Placement.Scalar
/-
  The setting of one bid: a job, a system and its status, and the clock, all in range. Scorers
  take nothing else, so what they see has been checked.
-/
namespace Placement

/-- The clock must show a finite time. -/
def checkClock (now : Float) : Except Rejection Unit :=
  if now.isFinite then .ok () else .error (.transport (.clockNotFinite now))

/-- A job, a system, its status and the clock, all in range. -/
structure Context where
  job : Job
  system : System
  status : Status
  now : Float
  jobValid : job.validate = .ok ()
  systemValid : system.validate = .ok ()
  statusValid : status.validate system = .ok ()
  clockValid : checkClock now = .ok ()

namespace Context

/-- Checks the job, the system, the status and the clock, in this order. -/
def of (job : Job) (system : System) (status : Status) (now : Float) :
    Except Rejection Context :=
  match hj : job.validate with
  | .error r => .error r
  | .ok () =>
    match hs : system.validate with
    | .error r => .error r
    | .ok () =>
      match ht : status.validate system with
      | .error r => .error r
      | .ok () =>
        match hc : checkClock now with
        | .error r => .error r
        | .ok () => .ok ⟨job, system, status, now, hj, hs, ht, hc⟩

/-- Time until the system expects to start the job, never negative. -/
def wait (α : Type) [Sub α] [OfNat α 0] [Scalar α] (c : Context) : α :=
  Scalar.greater (Scalar.ofFloat c.status.startEstimate - Scalar.ofFloat c.now) 0

/-- The wait as a double. -/
def expectedWait (c : Context) : Float := c.wait Float

end Context

end Placement

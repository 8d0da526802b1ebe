import Placement.Duration
import Placement.Rejection
/-
  How an external bidder can fail.
-/
namespace Placement

/-- Why an external bidder gave no bid. -/
inductive Failure where
  /-- The program could not be started. -/
  | spawn (program message : String)
  /-- Its pipes broke. -/
  | io (message : String)
  /-- It took too long. -/
  | timeout (after : Duration)
  /-- It ended with a failure, and said this on its error stream. -/
  | exit (status stderr : String)
  /-- Its output is no response. -/
  | malformed (message : String)
  /-- Its response is an error. -/
  | reported (message : String)
  /-- Its run was given up. -/
  | aborted (message : String)
  /-- The request for it could not be written. -/
  | unwritten (message : String)
  deriving DecidableEq

/-- A failure in words. -/
def Failure.message : Failure → String
  | .spawn program message => "failed to spawn bidder " ++ ticked program ++ ": " ++ message
  | .io message => "bidder i/o failed: " ++ message
  | .timeout after => "bidder timed out after " ++ after.text
  | .exit status stderr => "bidder exited with " ++ status ++ ": " ++ stderr
  | .malformed message => "malformed bidder response: " ++ message
  | .reported message => "bidder reported error: " ++ message
  | .aborted message => "bidder task aborted: " ++ message
  | .unwritten message => "request encoding failed: " ++ message

/-- A failed bidder keeps the request from being bid on. -/
def Failure.rejection (f : Failure) : Rejection := .transport (.bidder f.message)

end Placement

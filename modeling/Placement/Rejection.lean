import Placement.Record.Fault
/-
  Why a request is not bid on. A pair that cannot run is no rejection: it is bid 0.
-/
namespace Placement

/-- A record whose fields are well typed but out of range. -/
inductive Breach where
  | noNodes
  | unnamed
  | notFinite (field : String) (value : Float)
  | negative (field : String) (value : Float)
  | notPositive (field : String) (value : Float)
  | startNotFinite
  | overfull (available capacity : UInt64)
  deriving DecidableEq

/-- The message of a breach, without the record it is in. -/
def Breach.message : Breach → String
  | .noNodes => "num_nodes must be positive"
  | .unnamed => "name must not be empty"
  | .notFinite field value => field ++ " must be finite, got " ++ Decimal.plain.write value
  | .negative field value => field ++ " must be non-negative, got " ++ Decimal.plain.write value
  | .notPositive field value => field ++ " must be positive, got " ++ Decimal.plain.write value
  | .startNotFinite => "current_job_start_time_estimate must be finite"
  | .overfull available capacity =>
    Decimal.digitText available.toNat ++ " available nodes exceed capacity of "
      ++ Decimal.digitText capacity.toNat

/-- What is wrong with the job of a request. -/
inductive JobCause where
  | fault (fault : Fault)
  | breach (id : UInt64) (breach : Breach)
  | absent (key : String)

/-- What is wrong with a system of a request or with its status. -/
inductive SystemCause where
  | fault (fault : Fault)
  | breach (name : String) (breach : Breach)
  | absent (key : String)
  /-- The candidate systems are no array. -/
  | notListed (kind : String)
  /-- A candidate is no object. -/
  | notObject (index : Nat) (kind : String)
  /-- A candidate has no name. -/
  | nameless (index : Nat)

/-- What kept a request from being read. -/
inductive TransportCause where
  | notJson
  | notObject (kind : String)
  | clockNotNumber (kind : String)
  | clockNotFinite (now : Float)
  /-- An external bidder failed, with this text. -/
  | bidder (message : String)

/-- Why a request is not bid on. -/
inductive Rejection where
  | job (cause : JobCause)
  | system (cause : SystemCause)
  | transport (cause : TransportCause)

/-- The three kinds of rejection. -/
inductive Rejection.Kind where
  | job
  | system
  | transport
  deriving DecidableEq

/-- The words before the cause. -/
def Rejection.Kind.heading : Rejection.Kind → String
  | .job => "invalid job: "
  | .system => "invalid system: "
  | .transport => "transport failure: "

/-- The message of what is wrong with a job. -/
def JobCause.message : JobCause → String
  | .fault f => f.message
  | .breach id b => "job " ++ Decimal.digitText id.toNat ++ ": " ++ b.message
  | .absent key => "missing " ++ ticked key

/-- The message of what is wrong with a system. -/
def SystemCause.message : SystemCause → String
  | .fault f => f.message
  | .breach name b => "system " ++ Text.quoted name ++ ": " ++ b.message
  | .absent key => "missing " ++ ticked key
  | .notListed kind => ticked "systems" ++ " must be an array, got " ++ kind
  | .notObject index kind =>
    "systems[" ++ Decimal.digitText index ++ "] must be an object, got " ++ kind
  | .nameless index =>
    "systems[" ++ Decimal.digitText index ++ "] is missing a non-empty " ++ ticked "system_name"

/-- What stands for the position and the wording of a fault in the syntax of JSON. -/
def syntaxFault : String := "<json>"

/-- The message of what kept a request from being read. -/
def TransportCause.message : TransportCause → String
  | .notJson => syntaxFault
  | .notObject kind => "request must be a JSON object, got " ++ kind
  | .clockNotNumber kind => "current_simulated_time must be a number, got " ++ kind
  | .clockNotFinite now =>
    "current_simulated_time must be finite, got " ++ Decimal.plain.write now
  | .bidder message => message

namespace Rejection

/-- The kind of a rejection. -/
def kind : Rejection → Kind
  | .job _ => .job
  | .system _ => .system
  | .transport _ => .transport

/-- The cause in words. -/
def detail : Rejection → String
  | .job cause => cause.message
  | .system cause => cause.message
  | .transport cause => cause.message

/-- The whole message. -/
def message (r : Rejection) : String := r.kind.heading ++ r.detail

end Rejection

end Placement

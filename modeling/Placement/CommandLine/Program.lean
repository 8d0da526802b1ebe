import Placement.Command.Bid
import Placement.Command.Relay
import Placement.Command.Select
import Placement.CommandLine.Directory
import Placement.CommandLine.Invocation
/-
  The program as a whole: from its arguments, its input and its surroundings to what it writes and
  the code it exits with. A command answers with one JSON object on one line, also when its request
  is rejected; only a misuse and a tuning that cannot be loaded are failures of the program.
-/
namespace Placement.CommandLine

/-- What the program finds around it. -/
structure Terminal where
  /-- The tuning file that the environment names. -/
  environment : Option String
  /-- Reads a file. -/
  file : String → Except ReadError (List UInt8)
  input : List UInt8
  surroundings : Surroundings

/-- What the program leaves. -/
structure Exit where
  code : Nat
  output : String

/-- Why a tuning cannot be loaded. -/
inductive TuningError where
  | unread (reason : ReadError)
  | unfit (reason : Tuning.LoadError)

/-- The reason in words. Faults in the document itself are named by their heading. -/
def TuningError.message : TuningError → String
  | .unread reason => reason.message
  | .unfit .notToml => Tuning.documentHeading
  | .unfit (.data _) => Tuning.documentHeading
  | .unfit (.breach breach) => breach.message

/-- The tuning in a file. -/
def loadTuning (file : String → Except ReadError (List UInt8)) (path : String) :
    Except TuningError Tuning := do
  let content ← (file path).mapError .unread
  let text ← (textOf content).mapError .unread
  (Tuning.ofText text).mapError .unfit

/-- A line of output. -/
def line (v : Json) : String := v.render ++ "\n"

/-- The input as text; what is no text is empty. -/
def inputText (t : Terminal) : String := (Text.ofOctets? t.input).getD ""

/-- What stands in the output when the tuning cannot be loaded. -/
def Order.failure (message : String) : Order → String
  | .bid _ | .relay _ _ => line (ErrorResponse.mk message).toJson
  | .select _ => line (SelectionErrorResponse.of message).toJson
  | .config => ""

/-- The seconds of a count as a timeout. -/
def timeoutOf (seconds : UInt64) : Duration := .ofSeconds seconds.toNat

/-- What a command writes under a tuning. -/
def Order.answer (s : Surroundings) (t : Tuning) (input : String) : Order → String
  | .bid explain => line (Command.bid s t explain input).toJson
  | .select bidder =>
    line (Command.select s t bidder (timeoutOf t.external.timeoutSeconds) input).toJson
  | .relay seconds bidder =>
    line (Command.relay s t bidder (timeoutOf (seconds.getD t.external.timeoutSeconds)) input).toJson
  | .config => t.render

/-- The tuning that an invocation asks for. -/
def Invocation.tuning (t : Terminal) (i : Invocation) : Except TuningError Tuning := do
  let tuning ← match i.config with
    | some path => loadTuning t.file path
    | none => .ok {}
  return { tuning with scorer := i.scorer.getD tuning.scorer }

/-- The whole message when a tuning cannot be loaded. -/
def Invocation.failureText (i : Invocation) (e : TuningError) : String :=
  "failed to load config " ++ i.config.getD "" ++ ": " ++ e.message

/-- Runs an invocation. -/
def Invocation.run (t : Terminal) (i : Invocation) : Exit :=
  match i.tuning t with
  | .ok tuning => ⟨0, i.order.answer t.surroundings tuning (inputText t)⟩
  | .error e => ⟨1, i.order.failure (i.failureText e)⟩

/-- The name of the program. -/
def programName : String := "swarm-bidder"

/-- How the program is called. -/
def usage : String := "Usage: " ++ programName ++ " [OPTIONS] <COMMAND>\n"

/-- The name and version of the program or of one of its commands. -/
def versionText (command : Option String) : String :=
  programName ++ (match command with
    | some name => "-" ++ name
    | none => "") ++ " 0.1.0\n"

/-- Runs the program with its arguments. -/
def run (t : Terminal) (arguments : List String) : Exit :=
  match read t.environment arguments with
  | .ok i => i.run t
  | .error .misuse => ⟨2, ""⟩
  | .error .help => ⟨0, usage⟩
  | .error (.version command) => ⟨0, versionText command⟩

end Placement.CommandLine

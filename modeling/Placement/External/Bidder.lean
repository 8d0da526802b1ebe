import Placement.External.Response
import Placement.Request
import Placement.Text.Blank
/-
  External bidders: a program that is run once for each request. The request goes in on its
  standard input as one JSON object, and one JSON object is expected back.
-/
namespace Placement

/-- How a program ended. -/
inductive ExitStatus where
  | code (n : Nat)
  | signal (n : Nat)
  deriving DecidableEq

namespace ExitStatus

/-- Whether a program ended well. -/
def isSuccess : ExitStatus → Bool
  | .code n => n = 0
  | .signal _ => false

/-- The names of the signals that end a program. -/
def signalNames : List (Nat × String) := [
  (1, "SIGHUP"), (2, "SIGINT"), (3, "SIGQUIT"), (4, "SIGILL"), (5, "SIGTRAP"), (6, "SIGABRT"),
  (7, "SIGBUS"), (8, "SIGFPE"), (9, "SIGKILL"), (10, "SIGUSR1"), (11, "SIGSEGV"),
  (12, "SIGUSR2"), (13, "SIGPIPE"), (14, "SIGALRM"), (15, "SIGTERM"), (16, "SIGSTKFLT"),
  (24, "SIGXCPU"), (25, "SIGXFSZ"), (26, "SIGVTALRM"), (27, "SIGPROF"), (29, "SIGIO"),
  (30, "SIGPWR"), (31, "SIGSYS")]

/-- An exit status in words. -/
def text : ExitStatus → String
  | .code n => "exit status: " ++ Decimal.digitText n
  | .signal n =>
    "signal: " ++ Decimal.digitText n
      ++ match List.lookup n signalNames with
        | some name => " (" ++ name ++ ")"
        | none => ""

end ExitStatus

/-- What became of a program. -/
inductive Ending where
  /-- It could not be started, for this reason. -/
  | notStarted (message : String)
  /-- Its pipes broke, for this reason. -/
  | broken (message : String)
  | exited (status : ExitStatus) (stdout stderr : List UInt8)
  deriving DecidableEq

/-- One run of a program, and how long it took. -/
structure Run where
  ending : Ending
  took : Duration
  deriving DecidableEq

/-- A way to run programs: a program with arguments, given a text on its standard input. -/
abbrev Launch := String → List String → String → Run

/-- An external bidder. -/
structure Bidder where
  program : String
  arguments : List String
  /-- How long a run may take. -/
  timeout : Duration
  deriving DecidableEq

namespace Bidder

/-- How long a run may take unless told otherwise. -/
def defaultTimeout : Duration := .ofSeconds 30

/-- The bidder of a command line, if it has a program. -/
def ofCommandLine? : List String → Option Bidder
  | [] => none
  | program :: arguments => some ⟨program, arguments, defaultTimeout⟩

/-- What an error stream says, without the blanks around it. -/
def errorText (stderr : List UInt8) : String := Text.trim (Text.ofOctetsLossy stderr)

/-- What a run comes to. A run that reaches its timeout is given up, however it would end. -/
def outcome (b : Bidder) (r : Run) : Except Failure BidResponse :=
  match r.ending with
  | .notStarted message => .error (.spawn b.program message)
  | ending =>
    if b.timeout.toNanos ≤ r.took.toNanos then .error (.timeout b.timeout)
    else match ending with
      | .notStarted message => .error (.spawn b.program message)
      | .broken message => .error (.io message)
      | .exited status stdout stderr =>
        if status.isSuccess then BidResponse.ofOctets stdout
        else .error (.exit status.text (errorText stderr))

/-- Runs a bidder for a request. -/
def run (launch : Launch) (b : Bidder) (r : BidRequest) : Run :=
  launch b.program b.arguments r.toJson.render

/-- How long a run is waited for. -/
def waited (b : Bidder) (r : Run) : Duration :=
  if b.timeout.toNanos ≤ r.took.toNanos then b.timeout else r.took

end Bidder

end Placement

import Placement.CommandLine.Program
import Placement.Script.Launch
/-
  The program with its surroundings: arguments, one environment variable, files, standard input
  and the clock. External bidders are scripts, run within the program.
-/
namespace Placement

/-- All that is left of a stream. -/
partial def readAll (stream : IO.FS.Stream) (seen : ByteArray) : IO ByteArray := do
  let more ← stream.read 65536
  if more.isEmpty then return seen else readAll stream (seen ++ more)

/-- Why a file could not be read. -/
def readErrorOf : IO.Error → CommandLine.ReadError
  | .noFileOrDirectory _ _ _ => .notFound
  | e => .other (toString e)

/-- The content of a file. -/
def readFile (path : String) : IO (Except CommandLine.ReadError (List UInt8)) := do
  try
    return .ok (← IO.FS.readBinFile path).toList
  catch e => return .error (readErrorOf e)

/-- The file that an invocation reads, if there is one. -/
def fileOf (environment : Option String) (arguments : List String) : Option String :=
  match CommandLine.read environment arguments with
  | .ok i => i.config
  | .error _ => none

/-- The terminal once its file has been read, when scoring takes so many seconds. -/
def terminal (environment : Option String) (file : Except CommandLine.ReadError (List UInt8))
    (input : List UInt8) (own : Float) : CommandLine.Terminal where
  environment := environment
  file _ := file
  input := input
  surroundings := ⟨.native, Script.launch [], own⟩

/-- Runs the program once to see how long it takes, and once to answer. -/
def serve (arguments : List String) : IO UInt32 := do
  let environment ← IO.getEnv "SWARM_BIDDER_CONFIG"
  let file ← match fileOf environment arguments with
    | some path => readFile path
    | none => pure (.error .notFound)
  let input := (← readAll (← IO.getStdin) .empty).toList
  let started ← IO.monoNanosNow
  let trial ← IO.lazyPure fun _ => CommandLine.run (terminal environment file input 0) arguments
  let ended ← IO.monoNanosNow
  if trial.code = 2 then return 2
  let own := (Duration.ofNanos (ended - started)).toFloat
  let done := CommandLine.run (terminal environment file input own) arguments
  (← IO.getStdout).putStr done.output
  return done.code.toUInt32

end Placement

/-- The program. -/
def main (arguments : List String) : IO UInt32 := Placement.serve arguments

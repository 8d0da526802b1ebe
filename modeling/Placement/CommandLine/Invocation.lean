import Placement.CommandLine.Level
import Placement.Decimal.Literal
import Placement.Tuning
/-
  What a command line asks for. Options that all commands share may stand before the command or
  behind it; behind it they count more.
-/
namespace Placement.CommandLine

/-- A command with its own options. -/
inductive Order where
  | bid (explain : Bool)
  | select (bidder : List String)
  /-- With seconds that replace the tuned timeout. -/
  | relay (seconds : Option UInt64) (bidder : List String)
  | config
  deriving DecidableEq

/-- What a command line asks for. -/
structure Invocation where
  /-- The file that holds the tuning. -/
  config : Option String
  /-- The scorer that replaces the tuned one. -/
  scorer : Option ScorerKind
  order : Order
  deriving DecidableEq

/-- Why there is no invocation: a misuse, or a question about a command or the whole program. -/
inductive Refusal where
  | misuse
  | help
  | version (command : Option String)
  deriving DecidableEq

/-- The scorer of a name. -/
def scorerOf? (name : String) : Option ScorerKind :=
  [ScorerKind.heuristic, .embedding].find? fun kind => kind.name = name

/-- A natural number of 64 bits, perhaps after a plus sign. -/
def count? (text : String) : Option UInt64 :=
  let digits :=
    match text.toList with
    | '+' :: digits => digits
    | digits => digits
  let n := Decimal.ofDigits digits
  if !digits.isEmpty && digits.all Char.isDigit && n < UInt64.size then some n.toUInt64 else none

/-- The options that all commands share. -/
def shared : List Knob := [
  ⟨"config", some fun path => path ≠ ""⟩,
  ⟨"scorer", some fun name => (scorerOf? name).isSome⟩,
  ⟨"log-format", some fun format => format = "text" || format = "json"⟩]

/-- The commands, each with its level. -/
def commands : List (String × Level) := [
  ("bid", ⟨⟨"explain", none⟩ :: shared, false, []⟩),
  ("select", ⟨shared, true, []⟩),
  ("relay", ⟨⟨"timeout-secs", some fun seconds => (count? seconds).isSome⟩ :: shared, true, []⟩),
  ("config", ⟨shared, false, []⟩)]

/-- The level of the program. -/
def program : Level := ⟨shared, false, "help" :: commands.map (·.1)⟩

/-- Why a stop within a command or before it refuses an invocation. -/
def Stop.refusal (command : Option String) : Stop → Refusal
  | .misuse => .misuse
  | .help => .help
  | .version => .version command

/-- The order for a command. A relay needs a bidder. -/
def orderOf (name : String) (g : Given) : Except Refusal Order :=
  if name = "bid" then .ok (.bid (g.has "explain"))
  else if name = "select" then .ok (.select g.rest)
  else if name = "relay" then
    if g.rest.isEmpty then .error .misuse
    else .ok (.relay ((g.value? "timeout-secs").bind count?) g.rest)
  else .ok .config

/-- Whether the names after `help` lead to a command. -/
def isHelpTopic : List String → Bool
  | [] => true
  | [name] => name = "help" || (List.lookup name commands).isSome
  | _ => false

/-- Reads the arguments of a program, with the file that its environment names. -/
def read (environment : Option String) (arguments : List String) : Except Refusal Invocation := do
  let outer ← (program.read arguments {}).mapError (Stop.refusal none)
  match outer.command with
  | none => throw .misuse
  | some (name, arguments) =>
    if name = "help" then throw (if isHelpTopic arguments then .help else .misuse)
    match List.lookup name commands with
    | none => throw .misuse
    | some level =>
      let inner ← (level.read arguments {}).mapError (Stop.refusal (some name))
      let order ← orderOf name inner
      let _ ← outer.settle.mapError (Stop.refusal none)
      if environment = some "" then throw .misuse
      return {
        config := inner.value? "config" <|> outer.value? "config" <|> environment
        scorer := (inner.value? "scorer" <|> outer.value? "scorer").bind scorerOf?
        order }

end Placement.CommandLine

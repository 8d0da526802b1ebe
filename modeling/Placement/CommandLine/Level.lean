/-
  One level of a command line: its options, and what follows them. A program and each of its
  commands are a level, read in the same way.

  The value of an option stands behind an equals sign or in the next argument. One behind an equals
  sign is looked at immediately, any other when the next option comes or the level ends.
-/
namespace Placement.CommandLine

/-- An option by its name, and the texts it takes as a value if it takes any. -/
structure Knob where
  name : String
  fits : Option (String → Bool)

/-- What a level knows. -/
structure Level where
  knobs : List Knob
  /-- Whether arguments may follow two dashes. -/
  takesRest : Bool
  commands : List String

/-- Why a command line is not run. -/
inductive Stop where
  | misuse
  | help
  | version

/-- What has been read of a level. -/
structure Given where
  /-- The options with their values. -/
  values : List (String × String) := []
  /-- Whether the last value is one that its option takes. -/
  isFit : Bool := true
  /-- The arguments after two dashes. -/
  rest : List String := []
  /-- The command of the next level, and its arguments. -/
  command : Option (String × List String) := none

namespace Given

/-- The value of an option. -/
def value? (g : Given) (name : String) : Option String := List.lookup name g.values

/-- Whether an option is given. -/
def has (g : Given) (name : String) : Bool := (g.value? name).isSome

/-- Looks at the last value. -/
def settle (g : Given) : Except Stop Given := if g.isFit then .ok g else .error .misuse

end Given

/-- The name of a long option, and the value behind its equals sign. -/
def splitOption (argument : String) : String × Option String :=
  let cs := argument.toList.drop 2
  let name := cs.takeWhile (· ≠ '=')
  (String.ofList name,
    match cs.drop name.length with
    | _ :: value => some (String.ofList value)
    | [] => none)

/-- Whether an argument is no value, for it stands for an option. -/
def isOption (argument : String) : Bool := argument.startsWith "-" && argument ≠ "-"

/-- What an option without a value asks for, if every level knows it. -/
def stopOf? (name : String) : Option Stop :=
  if name = "help" then some .help else if name = "version" then some .version else none

namespace Level

/-- The option of a name. -/
def knob? (l : Level) (name : String) : Option Knob := l.knobs.find? fun knob => knob.name = name

/-- The option of a name that has not been given yet. -/
def fresh (l : Level) (g : Given) (name : String) : Except Stop Knob :=
  match l.knob? name with
  | some knob => if g.has name then .error .misuse else .ok knob
  | none => .error .misuse

/-- Reads the letters of short options: the first of them counts. -/
def short (argument : String) : Stop :=
  match argument.toList.drop 1 with
  | 'h' :: _ => .help
  | 'V' :: _ => .version
  | _ => .misuse

/-- Reads the arguments of a level. -/
def read (l : Level) : List String → Given → Except Stop Given
  | [], g => g.settle
  | argument :: rest, g =>
    if argument = "--" then
      if l.takesRest || rest.isEmpty then { g with rest }.settle else .error .misuse
    else if argument.startsWith "--" then do
      let (name, value) := splitOption argument
      let g ← g.settle
      match stopOf? name, value with
      | some stop, none => throw stop
      | some _, some _ => throw .misuse
      | none, value =>
        let knob ← l.fresh g name
        match knob.fits, value, rest with
        | none, none, rest => l.read rest { g with values := (name, "") :: g.values }
        | none, some _, _ => throw .misuse
        | some fits, some value, rest =>
          if fits value then l.read rest { g with values := (name, value) :: g.values }
          else throw .misuse
        | some fits, none, value :: rest =>
          if isOption value then throw .misuse
          else l.read rest { g with values := (name, value) :: g.values, isFit := fits value }
        | some _, none, [] => throw .misuse
    else if isOption argument then do
      let _ ← g.settle
      throw (short argument)
    else if l.commands.contains argument then .ok { g with command := some (argument, rest) }
    else .error .misuse

end Level

end Placement.CommandLine

import Placement.External.Bidder
import Placement.Script.Format
import Placement.Script.Pattern
/-
  The utilities that a script may call. A utility sees its arguments, its input and the files, and
  changes nothing but what its effect says.
-/
namespace Placement.Script

/-- How many octets a pipe holds. -/
def pipeSize : Nat := 65536

/-- Files by their names. -/
abbrev Files := List (Raw × Raw)

/-- The content of a file. The null device is empty. -/
def Files.content? (files : Files) (name : Raw) : Option Raw :=
  if name = Raw.ofText "/dev/null" then some [] else List.lookup name files

/-- What a utility is called with. -/
structure Call where
  name : String
  arguments : List Raw
  input : Raw
  files : Files
  /-- The name of the shell. -/
  shell : Raw

/-- What a utility does. -/
structure Effect where
  status : Nat := 0
  out : Raw := []
  err : Raw := []
  /-- How many octets of the input are taken. -/
  reads : Nat := 0
  /-- How many of them are taken at a time, if the output goes on with the input. -/
  block : Option Nat := none
  /-- Nanoseconds that pass. -/
  took : Nat := 0
  /-- The signal that is sent to the shell. -/
  signal : Option Nat := none

namespace Call

/-- A call that fails with a message under the utility's name. -/
def failure (c : Call) (status : Nat) (message : String) : Effect :=
  { status, err := Raw.ofText (c.name ++ ": " ++ message ++ "\n") }

/-- Likewise, for a utility that is a part of the shell. -/
def ownFailure (c : Call) (status : Nat) (message : String) : Effect :=
  { status, err := c.shell ++ Raw.ofText (": 1: " ++ c.name ++ ": " ++ message ++ "\n") }

/-- The input, or a file; none when the file is missing. -/
def source? (c : Call) (name : Raw) : Option Raw :=
  if name = ['-'] then some c.input else c.files.content? name

/-- The missing files among some names. -/
def missing (c : Call) (names : List Raw) : List Raw :=
  names.filter fun name => (c.source? name).isNone

/-- What is said of missing files. -/
def missingText (c : Call) (names : List Raw) : Raw :=
  (c.missing names).flatMap fun name =>
    Raw.ofText (c.name ++ ": ") ++ name ++ Raw.ofText ": No such file or directory\n"

/-- The names of the files to read; without one, the input. -/
def sources (names : List Raw) : List Raw := if names.isEmpty then [['-']] else names

/-- The files one after the other. -/
def concatenated (c : Call) (names : List Raw) : Raw := (sources names).flatMap fun name =>
  (c.source? name).getD []

/-- A call that reads files and writes what becomes of them. -/
def filter (c : Call) (names : List Raw) (f : Raw → Raw) : Effect where
  status := if (c.missing (sources names)).isEmpty then 0 else 1
  out := f (c.concatenated names)
  err := c.missingText (sources names)
  reads := if (sources names).contains ['-'] then c.input.length else 0

/-- Whether the input is all that a call reads. -/
def isInputOnly (names : List Raw) : Bool := sources names = [['-']]

/-- Copies files. -/
def cat (c : Call) : Effect :=
  let names := c.arguments.filter fun a => a = ['-'] || a.head? ≠ some '-'
  { c.filter names id with block := if isInputOnly names then some pipeSize else none }

/-- The single-letter options of a call, and the arguments after them. -/
def options : List Raw → List Char × List Raw
  | [] => ([], [])
  | argument :: rest =>
    match argument with
    | '-' :: c :: letters =>
      if c = '-' then ([], rest)
      else
        let others := options rest
        (c :: letters ++ others.1, others.2)
    | _ => ([], argument :: rest)

/-- An octet with its letter made small. -/
def folded (letters : List Char) (cs : Raw) : Raw :=
  if letters.contains 'i' then cs.map Char.toLower else cs

/-- Selects lines by a pattern: 0 if there is one, 1 if there is none. -/
def grep (c : Call) : Effect :=
  let (letters, operands) := options c.arguments
  match operands with
  | [] => c.failure 2 "no pattern"
  | text :: names =>
    let text := folded letters text
    let pattern := if letters.contains 'F' then Pattern.literal text else Pattern.ofText text
    let selected := (Raw.lines (c.concatenated names)).filter fun line =>
      pattern.matchesIn (folded letters line) != letters.contains 'v'
    { status := if !(c.missing (sources names)).isEmpty then 2 else if selected.isEmpty then 1 else 0
      out :=
        if letters.contains 'q' then []
        else if letters.contains 'c' then Raw.ofNat selected.length ++ ['\n']
        else Raw.ofLines selected
      err := c.missingText (sources names)
      reads := if (sources names).contains ['-'] then c.input.length else 0 }

/-- A count given behind an option, in the same argument or in the next one. -/
def countBehind (option : Char) : List Raw → Option (Nat × List Raw)
  | ['-', c] :: count :: rest =>
    if c = option then some (Format.number count, rest) else none
  | ('-' :: c :: count) :: rest =>
    if c = option && count.all Char.isDigit then some (Format.number count, rest) else none
  | _ => none

/-- The octets that are read at a time by a utility that looks for the end of something. -/
def readSize : Nat := 8192

/-- The first octets of files. -/
def headOctets (c : Call) (n : Nat) (names : List Raw) : Effect :=
  if names = [Raw.ofText "/dev/zero"] then { out := List.replicate n '\x00' }
  else
    let e := c.filter names (·.take n)
    if isInputOnly names then { e with reads := min n e.reads, block := some readSize } else e

/-- The first lines of files. -/
def headLines (c : Call) (n : Nat) (names : List Raw) : Effect :=
  let e := c.filter names fun cs => Raw.ofLines ((Raw.lines cs).take n)
  if isInputOnly names then
    { e with reads := min ((e.out.length + (readSize - 1)) / readSize * readSize) e.reads }
  else e

/-- The front of files: so many octets, or so many lines. -/
def head (c : Call) : Effect :=
  match countBehind 'c' c.arguments, countBehind 'n' c.arguments, c.arguments with
  | some (n, names), _, _ => c.headOctets n names
  | none, some (n, names), _ => c.headLines n names
  | none, none, ('-' :: count) :: names => c.headLines (Format.number count) names
  | none, none, names => c.headLines 10 names

/-- The end of files: so many octets, or so many lines. -/
def tail (c : Call) : Effect :=
  let last (n : Nat) (cs : Raw) : Raw :=
    Raw.ofLines ((Raw.lines cs).drop ((Raw.lines cs).length - n))
  match countBehind 'c' c.arguments, countBehind 'n' c.arguments with
  | some (n, names), _ => c.filter names fun cs => cs.drop (cs.length - n)
  | none, some (n, names) => c.filter names (last n)
  | none, none => c.filter c.arguments (last 10)

/-- Counts octets, lines or words of the input. -/
def wc (c : Call) : Effect :=
  let (letters, names) := options c.arguments
  c.filter names fun cs =>
    Raw.ofNat (
      if letters.contains 'l' then (cs.filter (· = '\n')).length
      else if letters.contains 'w' then
        ((cs.splitBy fun a b => Raw.isBlank a == Raw.isBlank b).filter
          fun word => word.any fun c => !Raw.isBlank c).length
      else cs.length) ++ ['\n']

/-- The characters of a set such as `a-z`. -/
def charSet : Raw → Raw
  | a :: '-' :: b :: rest =>
    (List.range (b.toNat + 1 - a.toNat)).map (fun i => Char.ofNat (a.toNat + i)) ++ charSet rest
  | c :: rest => c :: charSet rest
  | [] => []

/-- The character at the place of another one in a second set, which ends in its last one again
and again. -/
def exchanged (source target : Raw) (c : Char) : Char :=
  match source.idxOf? c with
  | some i => (target[i]?).getD (target.getLastD c)
  | none => c

/-- Deletes or exchanges characters of the input. -/
def tr (c : Call) : Effect :=
  let (letters, operands) := options c.arguments
  let sets := operands.map fun set => charSet (Format.unescape set.length set).1
  let source := sets.headD []
  let target := (sets.drop 1).headD []
  { out := if letters.contains 'd' then c.input.filter fun o => !source.contains o
      else c.input.map (exchanged source target)
    reads := c.input.length
    block := some readSize }

/-- The numbers from one to another. -/
def seq (c : Call) : Effect :=
  let numbers (first last : Int) : Effect :=
    { out := Raw.ofLines ((List.range (last - first + 1).toNat).map fun (i : Nat) =>
        Format.integerText (first + i)) }
  match c.arguments.map Format.integer with
  | [last] => numbers 1 last
  | [first, last] => numbers first last
  | _ => c.failure 1 "missing operand"

/-- Nanoseconds of a time such as `1.5` or `2m`. -/
def nanos? (cs : Raw) : Option Nat :=
  let (whole, rest) := Decimal.spanDigits cs
  let (fraction, rest) :=
    match rest with
    | '.' :: rest => Decimal.spanDigits rest
    | rest => ([], rest)
  let unit? : Option Nat :=
    if rest = [] || rest = ['s'] then some 1
    else if rest = ['m'] then some 60
    else if rest = ['h'] then some 3600
    else if rest = ['d'] then some 86400
    else none
  if whole.isEmpty && fraction.isEmpty then none
  else unit?.map fun unit =>
    Format.number (whole ++ fraction) * unit * 1000000000 / Nat.pow 10 fraction.length

/-- Lets time pass. -/
def sleep (c : Call) : Effect :=
  match c.arguments.mapM nanos? with
  | some (t :: ts) => { took := (t :: ts).foldl (· + ·) 0 }
  | some [] => c.failure 1 "missing operand"
  | none => c.failure 1 "invalid time interval"

/-- Compares two integers as an operator asks; none for an unknown operator. -/
def compared? (operator : String) (a b : Int) : Option Bool :=
  if operator = "-eq" then some (a = b)
  else if operator = "-ne" then some (a ≠ b)
  else if operator = "-lt" then some (a < b)
  else if operator = "-le" then some (a ≤ b)
  else if operator = "-gt" then some (b < a)
  else if operator = "-ge" then some (b ≤ a)
  else none

/-- Whether a condition holds; none if it cannot be read. -/
def holds? (files : Files) : List Raw → Option Bool
  | [] => some false
  | [a] => some !a.isEmpty
  | ['!'] :: rest => (holds? files rest).map (!·)
  | [['-', 'n'], a] => some !a.isEmpty
  | [['-', 'z'], a] => some a.isEmpty
  | [['-', 's'], a] => some ((files.content? a).any fun content => !content.isEmpty)
  | [['-', c], a] =>
    if c = 'e' || c = 'f' || c = 'r' then some (files.content? a).isSome
    else if c = 'd' || c = 't' || c = 'x' then some false
    else none
  | [a, ['='], b] => some (a = b)
  | [a, ['!', '='], b] => some (a ≠ b)
  | [a, operator, b] => compared? operator.toText (Format.integer a) (Format.integer b)
  | _ => none

/-- Looks at a condition: 0 if it holds. -/
def test (c : Call) (condition : List Raw) : Effect :=
  match holds? c.files condition with
  | some true => {}
  | some false => { status := 1 }
  | none => c.ownFailure 2 "unexpected operator"

/-- The number of a signal, given as a number or by its name. -/
def signalNumber? (cs : Raw) : Option Nat :=
  if !cs.isEmpty && cs.all Char.isDigit then some (Format.number cs)
  else ExitStatus.signalNames.findSome? fun entry =>
    if entry.2 = cs.toText || entry.2 = "SIG" ++ cs.toText then some entry.1 else none

/-- The number that stands for the shell that runs a script. -/
def shellId : Raw := ['1']

/-- Sends a signal, by default 15. Only the shell itself is there to be sent one. -/
def send (c : Call) (signal : Option Nat) (targets : List Raw) : Effect :=
  match signal with
  | none => c.ownFailure 2 "bad signal"
  | some n =>
    if !targets.contains shellId then c.ownFailure 1 "No such process"
    else if (List.lookup n ExitStatus.signalNames).isSome then { signal := some n }
    else {}

/-- Sends a signal. -/
def kill (c : Call) : Effect :=
  match c.arguments with
  | ['-', 's'] :: name :: targets => c.send (signalNumber? name) targets
  | ('-' :: name) :: targets => c.send (signalNumber? name) targets
  | targets => c.send (some 15) targets

/-- What a utility does within a shell, if there is one of that name. -/
def effect? (c : Call) : Option Effect :=
  match c.name with
  | ":" | "true" => some {}
  | "false" => some { status := 1 }
  | "echo" => some { out := Format.echo c.arguments }
  | "printf" =>
    some (match c.arguments with
      | format :: arguments => { out := Format.printf format arguments }
      | [] => c.ownFailure 2 "usage: printf format [arg ...]")
  | "cat" => some c.cat
  | "grep" => some c.grep
  | "head" => some c.head
  | "tail" => some c.tail
  | "wc" => some c.wc
  | "tr" => some c.tr
  | "seq" => some c.seq
  | "sleep" => some c.sleep
  | "kill" => some c.kill
  | "test" => some (c.test c.arguments)
  | "[" =>
    some (if c.arguments.getLast? = some [']'] then c.test c.arguments.dropLast
      else c.ownFailure 2 "missing ]")
  | _ => none

/-- What a utility does as a program of its own. -/
def programEffect? (c : Call) : Option Effect :=
  match c.name with
  | ":" => none
  | "echo" => some { out := Format.programEcho c.arguments }
  | _ => c.effect?

end Call

end Placement.Script

import Placement.Script.Reader
import Placement.Script.Utility
/-
  The machine that a script runs on: what commands can see and change. Its input is the request,
  which another program writes into a pipe, and its output and its errors are pipes that the same
  program reads only after it has written the request. Hence a script that fills one of them before
  it has taken enough of the request comes to a stop (`Machine.isAwaited`, `Machine.write`).
-/
namespace Placement.Script

/-- How many octets are in a page of a pipe. Room for more comes a page at a time. -/
def pageSize : Nat := 4096

/-- Nanoseconds beyond any timeout. -/
def forever : Nat := UInt64.size * 1000000000

/-- Where a stream of a command goes. -/
inductive Sink where
  | nowhere
  /-- One of the buffers of a machine; the first two are pipes to the program that waits. -/
  | buffer (index : Nat)
  | file (name : Raw)

/-- Whether a stream goes to the program that waits. -/
def Sink.isPipe : Sink → Bool
  | .buffer i => i < 2
  | _ => false

/-- Where a command's input comes from. -/
structure Source where
  /-- What is left of it. -/
  text : Raw
  /-- Whether it is the pipe that the request comes through. -/
  isRequest : Bool

/-- What has been written to a place. -/
structure Buffer where
  /-- The octets, the last one first. -/
  backwards : Raw := []
  size : Nat := 0

namespace Buffer

/-- The octets from the first to the last. -/
def text (b : Buffer) : Raw := b.backwards.reverse

/-- Writes behind what is there. -/
def append (b : Buffer) (octets : Raw) : Buffer :=
  ⟨octets.reverseAux b.backwards, b.size + octets.length⟩

end Buffer

/-- Why the body of a loop is left. -/
inductive Leave where
  | stop
  | next
  deriving DecidableEq

/-- What commands see and change. -/
structure Machine where
  input : Source
  /-- How many octets the request has. -/
  request : Nat
  /-- How many of them have been taken out of the pipe. -/
  taken : Nat := 0
  /-- What has been written: output, errors, and what is being captured. -/
  buffers : List Buffer := [{}, {}]
  out : Sink := .buffer 0
  err : Sink := .buffer 1
  files : Files
  /-- The name of the shell and its arguments. -/
  parameters : List Raw
  bindings : List (String × Raw) := []
  /-- The status of the last command. -/
  status : Nat := 0
  /-- Nanoseconds that have passed. -/
  took : Nat := 0
  isBackground : Bool := false
  /-- The nanosecond at which the last command in the background ends. -/
  busy : Nat := 0
  /-- The nanosecond at which the last one of them that writes to a pipe ends. -/
  held : Nat := 0
  /-- Why the body of a loop is being left, if it is. -/
  leaving : Option Leave := none
  /-- How the shell ended, once it has. -/
  ended : Option ExitStatus := none

namespace Machine

/-- Whether no further command runs for now. -/
def isDone (m : Machine) : Bool := m.ended.isSome || m.leaving.isSome

/-- Whether the request still is being written, because the pipe has no room for all of it. -/
def isAwaited (m : Machine) : Bool :=
  pipeSize / pageSize < (m.request + (pageSize - 1)) / pageSize - m.taken / pageSize

/-- Never comes to an end. -/
def stall (m : Machine) : Machine :=
  { m with took := m.took + forever, ended := some (.code 2) }

/-- Takes octets from the front of the input. -/
def takeInput (m : Machine) (n : Nat) : Machine :=
  { m with
    input := { m.input with text := m.input.text.drop n }
    taken := if m.input.isRequest then m.taken + min n m.input.text.length else m.taken }

/-- Gives up the input for good. The rest of the request then is thrown away. -/
def closeInput (m : Machine) : Machine :=
  { m with input := ⟨[], false⟩, taken := if m.input.isRequest then m.request else m.taken }

/-- Writes to a sink. A full pipe that nobody reads yet stops the machine. -/
def write (m : Machine) (sink : Sink) (text : Raw) : Machine :=
  match sink with
  | .nowhere => m
  | .buffer i =>
    let written := { m with buffers := m.buffers.modify i (·.append text) }
    let isFull := (m.buffers[i]?).any fun b => pipeSize < b.size + text.length
    if sink.isPipe && isFull && m.isAwaited then written.stall else written
  | .file name =>
    let content := (List.lookup name m.files).getD [] ++ text
    { m with files := (name, content) :: m.files.filter (·.1 ≠ name) }

/-- Takes input and writes what becomes of it, a block at a time. The second argument bounds the
number of blocks. -/
def passOn (block : Nat) : Nat → Raw → Machine → Machine
  | 0, _, m => m
  | n + 1, text, m =>
    if text.isEmpty then m
    else
      let part := text.take block
      passOn block n (text.drop block) ((m.takeInput part.length).write m.out part)

/-- Ends the shell. -/
def exit (m : Machine) (status : Nat) : Machine :=
  { m with status := status % 256, ended := some (.code (status % 256)) }

/-- The name of the shell. -/
def name (m : Machine) : Raw := m.parameters.headD (Raw.ofText "sh")

/-- Fails with a message of the shell. -/
def fail (m : Machine) (status : Nat) (message : Raw) : Machine :=
  { m.write m.err (m.name ++ Raw.ofText ": 1: " ++ message ++ ['\n']) with status }

/-- Fails for want of a command. -/
def notFound (m : Machine) (command : Raw) : Machine :=
  m.fail 127 (command ++ Raw.ofText ": not found")

/-- Sets a variable. -/
def assign (m : Machine) (key : String) (value : Raw) : Machine :=
  { m with bindings := (key, value) :: m.bindings.filter (·.1 ≠ key) }

/-- The value of a variable or of a special parameter. -/
def value (m : Machine) (key : String) : Raw :=
  if key = "?" then Raw.ofNat m.status
  else if key = "$" then Call.shellId
  else if key = "#" then Raw.ofNat (m.parameters.length - 1)
  else if key.toList.all Char.isDigit then
    (m.parameters[Format.number key.toList]?).getD []
  else (List.lookup key m.bindings).getD []

/-- Notes when a command in the background ends, and whether it writes to a pipe. -/
def note (m : Machine) : Machine :=
  if m.isBackground then
    { m with
      busy := max m.busy m.took
      held := if m.out.isPipe || m.err.isPipe then max m.held m.took else m.held }
  else m

/-- Takes the effect of a utility. -/
def apply (m : Machine) (e : Effect) : Machine :=
  let read :=
    match e.block with
    | some block => (m.passOn block e.out.length e.out).takeInput (e.reads - e.out.length)
    | none => (m.takeInput e.reads).write m.out e.out
  let m := read.write m.err e.err
  let m := { m with status := e.status, took := m.took + e.took }.note
  match e.signal with
  | some n => { m with ended := some (.signal n) }
  | none => m

/-- Gives back the streams that a command had for itself. -/
def restore (m before : Machine) : Machine := { m with out := before.out, err := before.err }

/-- Goes on after a shell of its own: its variables and its streams are forgotten, and its end is
the end of one command, unless a signal ended it or it never ends. -/
def rejoin (m inner : Machine) : Machine :=
  let joined := { m with
    input := inner.input, taken := inner.taken, buffers := inner.buffers, files := inner.files
    status := inner.status, took := inner.took, busy := inner.busy, held := inner.held }
  match inner.ended with
  | some (.signal n) => { joined with ended := some (.signal n) }
  | some (.code n) => if forever ≤ inner.took then { joined with ended := some (.code n) } else joined
  | none => joined

/-- Reads a line into variables; the last one takes what is left. It fails at the end of the
input, with what was there. -/
def readLine (m : Machine) (names : List String) : Machine :=
  let line := m.input.text.takeWhile (· ≠ '\n')
  let isLast := line.length = m.input.text.length
  take line names { m.takeInput (line.length + 1) with status := if isLast then 1 else 0 }
where
  /-- Gives each variable a word. -/
  take (line : Raw) : List String → Machine → Machine
    | [], m => m
    | [last], m =>
      m.assign last ((line.dropWhile Raw.isBlank).reverse.dropWhile Raw.isBlank).reverse
    | first :: others, m =>
      let line := line.dropWhile Raw.isBlank
      let word := line.takeWhile fun c => !Raw.isBlank c
      take (line.drop word.length) others (m.assign first word)

/-- How often the body of a loop may run; a loop that goes on runs forever. -/
def rounds : Nat := 100000

/-- Runs a body as long as a condition ends well. The status is that of the last round. -/
def repeatWhile (condition body : Machine → Machine) : Nat → Nat → Machine → Machine
  | 0, _, m => m.stall
  | n + 1, status, m =>
    let tested := condition m
    if tested.isDone then tested
    else if tested.status ≠ 0 then { tested with status }
    else
      let done := body tested
      if done.ended.isSome then done
      else
        let round := { done with leaving := none }
        if done.leaving = some .stop then { round with status := 0 }
        else repeatWhile condition body n done.status round

/-- Runs a body once for each value of a variable. -/
def repeatFor (key : String) (body : Machine → Machine) : List Raw → Machine → Machine
  | [], m => m
  | value :: rest, m =>
    let done := body (m.assign key value)
    if done.ended.isSome then done
    else
      let round := { done with leaving := none }
      if done.leaving = some .stop then { round with status := 0 }
      else repeatFor key body rest round

end Machine

/-- Words as they grow out of the parts of one: those that are complete, and the one at hand. -/
structure Fields where
  complete : List Raw := []
  current : Option Raw := none

namespace Fields

/-- Goes on with the word at hand. -/
def append (f : Fields) (text : Raw) : Fields :=
  { f with current := some (f.current.getD [] ++ text) }

/-- Completes the word at hand. -/
def split (f : Fields) : Fields := ⟨f.complete ++ f.current.toList, none⟩

/-- Goes on with text that is split at blanks. -/
def spread (f : Fields) : Raw → Fields
  | [] => f
  | c :: rest => if Raw.isBlank c then f.split.spread rest else (f.append [c]).spread rest

/-- Goes on with a value. -/
def add (f : Fields) (isQuoted : Bool) (text : Raw) : Fields :=
  if isQuoted then f.append text else f.spread text

end Fields

/-- The name of a utility without the directory it is kept in. -/
def utilityName (command : Raw) : String :=
  let text := command.toText
  if text.startsWith "/bin/" then (text.drop 5).toString
  else if text.startsWith "/usr/bin/" then (text.drop 9).toString
  else text

end Placement.Script

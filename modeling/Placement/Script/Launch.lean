import Placement.Script.Run
/-
  A launch that runs scripts: a program is a shell or one of its utilities.
-/
namespace Placement.Script

/-- Why a program that is not there cannot be started. -/
def noSuchProgram : String := "No such file or directory (os error 2)"

/-- Why a file that is there cannot be started. -/
def noPermission : String := "Permission denied (os error 13)"

/-- Files that are there and are no programs. -/
def isOtherFile (program : String) : Bool :=
  program = "/dev/null" || program = "/" || program = "." || program = ".." || program = "/tmp"

/-- The machine in which a program starts. -/
def start (files : List (String × List UInt8)) (program input : String) : Machine where
  input := ⟨Raw.ofText input, true⟩
  request := (Raw.ofText input).length
  files := files.map fun file => (Raw.ofText file.1, Raw.ofOctets file.2)
  parameters := [Raw.ofText program]

/-- A bound on the depth of a run. -/
def depthOf (files : List (String × List UInt8)) (arguments : List String) (input : String) : Nat :=
  let scripts := arguments.map String.length ++ files.map fun file => file.2.length
  8 * scripts.foldl (· + ·) input.length + 256

/-- What has been written to a buffer. -/
def Machine.written (m : Machine) (index : Nat) : List UInt8 :=
  ((m.buffers[index]?).getD {}).text.toOctets

/-- How a machine that has finished ended. -/
def Machine.ending (m : Machine) : Ending :=
  .exited (m.ended.getD (.code m.status)) (m.written 0) (m.written 1)

/-- Runs a program in a directory with some files. -/
def launch (files : List (String × List UInt8)) : Launch := fun program arguments input =>
  if isOtherFile program then ⟨.notStarted noPermission, .ofSeconds 0⟩
  else
    let command := Raw.ofText program
    let words := arguments.map Raw.ofText
    let m := start files program input
    let ended (m : Machine) : Run := ⟨m.ending, .ofNanos (max m.took m.held)⟩
    if isShell command then ended (interpret (depthOf files arguments input) command words m)
    else match programEffect? command words m with
      | some effect => ended (m.apply effect)
      | none => ⟨.notStarted noSuchProgram, .ofSeconds 0⟩

end Placement.Script

/-
  The exchange with a bidder that runs: three bounded pipes between this program, the parent, and
  the bidder, its child. The parent writes the whole request, then closes the pipe, and only then
  takes what the child has written. Octets move one at a time and are only counted.
-/
namespace Placement

/-- A stream of a child. -/
inductive Stream where
  | input
  | output
  | errors
  deriving DecidableEq

/-- How many octets each pipe holds. -/
structure Capacity where
  input : Nat
  output : Nat
  errors : Nat
  input_pos : 0 < input
  output_pos : 0 < output
  errors_pos : 0 < errors

/-- An exchange on its way. -/
structure Exchange where
  capacity : Capacity
  /-- Octets of the request that are not written yet. -/
  unsent : Nat
  /-- Whether the parent has closed the child's input. -/
  isClosed : Bool
  /-- Octets within the pipes. -/
  input : Nat
  output : Nat
  errors : Nat
  /-- The octets that the child will read and write, in its order. -/
  plan : List Stream
  hasExited : Bool

/-- What can happen next in an exchange. -/
inductive Move where
  /-- The parent writes an octet of the request. -/
  | send
  /-- The parent closes the child's input. -/
  | close
  /-- The parent takes an octet that the child has written. -/
  | drain (stream : Stream)
  /-- The child reads or writes the next octet of its plan. -/
  | proceed
  /-- The child finds the end of its input and exits. -/
  | exit
  deriving DecidableEq

namespace Exchange

/-- An exchange before its first move. -/
def start (capacity : Capacity) (request : Nat) (plan : List Stream) : Exchange where
  capacity := capacity
  unsent := request
  isClosed := false
  input := 0
  output := 0
  errors := 0
  plan := plan
  hasExited := false

/-- The next octet of the child's plan: a read waits for an octet, a write for room. -/
def proceed? (e : Exchange) : Option Exchange :=
  match e.plan with
  | [] => none
  | .input :: rest => if 0 < e.input then some { e with input := e.input - 1, plan := rest } else none
  | .output :: rest =>
    if e.output < e.capacity.output then some { e with output := e.output + 1, plan := rest }
    else none
  | .errors :: rest =>
    if e.errors < e.capacity.errors then some { e with errors := e.errors + 1, plan := rest }
    else none

/-- What a move leads to, if it is possible. The parent drains once it has written and closed. -/
def after? (e : Exchange) : Move → Option Exchange
  | .send =>
    if 0 < e.unsent ∧ e.input < e.capacity.input then
      some { e with unsent := e.unsent - 1, input := e.input + 1 }
    else none
  | .close => if e.unsent = 0 ∧ e.isClosed = false then some { e with isClosed := true } else none
  | .drain .input => none
  | .drain .output =>
    if e.isClosed ∧ 0 < e.output then some { e with output := e.output - 1 } else none
  | .drain .errors =>
    if e.isClosed ∧ 0 < e.errors then some { e with errors := e.errors - 1 } else none
  | .proceed => if e.hasExited then none else e.proceed?
  | .exit =>
    if e.plan = [] ∧ e.isClosed ∧ e.input = 0 ∧ e.hasExited = false then
      some { e with hasExited := true }
    else none

/-- What a row of moves leads to, if each is possible. -/
def afterAll? (e : Exchange) : List Move → Option Exchange
  | [] => some e
  | move :: rest => (e.after? move).bind fun next => next.afterAll? rest

/-- Whether no move is possible. -/
def IsStuck (e : Exchange) : Prop := ∀ move, e.after? move = none

/-- Whether a child reads its whole input. -/
def ReadsAll (request : Nat) (plan : List Stream) : Prop := plan.count .input = request

end Exchange

end Placement

import Placement.Record.Fault
/-
  Records as JSON: an object with named fields, or an array of the fields in their order.

  A `Shape α` reads an `α` either way. In an object every known key is checked first, in the order
  the members stand in, and only then are missing fields looked for, in the order of the record.
-/
namespace Placement

/-- How the fields of a record are read. -/
structure Shape (α : Type) where
  /-- The keys, each with what is wrong with a value under it. -/
  columns : List (String × (Json → Option Fault))
  /-- The record in an object whose known members are well typed. -/
  ofMembers : Json.Members → Except Fault α
  /-- The record at the front of an array, with the rest of the array. A record that ends too soon
  is reported under this name and size. -/
  ofItems : String → Nat → List Json → Except Fault (α × List Json)

namespace Shape

variable {α β : Type}

/-- A record without fields. -/
def empty (a : α) : Shape α where
  columns := []
  ofMembers _ := .ok a
  ofItems _ _ items := .ok (a, items)

/-- What is wrong with a value, given how it is read. -/
def faultOf (read : Json → Except Fault α) (v : Json) : Option Fault :=
  match read v with
  | .ok _ => none
  | .error fault => some fault

/-- Appends a field. `absent` is its value when an object lacks the key, `omitted` when an array
ends before it. -/
def field (s : Shape (α → β)) (key : String) (read : Json → Except Fault α)
    (absent omitted : Option α) : Shape β where
  columns := s.columns ++ [(key, faultOf read)]
  ofMembers members := do
    let f ← s.ofMembers members
    match members.find? key with
    | some v => return f (← read v)
    | none =>
      match absent with
      | some a => return f a
      | none => throw (.missing key)
  ofItems name size items := do
    let (f, rest) ← s.ofItems name size items
    match rest with
    | v :: rest => return (f (← read v), rest)
    | [] =>
      match omitted with
      | some a => return (f a, [])
      | none => throw (.tooShort s.columns.length name size)

/-- Appends a field that must be there. -/
def required (s : Shape (α → β)) (key : String) (read : Json → Except Fault α) : Shape β :=
  s.field key read none none

/-- Appends a field that an object may lack. -/
def optional (s : Shape (Option α → β)) (key : String) (read : Json → Except Fault α) : Shape β :=
  s.field key (nullable read) (some none) none
where
  nullable (read : Json → Except Fault α) : Json → Except Fault (Option α)
    | .null => .ok none
    | v => some <$> read v

/-- Appends a field that an object may lack and an array may leave off at its end. -/
def trailing (s : Shape (Option α → β)) (key : String) (read : Json → Except Fault α) : Shape β :=
  s.field key (optional.nullable read) (some none) (some none)

/-- The first ill-typed member under a known key. -/
def fault? (s : Shape α) (members : Json.Members) : Option Fault :=
  members.findSome? fun member => (List.lookup member.1 s.columns).bind (· member.2)

/-- Reads a record of a given name. -/
def decode (s : Shape α) (name : String) : Json → Except Fault α
  | .object members =>
    match s.fault? members with
    | some fault => .error fault
    | none => s.ofMembers members
  | .array items => do
    let (a, rest) ← s.ofItems name s.columns.length items
    if rest.isEmpty then return a else throw (.tooLong items.length)
  | v => .error (.wrongType v ("struct " ++ name))

end Shape

/-- A natural number of 64 bits. -/
def readCount : Json → Except Fault UInt64
  | .number (.natural n) => .ok n
  | .number (.negative i) => .error (.outside i "u64")
  | v => .error (.wrongType v "u64")

/-- Any number, as the nearest double. -/
def readDouble : Json → Except Fault Float
  | .number n => .ok n.toFloat
  | v => .error (.wrongType v "f64")

/-- A truth value. -/
def readFlag : Json → Except Fault Bool
  | .bool b => .ok b
  | v => .error (.wrongType v "a boolean")

/-- A text. -/
def readText : Json → Except Fault String
  | .text s => .ok s
  | v => .error (.wrongType v "a string")

end Placement

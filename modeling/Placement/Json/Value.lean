/-
  JSON values. The members of an object keep the order they are given in; the reader gathers them
  in ascending order of their keys, each key once.
-/
namespace Placement

/-- A JSON number: an integer of 64 bits keeps its exact value, any other number is a double. -/
inductive Json.Number where
  | natural (n : UInt64)
  | negative (i : Int64)
  | double (x : Float)
  deriving DecidableEq

/-- A JSON value. -/
inductive Json where
  | null
  | bool (b : Bool)
  | number (n : Json.Number)
  | text (s : String)
  | array (items : List Json)
  | object (members : List (String × Json))

namespace Json

/-- The double nearest to an integer of 64 bits: that of its magnitude, with its sign. -/
def nearestDouble (i : Int64) : Float :=
  if i < 0 then -(-i).toUInt64.toFloat else i.toUInt64.toFloat

/-- The double nearest to a number. -/
def Number.toFloat : Number → Float
  | .natural n => n.toFloat
  | .negative i => nearestDouble i
  | .double x => x

/-- The members of an object. -/
abbrev Members := List (String × Json)

/-- The value under a key. -/
def Members.find? (members : Members) (key : String) : Option Json :=
  List.lookup key members

/-- Sets a key, in its place in the order. An earlier value under the key is replaced. -/
def Members.set (key : String) (value : Json) : Members → Members
  | [] => [(key, value)]
  | (k, v) :: rest =>
    if key < k then (key, value) :: (k, v) :: rest
    else if key = k then (key, value) :: rest
    else (k, v) :: Members.set key value rest

/-- Gathers members given in any order; of equal keys the last one counts. -/
def Members.gather (entries : List (String × Json)) : Members :=
  entries.foldl (fun members entry => Members.set entry.1 entry.2 members) []

/-- The value under a key of an object. -/
def get? (v : Json) (key : String) : Option Json :=
  match v with
  | .object members => Members.find? members key
  | _ => none

/-- The name of a value's kind. -/
def kind : Json → String
  | .null => "null"
  | .bool _ => "boolean"
  | .number _ => "number"
  | .text _ => "string"
  | .array _ => "array"
  | .object _ => "object"

/-- The double that a number denotes. -/
def toFloat? : Json → Option Float
  | .number n => some n.toFloat
  | _ => none

/-- The text that a string value holds. -/
def toText? : Json → Option String
  | .text s => some s
  | _ => none

end Json

end Placement

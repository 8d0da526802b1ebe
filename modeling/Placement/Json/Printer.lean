import Placement.Decimal.Layout
import Placement.Json.Value
import Placement.Text.Quoted
/-
  JSON values in compact form: no blanks, members in the order they stand in.
-/
namespace Placement.Json

open Decimal (Layout)

/-- Doubles in JSON texts: the fewest digits that read back, positional from `0.00001` up to 16
digits before the point, an integral number with `.0`. What is no number is written `null`. -/
def doubles : Layout where
  positional e := -5 ≤ e && e ≤ 15
  keepsPoint := true
  tie := .toEven
  nan := "null"
  infinity := "null"
  negativeInfinity := "null"

/-- The text of a number. -/
def Number.render : Number → String
  | .natural n => Decimal.digitText n.toNat
  | .negative i => if i < 0 then "-" ++ Decimal.digitText i.toInt.natAbs else Decimal.digitText i.toInt.natAbs
  | .double x => doubles.write x

/-- One character inside a string. -/
def escaped (c : Char) : List Char :=
  if c = '"' then ['\\', '"']
  else if c = '\\' then ['\\', '\\']
  else if c = '\x08' then ['\\', 'b']
  else if c = '\x0c' then ['\\', 'f']
  else if c = '\n' then ['\\', 'n']
  else if c = '\r' then ['\\', 'r']
  else if c = '\t' then ['\\', 't']
  else if c.toNat < 0x20 then
    ['\\', 'u', '0', '0', Text.hexDigit (c.toNat / 16), Text.hexDigit c.toNat]
  else [c]

/-- A string literal. -/
def renderText (s : String) : String :=
  String.ofList (['"'] ++ s.toList.flatMap escaped ++ ['"'])

mutual

/-- The compact text of a value. -/
def render : Json → String
  | .null => "null"
  | .bool b => if b then "true" else "false"
  | .number n => n.render
  | .text s => renderText s
  | .array items => "[" ++ renderItems items ++ "]"
  | .object members => "\x7b" ++ renderMembers members ++ "\x7d"

/-- The items of an array, with commas between them. -/
def renderItems : List Json → String
  | [] => ""
  | [v] => render v
  | v :: rest => render v ++ "," ++ renderItems rest

/-- The members of an object, with commas between them. -/
def renderMembers : List (String × Json) → String
  | [] => ""
  | [(k, v)] => renderText k ++ ":" ++ render v
  | (k, v) :: rest => renderText k ++ ":" ++ render v ++ "," ++ renderMembers rest

end

end Placement.Json

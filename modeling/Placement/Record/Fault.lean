import Placement.Json.Printer
/-
  Why a JSON value is not the record that was asked for.
-/
namespace Placement

/-- The first thing found wrong while a record is decoded. -/
inductive Fault where
  /-- A value of another type than the wanted one. -/
  | wrongType (found : Json) (wanted : String)
  /-- An integer outside the wanted type. -/
  | outside (found : Int64) (wanted : String)
  /-- A field that must be there. -/
  | missing (key : String)
  /-- An array that ends before the fields of a record do. -/
  | tooShort (length : Nat) (record : String) (size : Nat)
  /-- An array that goes on after them. -/
  | tooLong (length : Nat)
  /-- A resource type without a label. -/
  | emptyLabel
  /-- A field name that is no longer in use. -/
  | legacy (old new : String)

/-- A code fragment in a message. -/
def ticked (s : String) : String := "`" ++ s ++ "`"

/-- What a value is called when it was not expected. -/
def Json.describe : Json → String
  | .null => "null"
  | .bool b => "boolean " ++ ticked (if b then "true" else "false")
  | .number (.double x) => "floating point " ++ ticked (Json.doubles.write x)
  | .number n => "integer " ++ ticked n.render
  | .text s => "string " ++ Text.quoted s
  | .array _ => "sequence"
  | .object _ => "map"

/-- A count of fields. -/
def elements (n : Nat) : String :=
  Decimal.digitText n ++ (if n = 1 then " element" else " elements")

/-- The message of a fault. -/
def Fault.message : Fault → String
  | .wrongType found wanted => "invalid type: " ++ found.describe ++ ", expected " ++ wanted
  | .outside found wanted =>
    "invalid value: integer " ++ ticked (Json.Number.negative found).render
      ++ ", expected " ++ wanted
  | .missing key => "missing field " ++ ticked key
  | .tooShort length record size =>
    "invalid length " ++ Decimal.digitText length ++ ", expected struct " ++ record
      ++ " with " ++ elements size
  | .tooLong length =>
    "invalid length " ++ Decimal.digitText length ++ ", expected fewer elements in array"
  | .emptyLabel => "resource type label must not be empty"
  | .legacy old new => "legacy field " ++ ticked old ++ " is not supported, use " ++ ticked new

end Placement

import Placement.Record.Shape
import Placement.Rejection
/-
  Checks that records share: field names no longer in use, and ranges.
-/
namespace Placement

/-- Field names no longer in use, each with the name that replaces it. -/
abbrev Renames := List (String × String)

/-- The first entry of a table whose old name is a key of an object. -/
def Renames.used? (table : Renames) : Json → Option (String × String)
  | .object members => List.find? (fun entry => (Json.Members.find? members entry.1).isSome) table
  | _ => none

/-- Reads a record that must not use an old name. -/
def Renames.guarded {α : Type} (table : Renames) (decode : Json → Except Fault α) (v : Json) :
    Except Fault α :=
  match table.used? v with
  | some (old, new) => .error (.legacy old new)
  | none => decode v

/-- A field must hold a finite number. -/
def requireFinite (field : String) (value : Float) : Except Breach Unit :=
  if value.isFinite then .ok () else .error (.notFinite field value)

/-- A field must hold a finite number that is not negative. -/
def requireNonNegative (field : String) (value : Float) : Except Breach Unit := do
  requireFinite field value
  if value < 0 then throw (.negative field value)

/-- A field must hold a finite positive number. -/
def requirePositive (field : String) (value : Float) : Except Breach Unit := do
  requireFinite field value
  if value ≤ 0 then throw (.notPositive field value)

end Placement

import Placement.Json.Printer
import Placement.Toml.Value
/-
  TOML documents in their long form: first the plain entries of a table, then its tables, each
  under a header of its own after a blank line.
-/
namespace Placement.Toml

/-- The text of an integer. -/
def renderInteger (i : Int64) : String := (Json.Number.negative i).render

/-- The text of a value that is no table. Strings are written with the escapes of JSON. -/
def renderPlain : Toml → String
  | .text s => Json.renderText s
  | .integer i => renderInteger i
  | .double x => Decimal.pointed.write x
  | .flag b => if b then "true" else "false"
  | .moment | .array _ | .tables _ | .table _ => ""

/-- Whether a value is a table. -/
def isTable : Toml → Bool
  | .table _ => true
  | _ => false

/-- The lines of the plain entries of a table. -/
def plainLines (entries : List (String × Toml)) : String :=
  String.join ((entries.filter fun entry => !entry.2.isTable).map fun entry =>
    entry.1 ++ " = " ++ renderPlain entry.2 ++ "\n")

/-- The header of a table. -/
def header (path : List String) : String := "\n[" ++ ".".intercalate path ++ "]\n"

mutual

/-- The lines of a table under a path. -/
def renderTable (path : List String) : Toml → String
  | .table entries => plainLines entries ++ renderTables path entries
  | _ => ""

/-- The tables among the entries of a table under a path. -/
def renderTables (path : List String) : List (String × Toml) → String
  | [] => ""
  | (key, v) :: rest =>
    (if v.isTable then header (path ++ [key]) ++ renderTable (path ++ [key]) v else "")
      ++ renderTables path rest

end

/-- The text of a document. -/
def render (v : Toml) : String := renderTable [] v

end Placement.Toml

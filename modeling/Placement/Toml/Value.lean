/-
  TOML data. The keys of a table keep the order of the document.
-/
namespace Placement

/-- A TOML value. -/
inductive Toml where
  | text (s : String)
  | integer (i : Int64)
  | double (x : Float)
  | flag (b : Bool)
  /-- A date or a time of day. -/
  | moment
  | array (items : List Toml)
  /-- Tables that headers give one after the other under one name. -/
  | tables (elements : List Toml)
  | table (entries : List (String × Toml))

end Placement

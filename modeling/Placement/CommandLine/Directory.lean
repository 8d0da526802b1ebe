import Placement.Text.Octets
/-
  The directory that a program runs in: files by their paths, and why a path cannot be read.
-/
namespace Placement.CommandLine

/-- Why a path cannot be read as text. -/
inductive ReadError where
  | notFound
  | notDirectory
  | isDirectory
  | notText
  /-- Any other reason, in words. -/
  | other (message : String)

/-- A reason in words. -/
def ReadError.message : ReadError → String
  | .notFound => "No such file or directory (os error 2)"
  | .notDirectory => "Not a directory (os error 20)"
  | .isDirectory => "Is a directory (os error 21)"
  | .notText => "stream did not contain valid UTF-8"
  | .other message => message

/-- Files by the names on the way to them. -/
abbrev Directory := List (List String × List UInt8)

namespace Directory

/-- The names on a path. -/
def steps (path : String) : List String :=
  (path.splitOn "/").filter fun name => name ≠ "" && name ≠ "."

/-- A directory of files by their paths. -/
def ofFiles (files : List (String × List UInt8)) : Directory :=
  files.map fun file => (steps file.1, file.2)

/-- Whether a path must lead to a directory. -/
def wantsDirectory (path : String) : Bool :=
  path.endsWith "/" || path.endsWith "/." || path = "."

/-- The octets at a path. A path from the root leads to nothing but the null device. -/
def find (d : Directory) (path : String) : Except ReadError (List UInt8) :=
  let way := steps path
  if path.startsWith "/" then
    if way = ["dev", "null"] then .ok []
    else if way = [] then .error .isDirectory
    else .error .notFound
  else match List.lookup way d with
    | some content => if wantsDirectory path then .error .notDirectory else .ok content
    | none =>
      if path = "" then .error .notFound
      else if way = [] || d.any fun file => way.isPrefixOf file.1 then .error .isDirectory
      else if d.any fun file => file.1.isPrefixOf way then .error .notDirectory
      else .error .notFound

end Directory

/-- The text of octets. -/
def textOf (content : List UInt8) : Except ReadError String :=
  match Text.ofOctets? content with
  | some s => .ok s
  | none => .error .notText

end Placement.CommandLine

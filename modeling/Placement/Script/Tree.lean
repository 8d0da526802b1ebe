/-
  Scripts of a small command shell, as trees.
-/
namespace Placement.Script

/-- Where a command's output goes, or its input comes from. -/
inductive Redirect (word : Type) where
  /-- Standard input from a file. -/
  | input (file : word)
  /-- Standard input from the script itself. -/
  | document (content : word)
  /-- A stream to a file, at its end if `append`. -/
  | output (stream : Nat) (append : Bool) (file : word)
  /-- A stream to where another one goes. -/
  | duplicate (stream target : Nat)
  /-- A stream to nowhere. -/
  | close (stream : Nat)

mutual

/-- A part of a word. -/
inductive Piece where
  | text (cs : List Char)
  /-- A character that stands for others in a pattern, and for itself elsewhere. -/
  | wild (c : Char)
  /-- The value of a variable; outside quotes it is split at blanks. -/
  | variable (name : String) (isQuoted : Bool)
  /-- The output of a script, likewise. -/
  | output (script : Command) (isQuoted : Bool)
  /-- The value of an arithmetic expression. -/
  | number (expression : List Char)

/-- A command. -/
inductive Command where
  | nothing
  /-- Values for variables, words, and redirections. -/
  | simple (assigned : List (String × List Piece)) (words : List (List Piece))
      (redirects : List (Redirect (List Piece)))
  | sequence (first second : Command)
  | both (first second : Command)
  | either (first second : Command)
  | pipe (first second : Command)
  | negated (command : Command)
  | background (command : Command)
  | choice (condition success failure : Command)
  /-- A body that runs as long as a condition holds. -/
  | loop (condition body : Command)
  /-- A body that runs once for each word. -/
  | each (name : String) (words : List (List Piece)) (body : Command)
  /-- The first branch one of whose patterns a word matches. -/
  | select (word : List Piece) (branches : List (List (List Piece) × Command))
  /-- Commands as a whole, with redirections; `isolated` in a shell of their own. -/
  | group (isolated : Bool) (body : Command) (redirects : List (Redirect (List Piece)))

end

/-- A word: its parts from left to right. -/
abbrev Word := List Piece

/-- A part of a word where nothing is split. -/
def Piece.quoted : Piece → Piece
  | .variable name _ => .variable name true
  | .output script _ => .output script true
  | piece => piece

/-- Whether a part of a word runs a script. -/
def Piece.isOutput : Piece → Bool
  | .output _ _ => true
  | _ => false

end Placement.Script

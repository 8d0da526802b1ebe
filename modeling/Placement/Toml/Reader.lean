import Placement.Toml.Document
import Placement.Toml.Lexeme
/-
  The reader of TOML documents: keys, values, and lines. Arrays and inline tables nest at most
  `depthLimit` deep, and no key has more parts than that.
-/
namespace Placement.Toml

/-- How deep values may nest, and how many parts a key may have. -/
def depthLimit : Nat := 79

/-- A character of a key without quotes. -/
def isBareChar (c : Char) : Bool := c.isAlphanum || c = '_' || c = '-'

/-- One part of a key. -/
def keyPart? (cs : Rest) : Option (String × Rest) :=
  match cs with
  | '"' :: rest => (basic? (rest.length + 1) rest).map fun r => (String.ofList r.1, r.2)
  | '\'' :: rest => (literal? rest).map fun r => (String.ofList r.1, r.2)
  | _ =>
    let bare := cs.span isBareChar
    if bare.1.isEmpty then none else some (String.ofList bare.1, bare.2)

/-- The parts of a key, with dots and blanks between them, at most so many. -/
def key? : Nat → Rest → Option (List String × Rest)
  | 0, _ => none
  | n + 1, cs => do
    let (part, rest) ← keyPart? (skipSpace cs)
    match skipSpace rest with
    | '.' :: rest =>
      let (parts, rest) ← key? n rest
      some (part :: parts, rest)
    | rest => some ([part], rest)

/-- A value that is no container. -/
def scalar? (cs : Rest) : Option (Toml × Rest) :=
  match cs with
  | '"' :: _ | '\'' :: _ => (string? cs).map fun r => (.text r.1, r.2)
  | 't' :: 'r' :: 'u' :: 'e' :: rest => some (.flag true, rest)
  | 'f' :: 'a' :: 'l' :: 's' :: 'e' :: rest => some (.flag false, rest)
  | _ => numberOrMoment? cs

/-- The items of an array after its bracket or a comma, at most as many as the first argument. A
comma may stand after the last one. -/
def items? (read : Rest → Option (Toml × Rest)) : Nat → Rest → Option (List Toml × Rest)
  | 0, _ => none
  | n + 1, cs => do
    match ← skipLines cs.length cs with
    | ']' :: rest => some ([], rest)
    | cs =>
      let (item, rest) ← read cs
      match ← skipLines rest.length rest with
      | ',' :: rest =>
        let (items, rest) ← items? read n rest
        some (item :: items, rest)
      | ']' :: rest => some ([item], rest)
      | _ => none

/-- Adds a value under the parts of a key. -/
def insertKey? (parts : List String) (v : Toml) (n : Node) : Option Node := do
  let key ← parts.getLast?
  n.insert? parts.dropLast key v

/-- The pairs of an inline table after its brace or a comma, added to a table. -/
def pairs? (read : Rest → Option (Toml × Rest)) : Nat → Node → Rest → Option (Node × Rest)
  | 0, _, _ => none
  | n + 1, opened, cs => do
    let (parts, rest) ← key? depthLimit cs
    match rest with
    | '=' :: rest =>
      let (v, rest) ← read (skipSpace rest)
      let filled ← insertKey? parts v opened
      match skipSpace rest with
      | ',' :: rest => pairs? read n filled rest
      | '}' :: rest => some (filled, rest)
      | _ => none
    | _ => none

/-- A value with containers at most so deep. -/
def value? : Nat → Rest → Option (Toml × Rest)
  | 0, cs => scalar? cs
  | depth + 1, cs =>
    match cs with
    | '[' :: rest => (items? (value? depth) rest.length rest).map fun r => (.array r.1, r.2)
    | '{' :: rest =>
      match skipSpace rest with
      | '}' :: rest => some (.table [], rest)
      | _ =>
        (pairs? (value? depth) rest.length .empty rest).map fun r => (r.1.toToml, r.2)
    | cs => scalar? cs

/-- A line that gives a key its value. -/
def keyValue? (d : Draft) (cs : Rest) : Option (Draft × Rest) := do
  let (parts, rest) ← key? depthLimit cs
  match rest with
  | '=' :: rest =>
    let (v, rest) ← value? depthLimit (skipSpace rest)
    let rest ← endOfLine? rest
    let key ← parts.getLast?
    let d ← d.insert? parts.dropLast key v
    some (d, rest)
  | _ => none

/-- A line that opens a table. -/
def header? (d : Draft) (cs : Rest) : Option (Draft × Rest) :=
  match cs with
  | '[' :: '[' :: rest => do
    let (path, rest) ← key? depthLimit rest
    match rest with
    | ']' :: ']' :: rest =>
      let rest ← endOfLine? rest
      let d ← d.openElement? path
      some (d, rest)
    | _ => none
  | '[' :: rest => do
    let (path, rest) ← key? depthLimit rest
    match rest with
    | ']' :: rest =>
      let rest ← endOfLine? rest
      let d ← d.openTable? path
      some (d, rest)
    | _ => none
  | _ => none

/-- The lines of a document, at most so many. -/
def readLines? : Nat → Draft → Rest → Option Draft
  | 0, d, cs => if cs.isEmpty then some d else none
  | n + 1, d, cs =>
    match skipSpace cs with
    | [] => some d
    | cs =>
      match cs with
      | '[' :: _ => (header? d cs).bind fun r => readLines? n r.1 r.2
      | '#' :: _ | '\n' :: _ | '\r' :: _ => (endOfLine? cs).bind (readLines? n d)
      | _ => (keyValue? d cs).bind fun r => readLines? n r.1 r.2

/-- A mark of byte order is no part of a document. -/
def dropMark : Rest → Rest
  | '\uFEFF' :: rest => rest
  | cs => cs

/-- The data of a document, if it is TOML. -/
def parse? (s : String) : Option Toml := do
  let cs := dropMark s.toList
  let d ← readLines? (cs.length + 1) .start cs
  d.finish?

end Placement.Toml

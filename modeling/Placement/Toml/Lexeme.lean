import Placement.Decimal.Literal
import Placement.Json.Reader
import Placement.Toml.Value
/-
  The lexemes of TOML: blanks, comments, strings, numbers, dates and times.

  A reader takes characters from the front of a text and returns what is left. Loops over a string
  are bounded by its length.
-/
namespace Placement.Toml

/-- The rest of a text after a lexeme. -/
abbrev Rest := List Char

/-- The blanks within a line. -/
def isSpace (c : Char) : Bool := c = ' ' || c = '\t'

/-- Drops the blanks within a line. -/
def skipSpace (cs : Rest) : Rest := cs.dropWhile isSpace

/-- A character that may stand in a comment: all but controls, and tabs. -/
def isCommentChar (c : Char) : Bool := c = '\t' || (0x20 ≤ c.toNat && c.toNat ≠ 0x7F)

/-- What follows a line break. -/
def newline? : Rest → Option Rest
  | '\n' :: rest => some rest
  | '\r' :: '\n' :: rest => some rest
  | _ => none

/-- Drops a comment, if there is one. -/
def skipComment : Rest → Rest
  | '#' :: rest => rest.dropWhile isCommentChar
  | cs => cs

/-- What follows the end of a line: blanks, a comment, and a line break or the end of the text. -/
def endOfLine? (cs : Rest) : Option Rest :=
  match skipComment (skipSpace cs) with
  | [] => some []
  | cs => newline? cs

/-- Drops blanks, comments and line breaks, at most so many lines. A comment ends with its line. -/
def skipLines : Nat → Rest → Option Rest
  | 0, cs => some cs
  | n + 1, cs =>
    match skipSpace cs with
    | '#' :: rest => (newline? (rest.dropWhile isCommentChar)).bind (skipLines n)
    | cs =>
      match newline? cs with
      | some rest => skipLines n rest
      | none => some cs

/-- A number of hexadecimal digits. -/
def hexDigits? : Nat → Nat → Rest → Option (Nat × Rest)
  | 0, value, cs => some (value, cs)
  | n + 1, value, c :: rest => do
    let digit ← Json.hexValue? c
    hexDigits? n (value * 16 + digit) rest
  | _ + 1, _, [] => none

/-- The character of a numbered escape of so many digits. -/
def numberedChar? (digits : Nat) (cs : Rest) : Option (Char × Rest) := do
  let (code, rest) ← hexDigits? digits 0 cs
  if code < 0xD800 ∨ (0xDFFF < code ∧ code < 0x110000) then some (Char.ofNat code, rest) else none

/-- The character of an escape, after its backslash. -/
def escape? : Rest → Option (Char × Rest)
  | '"' :: rest => some ('"', rest)
  | '\\' :: rest => some ('\\', rest)
  | 'b' :: rest => some ('\x08', rest)
  | 'f' :: rest => some ('\x0c', rest)
  | 'n' :: rest => some ('\n', rest)
  | 'r' :: rest => some ('\r', rest)
  | 't' :: rest => some ('\t', rest)
  | 'u' :: rest => numberedChar? 4 rest
  | 'U' :: rest => numberedChar? 8 rest
  | _ => none

/-- A string with escapes, after its opening quote. -/
def basic? : Nat → Rest → Option (List Char × Rest)
  | 0, _ => none
  | _ + 1, [] => none
  | n + 1, c :: rest =>
    if c = '"' then some ([], rest)
    else if c = '\\' then do
      let (c, rest) ← escape? rest
      let (cs, rest) ← basic? n rest
      some (c :: cs, rest)
    else if isCommentChar c then do
      let (cs, rest) ← basic? n rest
      some (c :: cs, rest)
    else none

/-- A string without escapes, after its opening quote. -/
def literal? (cs : Rest) : Option (List Char × Rest) :=
  let body := cs.span fun c => c ≠ '\'' && isCommentChar c
  match body.2 with
  | '\'' :: rest => some (body.1, rest)
  | _ => none

/-- The end of a string of several lines: up to two of its quotes may stand before the closing
three. -/
def closing? (quote : Char) (cs : Rest) : Option (List Char × Rest) :=
  match cs with
  | a :: b :: c :: rest =>
    if a = quote ∧ b = quote ∧ c = quote then
      match rest with
      | d :: e :: rest' =>
        if d = quote ∧ e = quote then some ([quote, quote], rest')
        else if d = quote then some ([quote], e :: rest')
        else some ([], rest)
      | [d] => if d = quote then some ([quote], []) else some ([], rest)
      | [] => some ([], [])
    else none
  | _ => none

/-- Drops blanks and line breaks, at most so many lines. -/
def skipBlankLines : Nat → Rest → Rest
  | 0, cs => cs
  | n + 1, cs =>
    match newline? (skipSpace cs) with
    | some rest => skipBlankLines n rest
    | none => skipSpace cs

/-- A string of several lines, after its opening. A backslash at the end of a line drops all
blanks and line breaks up to the next character. -/
def lines? (quote : Char) (escapes : Bool) : Nat → Rest → Option (List Char × Rest)
  | 0, _ => none
  | n + 1, cs =>
    match closing? quote cs, newline? cs, cs with
    | some r, _, _ => some r
    | none, some rest, _ => do
      let (cs, rest) ← lines? quote escapes n rest
      some ('\n' :: cs, rest)
    | none, none, [] => none
    | none, none, c :: rest =>
      if escapes && c = '\\' then
        match newline? (skipSpace rest) with
        | some rest => lines? quote escapes n (skipBlankLines (rest.length + 1) rest)
        | none => do
          let (c, rest) ← escape? rest
          let (cs, rest) ← lines? quote escapes n rest
          some (c :: cs, rest)
      else if isCommentChar c then do
        let (cs, rest) ← lines? quote escapes n rest
        some (c :: cs, rest)
      else none

/-- A line break right after the opening of a string is dropped. -/
def dropNewline (cs : Rest) : Rest := (newline? cs).getD cs

/-- A string of any of the four kinds. -/
def string? (cs : Rest) : Option (String × Rest) :=
  let text (r : List Char × Rest) : String × Rest := (String.ofList r.1, r.2)
  match cs with
  | '"' :: '"' :: '"' :: rest => (lines? '"' true (rest.length + 1) (dropNewline rest)).map text
  | '\'' :: '\'' :: '\'' :: rest =>
    (lines? '\'' false (rest.length + 1) (dropNewline rest)).map text
  | '"' :: rest => (basic? (rest.length + 1) rest).map text
  | '\'' :: rest => (literal? rest).map text
  | _ => none

/-- Digits with single underscores between them, at least one. -/
def digitRun? (isDigit : Char → Bool) : Rest → Option (List Char × Rest)
  | [] => none
  | [c] => if isDigit c then some ([c], []) else none
  | c :: '_' :: rest =>
    if isDigit c then (digitRun? isDigit rest).map fun r => (c :: r.1, r.2) else none
  | c :: d :: rest =>
    if isDigit c then
      if isDigit d then (digitRun? isDigit (d :: rest)).map fun r => (c :: r.1, r.2)
      else some ([c], d :: rest)
    else none

/-- A sign, if there is one. -/
def sign : Rest → Bool × Rest
  | '+' :: rest => (false, rest)
  | '-' :: rest => (true, rest)
  | cs => (false, cs)

/-- The digits of a decimal number: a zero alone, or digits that start with another one. -/
def whole? : Rest → Option (List Char × Rest)
  | '0' :: rest => some (['0'], rest)
  | cs => digitRun? Char.isDigit cs

/-- An integer of 64 bits. -/
def integer? (negative : Bool) (magnitude : Nat) : Option Toml :=
  if (if negative then magnitude ≤ 0x8000000000000000 else magnitude < 0x8000000000000000) then
    some (.integer (Int64.ofInt (Decimal.signed negative magnitude)))
  else none

/-- A fraction, if a point follows. -/
def fraction? : Rest → Option (Option (List Char) × Rest)
  | '.' :: rest => (digitRun? Char.isDigit rest).map fun r => (some r.1, r.2)
  | cs => some (none, cs)

/-- The digits of an exponent. -/
def exponent? (cs : Rest) : Option (Int × Rest) :=
  let signed := sign cs
  (digitRun? Char.isDigit signed.2).map fun r =>
    (Decimal.signed signed.1 (Decimal.ofDigits r.1), r.2)

/-- An exponent, if its letter follows. -/
def power? : Rest → Option (Option Int × Rest)
  | 'e' :: rest => (exponent? rest).map fun r => (some r.1, r.2)
  | 'E' :: rest => (exponent? rest).map fun r => (some r.1, r.2)
  | cs => some (none, cs)

/-- A decimal number after its sign. A number too great for a double is refused above zero. -/
def decimal? (negative : Bool) (cs : Rest) : Option (Toml × Rest) := do
  let (whole, rest) ← whole? cs
  let (fraction, rest) ← fraction? rest
  let (exponent, rest) ← power? rest
  if fraction.isNone && exponent.isNone then
    let v ← integer? negative (Decimal.ofDigits whole)
    some (v, rest)
  else
    let x := Decimal.Literal.toFloat ⟨negative, whole, fraction.getD [], exponent.getD 0⟩
    if x.isInf && !negative then none else some (.double x, rest)

/-- The digits of a number in another base. -/
def based? (base : Nat) (isDigit : Char → Bool) (cs : Rest) : Option (Toml × Rest) := do
  let (digits, rest) ← digitRun? isDigit cs
  let v ← integer? false (digits.foldl (fun n c => n * base + (Json.hexValue? c).getD 0) 0)
  some (v, rest)

/-- A number after its sign: infinite, no number, or decimal. -/
def signed? (negative : Bool) : Rest → Option (Toml × Rest)
  | 'i' :: 'n' :: 'f' :: rest => some (.double (if negative then -1 / 0 else 1 / 0), rest)
  | 'n' :: 'a' :: 'n' :: rest => some (.double (0 / 0), rest)
  | cs => decimal? negative cs

/-- A number without a look at dates. -/
def number? (cs : Rest) : Option (Toml × Rest) :=
  match cs with
  | '0' :: 'x' :: rest => based? 16 (fun c => (Json.hexValue? c).isSome) rest
  | '0' :: 'o' :: rest => based? 8 (fun c => '0' ≤ c && c ≤ '7') rest
  | '0' :: 'b' :: rest => based? 2 (fun c => c = '0' || c = '1') rest
  | _ => signed? (sign cs).1 (sign cs).2

/-- Exactly so many digits. -/
def digits? : Nat → Nat → Rest → Option (Nat × Rest)
  | 0, value, cs => some (value, cs)
  | n + 1, value, c :: rest =>
    if c.isDigit then digits? n (value * 10 + Decimal.digitValue c) rest else none
  | _ + 1, _, [] => none

/-- Two digits within bounds. -/
def pair? (low high : Nat) (cs : Rest) : Option (Nat × Rest) := do
  let (n, rest) ← digits? 2 0 cs
  if low ≤ n ∧ n ≤ high then some (n, rest) else none

/-- What follows a character. -/
def after? (c : Char) : Rest → Option Rest
  | d :: rest => if c = d then some rest else none
  | [] => none

/-- How many days a month has. -/
def daysIn (year month : Nat) : Nat :=
  if month = 2 then
    if (year % 4 = 0 ∧ year % 100 ≠ 0) ∨ year % 400 = 0 then 29 else 28
  else if month = 4 ∨ month = 6 ∨ month = 9 ∨ month = 11 then 30
  else 31

/-- What follows a time of day, from the colon after its hour. -/
def minutes? (cs : Rest) : Option Rest := do
  let rest ← after? ':' cs
  let (_, rest) ← pair? 0 59 rest
  let rest ← after? ':' rest
  let (_, rest) ← pair? 0 60 rest
  match rest with
  | '.' :: c :: more => if c.isDigit then some (more.dropWhile Char.isDigit) else some rest
  | _ => some rest

/-- What follows the offset of a time, if there is one. -/
def offset? : Rest → Option Rest
  | 'Z' :: rest | 'z' :: rest => some rest
  | '+' :: rest | '-' :: rest => do
    let (_, rest) ← pair? 0 23 rest
    let rest ← after? ':' rest
    let (_, rest) ← pair? 0 59 rest
    some rest
  | cs => some cs

/-- What follows the time after a date, if there is one. -/
def timeAfterDate? (cs : Rest) : Option Rest :=
  match cs with
  | [] => some []
  | c :: rest =>
    if c = 'T' || c = 't' || c = ' ' then
      match pair? 0 23 rest with
      | some (_, ':' :: more) => (minutes? (':' :: more)).bind offset?
      | _ => some cs
    else some cs

/-- What follows a date, from the hyphen after its year. -/
def monthAndDay? (year : Nat) (cs : Rest) : Option Rest := do
  let rest ← after? '-' cs
  let (month, rest) ← pair? 1 12 rest
  let rest ← after? '-' rest
  let (_, rest) ← pair? 1 (daysIn year month) rest
  timeAfterDate? rest

/-- A number, a date or a time. Four digits and a hyphen start a date, two digits and a colon a
time of day. -/
def numberOrMoment? (cs : Rest) : Option (Toml × Rest) :=
  match digits? 4 0 cs, pair? 0 23 cs with
  | some (year, '-' :: rest), _ => (monthAndDay? year ('-' :: rest)).map fun rest => (.moment, rest)
  | _, some (_, ':' :: rest) => (minutes? (':' :: rest)).map fun rest => (.moment, rest)
  | _, _ => number? cs

end Placement.Toml

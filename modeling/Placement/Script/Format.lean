import Placement.Decimal.Layout
import Placement.Decimal.Literal
import Placement.Script.Raw
/-
  What `echo` and `printf` write: escapes, and formats with directives.
-/
namespace Placement.Script.Format

/-- Whether a character is an octal digit. -/
def isOctal (c : Char) : Bool := '0' ≤ c && c ≤ '7'

/-- The value of the octal digits at the front, at most so many, and the rest. -/
def octal : Nat → Nat → Raw → Nat × Raw
  | 0, value, cs => (value, cs)
  | _ + 1, value, [] => (value, [])
  | n + 1, value, c :: rest =>
    if isOctal c then octal n (value * 8 + (c.toNat - '0'.toNat)) rest else (value, c :: rest)

/-- An octet by its number. -/
def octet (n : Nat) : Char := Char.ofNat (n % 256)

/-- What a letter after a backslash stands for. -/
def escapes : List (Char × Char) := [
  ('\\', '\\'), ('a', '\x07'), ('b', '\x08'), ('f', '\x0c'), ('n', '\n'), ('r', '\r'),
  ('t', '\t'), ('v', '\x0b')]

/-- What stands for a backslash and the characters after it, and the rest. A backslash before
anything else stands for itself. -/
def escape (cs : Raw) : Char × Raw :=
  match cs with
  | [] => ('\\', [])
  | c :: rest =>
    if isOctal c then
      let digits := octal 3 0 (c :: rest)
      (octet digits.1, digits.2)
    else match List.lookup c escapes with
      | some d => (d, rest)
      | none => ('\\', c :: rest)

/-- A text with its escapes replaced, and whether it is cut off by `\c`. The first argument bounds
the number of characters. -/
def unescape : Nat → Raw → Raw × Bool
  | 0, _ => ([], false)
  | _ + 1, [] => ([], false)
  | _ + 1, '\\' :: 'c' :: _ => ([], true)
  | n + 1, '\\' :: '0' :: rest =>
    let digits := octal 3 0 rest
    let others := unescape n digits.2
    (octet digits.1 :: others.1, others.2)
  | n + 1, '\\' :: rest =>
    let first := escape rest
    let others := unescape n first.2
    (first.1 :: others.1, others.2)
  | n + 1, c :: rest =>
    let others := unescape n rest
    (c :: others.1, others.2)

/-- The output of `echo`. -/
def echo (arguments : List Raw) : Raw :=
  let plain := arguments.head? = some ['-', 'n']
  let text := Raw.unwords (if plain then arguments.drop 1 else arguments)
  let (written, isCut) := unescape text.length text
  if plain || isCut then written else written ++ ['\n']

/-- Whether an argument holds options of the program `echo`. -/
def isEchoOption : Raw → Bool
  | '-' :: c :: rest => (c :: rest).all fun c => c = 'n' || c = 'e' || c = 'E'
  | _ => false

/-- The output of the program `echo`, which replaces escapes only when told to. -/
def programEcho (arguments : List Raw) : Raw :=
  let options := (arguments.takeWhile isEchoOption).flatten
  let text := Raw.unwords (arguments.dropWhile isEchoOption)
  let isEscaped := (options.filter fun c => c = 'e' || c = 'E').getLast? = some 'e'
  let (written, isCut) := if isEscaped then unescape text.length text else (text, false)
  if options.contains 'n' || isCut then written else written ++ ['\n']

/-- A directive of a format: how wide, how precise, and what kind. -/
structure Directive where
  toLeft : Bool
  withZeros : Bool
  width : Nat
  precision : Option Nat
  kind : Char

/-- A part of a format. -/
inductive Part where
  | text (c : Char)
  | directive (d : Directive)

/-- The number of some digits. -/
def number (digits : List Char) : Nat := Decimal.ofDigits digits

/-- A directive after its percent sign. -/
def directive? (cs : Raw) : Option (Directive × Raw) :=
  let (flags, rest) := cs.span fun c => c = '-' || c = '0' || c = '+' || c = ' ' || c = '#'
  let (width, rest) := Decimal.spanDigits rest
  let (precision, rest) :=
    match rest with
    | '.' :: rest =>
      let (digits, rest) := Decimal.spanDigits rest
      (some (number digits), rest)
    | rest => (none, rest)
  match rest with
  | kind :: rest =>
    some (⟨flags.contains '-', flags.contains '0', number width, precision, kind⟩, rest)
  | [] => none

/-- The parts of a format. The first argument bounds the number of characters. -/
def parts : Nat → Raw → List Part
  | 0, _ => []
  | _ + 1, [] => []
  | n + 1, '\\' :: rest =>
    let first := escape rest
    .text first.1 :: parts n first.2
  | n + 1, '%' :: '%' :: rest => .text '%' :: parts n rest
  | n + 1, '%' :: rest =>
    match directive? rest with
    | some (d, rest) => .directive d :: parts n rest
    | none => [.text '%']
  | n + 1, c :: rest => .text c :: parts n rest

/-- A text brought to the width of a directive. -/
def Directive.pad (d : Directive) (text : Raw) : Raw :=
  let missing := d.width - text.length
  if d.toLeft then text ++ List.replicate missing ' '
  else if d.withZeros && d.kind ≠ 's' then
    match text with
    | '-' :: digits => '-' :: (List.replicate missing '0' ++ digits)
    | digits => List.replicate missing '0' ++ digits
  else List.replicate missing ' ' ++ text

/-- An integer at the front of an argument. -/
def integer (argument : Raw) : Int :=
  match argument with
  | '-' :: digits => -(number (Decimal.spanDigits digits).1 : Int)
  | '+' :: digits => number (Decimal.spanDigits digits).1
  | digits => number (Decimal.spanDigits digits).1

/-- The digits of an integer. -/
def integerText (i : Int) : Raw :=
  if i < 0 then '-' :: Raw.ofNat i.natAbs else Raw.ofNat i.natAbs

/-- A double at the front of an argument. -/
def double (argument : Raw) : Float :=
  let (isNegative, magnitude) :=
    match argument with
    | '-' :: rest => (true, rest)
    | rest => (false, rest)
  let (whole, rest) := Decimal.spanDigits magnitude
  let fraction :=
    match rest with
    | '.' :: rest => (Decimal.spanDigits rest).1
    | _ => []
  Decimal.Literal.toFloat ⟨isNegative, whole, fraction, 0⟩

/-- What a directive writes for an argument, and whether the output ends there. -/
def Directive.write (d : Directive) (argument : Raw) : Raw × Bool :=
  let cut (text : Raw) : Raw :=
    match d.precision with
    | some n => text.take n
    | none => text
  if d.kind = 'd' || d.kind = 'i' || d.kind = 'u' then
    (d.pad (integerText (integer argument)), false)
  else if d.kind = 'x' then (d.pad (Nat.toDigits 16 (integer argument).natAbs), false)
  else if d.kind = 'o' then (d.pad (Nat.toDigits 8 (integer argument).natAbs), false)
  else if d.kind = 'f' then
    (d.pad (Decimal.fixed (d.precision.getD 6) (double argument)).toList, false)
  else if d.kind = 'c' then (d.pad (argument.take 1), false)
  else if d.kind = 'b' then
    let (text, isCut) := unescape argument.length argument
    (d.pad (cut text), isCut)
  else (d.pad (cut argument), false)

/-- What is left of the arguments of a format; nothing when the output has ended. -/
abbrev Left := Option (List Raw)

/-- One pass of a format over its arguments. A directive without one takes the empty text. -/
def pass : List Part → List Raw → Raw × Left
  | [], arguments => ([], some arguments)
  | .text c :: rest, arguments =>
    let others := pass rest arguments
    (c :: others.1, others.2)
  | .directive d :: rest, arguments =>
    let (text, isCut) := d.write (arguments.headD [])
    if isCut then (text, none)
    else
      let others := pass rest (arguments.drop 1)
      (text ++ others.1, others.2)

/-- Passes of a format while arguments are left and are being taken. -/
def passes (format : List Part) : Nat → List Raw → Raw
  | 0, _ => []
  | n + 1, arguments =>
    match pass format arguments with
    | (text, some (a :: rest)) =>
      if rest.length + 1 < arguments.length then text ++ passes format n (a :: rest) else text
    | (text, _) => text

/-- The output of `printf`. -/
def printf (format : Raw) (arguments : List Raw) : Raw :=
  passes (parts format.length format) (arguments.length + 1) arguments

end Placement.Script.Format

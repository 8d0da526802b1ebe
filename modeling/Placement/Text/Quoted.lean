import Placement.Text.Hidden
/-
  Names in messages: a quoted form in which every character shows.
-/
namespace Placement.Text

/-- One digit in lower-case hexadecimal notation. -/
def hexDigit (n : Nat) : Char := (n % 16).digitChar

/-- A number in lower-case hexadecimal notation. -/
def hexText (n : Nat) : List Char := Nat.toDigits 16 n

/-- A character by its number. -/
def numbered (c : Char) : List Char := ['\\', 'u', '\x7b'] ++ hexText c.toNat ++ ['\x7d']

/-- One character of a quoted name: a quote or a backslash is escaped, four controls have short
names, and what has no visible form is written by number. -/
def quotedChar (c : Char) : List Char :=
  if c = '"' then ['\\', '"']
  else if c = '\\' then ['\\', '\\']
  else if c = '\n' then ['\\', 'n']
  else if c = '\r' then ['\\', 'r']
  else if c = '\t' then ['\\', 't']
  else if c = '\x00' then ['\\', '0']
  else if c.toNat < 0x20 then numbered c
  else if c.toNat < 0x7F then [c]
  else if isHidden c then numbered c
  else [c]

/-- A name between quotes. -/
def quoted (s : String) : String :=
  String.ofList (['"'] ++ s.toList.flatMap quotedChar ++ ['"'])

end Placement.Text

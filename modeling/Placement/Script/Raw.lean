import Placement.Text.Octets
/-
  Octets as scripts handle them: each stands as the character of its number.
-/
namespace Placement.Script

/-- Octets, each as the character of its number. -/
abbrev Raw := List Char

namespace Raw

/-- The octets of a sequence of bytes. -/
def ofOctets (bs : List UInt8) : Raw := bs.map fun b => Char.ofNat b.toNat

/-- The bytes again. -/
def toOctets (r : Raw) : List UInt8 := r.map fun c => c.toNat.toUInt8

/-- The octets of a text. -/
def ofText (s : String) : Raw := ofOctets (Text.toOctets s)

/-- The text that octets encode, with the replacement character in the gaps. -/
def toText (r : Raw) : String := Text.ofOctetsLossy r.toOctets

/-- A number in decimal digits. -/
def ofNat (n : Nat) : Raw := Nat.toDigits 10 n

/-- Whether an octet separates words: a space, a tab or a line break. -/
def isBlank (c : Char) : Bool := c = ' ' || c = '\t' || c = '\n'

/-- The lines, without their breaks. A last line need not have one. -/
def lines : Raw → List Raw
  | [] => []
  | c :: rest =>
    if c = '\n' then [] :: lines rest
    else match rest, lines rest with
      | [], _ => [[c]]
      | _ :: _, line :: others => (c :: line) :: others
      | _ :: _, [] => [[c]]

/-- Lines, each with a break after it. -/
def ofLines (ls : List Raw) : Raw := ls.flatMap (· ++ ['\n'])

/-- Octets without the line breaks at their end. -/
def withoutLastBreaks (r : Raw) : Raw := (r.reverse.dropWhile (· = '\n')).reverse

/-- Words with one space between them. -/
def unwords (ws : List Raw) : Raw := [' '].intercalate ws

end Raw

end Placement.Script

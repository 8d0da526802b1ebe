import Placement.Script.Raw
/-
  Basic patterns: characters, classes, repetition and anchors.
-/
namespace Placement.Script

/-- What one character of a text is compared with. -/
inductive Atom where
  | any
  | one (c : Char)
  /-- Ranges of characters, or all others. -/
  | within (isNegated : Bool) (ranges : List (Char × Char))

/-- Whether a character fits. -/
def Atom.accepts (a : Atom) (c : Char) : Bool :=
  match a with
  | .any => true
  | .one d => c = d
  | .within isNegated ranges => isNegated != ranges.any fun r => r.1 ≤ c && c ≤ r.2

/-- A pattern: atoms, each with whether it may be repeated, and where a match must lie. -/
structure Pattern where
  atoms : List (Atom × Bool)
  atStart : Bool
  atEnd : Bool

namespace Pattern

/-- The ranges of a class, up to its bracket. -/
def classRanges : List Char → List (Char × Char) × List Char
  | [] => ([], [])
  | ']' :: rest => ([], rest)
  | a :: '-' :: b :: rest =>
    if b = ']' then ([(a, a), ('-', '-')], rest)
    else
      let others := classRanges rest
      ((a, b) :: others.1, others.2)
  | c :: rest =>
    let others := classRanges rest
    ((c, c) :: others.1, others.2)

/-- The atom at the front of a pattern. -/
def readAtom (c : Char) (rest : List Char) : Atom × List Char :=
  if c = '.' then (.any, rest)
  else if c = '\\' then
    match rest with
    | d :: rest => (.one d, rest)
    | [] => (.one '\\', [])
  else if c = '[' then
    match rest with
    | '^' :: rest => let r := classRanges rest; (.within true r.1, r.2)
    | rest => let r := classRanges rest; (.within false r.1, r.2)
  else (.one c, rest)

/-- The atoms of a pattern. The first argument bounds the number of characters. -/
def readAtoms : Nat → List Char → List (Atom × Bool)
  | 0, _ => []
  | _ + 1, [] => []
  | n + 1, c :: rest =>
    let (a, rest) := readAtom c rest
    match rest with
    | '*' :: rest => (a, true) :: readAtoms n rest
    | rest => (a, false) :: readAtoms n rest

/-- A pattern of the text as it is. -/
def literal (cs : List Char) : Pattern := ⟨cs.map fun c => (.one c, false), false, false⟩

/-- A pattern with its marks. -/
def ofText (cs : List Char) : Pattern :=
  let atStart := cs.head? = some '^'
  let cs := if atStart then cs.drop 1 else cs
  let atEnd := cs.getLast? = some '$'
  let cs := if atEnd then cs.dropLast else cs
  ⟨readAtoms cs.length cs, atStart, atEnd⟩

/-- Matches an atom any number of times, and then the rest. -/
def repeated (a : Atom) (next : List Char → Bool) : List Char → Bool
  | [] => next []
  | c :: rest => next (c :: rest) || (a.accepts c && repeated a next rest)

/-- Matches atoms at the front of a text. -/
def matchesFront (atEnd : Bool) : List (Atom × Bool) → List Char → Bool
  | [], cs => !atEnd || cs.isEmpty
  | (a, true) :: rest, cs => repeated a (matchesFront atEnd rest) cs
  | (a, false) :: rest, c :: cs => a.accepts c && matchesFront atEnd rest cs
  | (_, false) :: _, [] => false

/-- Whether some part of a text matches. -/
def matchesIn (p : Pattern) : List Char → Bool
  | [] => matchesFront p.atEnd p.atoms []
  | c :: rest => matchesFront p.atEnd p.atoms (c :: rest) || (!p.atStart && matchesIn p rest)

end Pattern

end Placement.Script

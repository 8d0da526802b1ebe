import Placement.Decimal.Significand
import Placement.Json.Value
/-
  The strict reader of JSON texts.

  A reader takes characters from the front of a text and returns what is left. Containers nest at
  most `depthLimit` deep; the depth left is what the recursion runs on.
-/
namespace Placement.Json

/-- How deep containers may nest. -/
def depthLimit : Nat := 127

/-- The four blanks of JSON. -/
def isSpace (c : Char) : Bool := c = ' ' || c = '\t' || c = '\n' || c = '\r'

/-- Drops the blanks at the front. -/
def skipSpace (cs : List Char) : List Char := cs.dropWhile isSpace

/-- The value of a hexadecimal digit. -/
def hexValue? (c : Char) : Option Nat :=
  if '0' ≤ c ∧ c ≤ '9' then some (c.toNat - '0'.toNat)
  else if 'a' ≤ c ∧ c ≤ 'f' then some (c.toNat - 'a'.toNat + 10)
  else if 'A' ≤ c ∧ c ≤ 'F' then some (c.toNat - 'A'.toNat + 10)
  else none

/-- Four hexadecimal digits. -/
def hexUnit? : List Char → Option (Nat × List Char)
  | a :: b :: c :: d :: rest => do
    let a ← hexValue? a
    let b ← hexValue? b
    let c ← hexValue? c
    let d ← hexValue? d
    some (((a * 16 + b) * 16 + c) * 16 + d, rest)
  | _ => none

/-- The character of a numbered escape. A high surrogate needs a low one after it, and a low one
cannot stand alone. -/
def numberedChar? (cs : List Char) : Option (Char × List Char) := do
  let (unit, rest) ← hexUnit? cs
  if 0xD800 ≤ unit ∧ unit ≤ 0xDBFF then
    match rest with
    | '\\' :: 'u' :: rest =>
      let (low, rest) ← hexUnit? rest
      if 0xDC00 ≤ low ∧ low ≤ 0xDFFF then
        some (Char.ofNat (0x10000 + (unit - 0xD800) * 0x400 + (low - 0xDC00)), rest)
      else none
    | _ => none
  else if 0xDC00 ≤ unit ∧ unit ≤ 0xDFFF then none
  else some (Char.ofNat unit, rest)

/-- The character of an escape, after its backslash. -/
def escape? : List Char → Option (Char × List Char)
  | '"' :: rest => some ('"', rest)
  | '\\' :: rest => some ('\\', rest)
  | '/' :: rest => some ('/', rest)
  | 'b' :: rest => some ('\x08', rest)
  | 'f' :: rest => some ('\x0c', rest)
  | 'n' :: rest => some ('\n', rest)
  | 'r' :: rest => some ('\r', rest)
  | 't' :: rest => some ('\t', rest)
  | 'u' :: rest => numberedChar? rest
  | _ => none

theorem length_of_hexUnit? {cs rest : List Char} {n : Nat} (h : hexUnit? cs = some (n, rest)) :
    rest.length < cs.length := by
  match cs with
  | a :: b :: c :: d :: tail =>
    simp only [hexUnit?, Option.bind_eq_bind, Option.bind_eq_some_iff] at h
    obtain ⟨_, _, _, _, _, _, _, _, h⟩ := h
    simp only [Option.some.injEq, Prod.mk.injEq] at h
    simp only [← h.2, List.length_cons]
    omega
  | [] | [_] | [_, _] | [_, _, _] => simp [hexUnit?] at h

theorem length_of_numberedChar? {cs rest : List Char} {c : Char}
    (h : numberedChar? cs = some (c, rest)) : rest.length < cs.length := by
  simp only [numberedChar?, Option.bind_eq_bind, Option.bind_eq_some_iff] at h
  obtain ⟨⟨unit, tail⟩, hu, h⟩ := h
  have hl := length_of_hexUnit? hu
  simp only at h
  split at h
  · split at h
    · simp only [Option.bind_eq_some_iff] at h
      obtain ⟨⟨low, last⟩, hlow, h⟩ := h
      have := length_of_hexUnit? hlow
      simp only at h
      split at h
      · simp only [Option.some.injEq, Prod.mk.injEq] at h
        simp only [← h.2, List.length_cons] at *
        omega
      · simp at h
    · simp at h
  · split at h
    · simp at h
    · simp only [Option.some.injEq, Prod.mk.injEq] at h
      simpa only [← h.2] using hl

theorem length_of_escape? {cs rest : List Char} {c : Char} (h : escape? cs = some (c, rest)) :
    rest.length < cs.length := by
  unfold escape? at h
  split at h
  case h_9 =>
    have := length_of_numberedChar? h
    simp only [List.length_cons]
    omega
  case h_10 => simp at h
  all_goals
    simp only [Option.some.injEq, Prod.mk.injEq] at h
    simp [← h.2]

/-- The characters of a string after its opening quote. -/
def stringBody? (cs : List Char) : Option (List Char × List Char) :=
  match cs with
  | [] => none
  | c :: rest =>
    if c = '"' then some ([], rest)
    else if c = '\\' then
      match _taken : escape? rest with
      | none => none
      | some (c, tail) => (stringBody? tail).map fun r => (c :: r.1, r.2)
    else if c.toNat < 0x20 then none
    else (stringBody? rest).map fun r => (c :: r.1, r.2)
  termination_by cs.length
  decreasing_by
    · have := length_of_escape? ‹_›
      simp only [List.length_cons]
      omega
    · simp

/-- At least one digit. -/
def someDigits? (cs : List Char) : Option (List Char × List Char) :=
  let r := Decimal.spanDigits cs
  if r.1.isEmpty then none else some r

/-- The digits before the point: a single zero, or digits that start with another one. -/
def whole? : List Char → Option (List Char × List Char)
  | '0' :: rest => some (['0'], rest)
  | cs => someDigits? cs

/-- An exponent after its letter. -/
def exponent? : List Char → Option (Int × List Char)
  | '+' :: rest => (someDigits? rest).map fun r => (Decimal.signed false (Decimal.ofDigits r.1), r.2)
  | '-' :: rest => (someDigits? rest).map fun r => (Decimal.signed true (Decimal.ofDigits r.1), r.2)
  | cs => (someDigits? cs).map fun r => (Decimal.signed false (Decimal.ofDigits r.1), r.2)

/-- A fraction, if a point follows. -/
def fraction? : List Char → Option (Option (List Char) × List Char)
  | '.' :: rest => (someDigits? rest).map fun r => (some r.1, r.2)
  | cs => some (none, cs)

/-- An exponent, if its letter follows. -/
def power? : List Char → Option (Option Int × List Char)
  | 'e' :: rest => (exponent? rest).map fun r => (some r.1, r.2)
  | 'E' :: rest => (exponent? rest).map fun r => (some r.1, r.2)
  | cs => some (none, cs)

/-- The number of a literal. Without fraction and exponent it is an integer if it fits 64 bits;
a minus before zero makes a double. A double is computed from a significand of 64 bits, and a
number beyond the doubles is refused. -/
def Number.ofLiteral? (negative : Bool) (whole : List Char) (fraction : Option (List Char))
    (exponent : Option Int) : Option Number :=
  let magnitude := Decimal.ofDigits whole
  let plain := fraction.isNone && exponent.isNone
  if plain && !negative && magnitude < UInt64.size then some (.natural magnitude.toUInt64)
  else if plain && negative && 0 < magnitude && magnitude ≤ 0x8000000000000000 then
    some (.negative (Int64.ofInt (-(magnitude : Int))))
  else (Decimal.Literal.computed? ⟨negative, whole, fraction.getD [], exponent.getD 0⟩).map .double

/-- A number after its sign. -/
def unsigned? (negative : Bool) (cs : List Char) : Option (Json × List Char) := do
  let (whole, rest) ← whole? cs
  let (fraction, rest) ← fraction? rest
  let (exponent, rest) ← power? rest
  let n ← Number.ofLiteral? negative whole fraction exponent
  some (.number n, rest)

/-- A value that is no container. -/
def scalar? : List Char → Option (Json × List Char)
  | 'n' :: 'u' :: 'l' :: 'l' :: rest => some (.null, rest)
  | 't' :: 'r' :: 'u' :: 'e' :: rest => some (.bool true, rest)
  | 'f' :: 'a' :: 'l' :: 's' :: 'e' :: rest => some (.bool false, rest)
  | '"' :: rest => (stringBody? rest).map fun r => (.text (String.ofList r.1), r.2)
  | '-' :: rest => unsigned? true rest
  | cs => unsigned? false cs

/-- The items of an array after its bracket or a comma, at most as many as the first argument. -/
def items? (read : List Char → Option (Json × List Char)) :
    Nat → List Char → Option (List Json × List Char)
  | 0, _ => none
  | n + 1, cs => do
    let (item, rest) ← read (skipSpace cs)
    match skipSpace rest with
    | ',' :: rest =>
      let (items, rest) ← items? read n rest
      some (item :: items, rest)
    | ']' :: rest => some ([item], rest)
    | _ => none

/-- The members of an object after its brace or a comma, as `items?`. -/
def members? (read : List Char → Option (Json × List Char)) :
    Nat → List Char → Option (List (String × Json) × List Char)
  | 0, _ => none
  | n + 1, cs =>
    match skipSpace cs with
    | '"' :: rest => do
      let (key, rest) ← stringBody? rest
      match skipSpace rest with
      | ':' :: rest =>
        let (value, rest) ← read (skipSpace rest)
        match skipSpace rest with
        | ',' :: rest =>
          let (members, rest) ← members? read n rest
          some ((String.ofList key, value) :: members, rest)
        | '}' :: rest => some ([(String.ofList key, value)], rest)
        | _ => none
      | _ => none
    | _ => none

/-- A value with containers at most so deep, without blanks before it. -/
def value? : Nat → List Char → Option (Json × List Char)
  | 0, cs => scalar? cs
  | depth + 1, cs =>
    match cs with
    | '[' :: rest =>
      match skipSpace rest with
      | ']' :: rest => some (.array [], rest)
      | _ => (items? (value? depth) rest.length rest).map fun r => (.array r.1, r.2)
    | '{' :: rest =>
      match skipSpace rest with
      | '}' :: rest => some (.object [], rest)
      | _ =>
        (members? (value? depth) rest.length rest).map fun r => (.object (Members.gather r.1), r.2)
    | cs => scalar? cs

/-- The value of a text that holds one value and blanks around it, nested at most so deep. -/
def parseWithin? (depth : Nat) (s : String) : Option Json := do
  let (v, rest) ← value? depth (skipSpace s.toList)
  if (skipSpace rest).isEmpty then some v else none

/-- The value of a JSON text. -/
def parse? (s : String) : Option Json := parseWithin? depthLimit s

end Placement.Json

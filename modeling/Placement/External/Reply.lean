import Placement.Decimal.Literal
import Placement.Json.Reader
import Placement.Text.Blank
/-
  Replies in free text. A model is asked for an object with a bid score, and often wraps it in
  prose. The whole reply is tried as JSON first; failing that, the leftmost score in the text
  counts, and the leftmost reasoning.
-/
namespace Placement

/-- What a reply says. The bid is taken as it is written. -/
structure Reply where
  bid : Float
  reasoning : Option String
  deriving DecidableEq

namespace Reply

/-- The reply that is JSON as a whole. -/
def ofJson? (s : String) : Option Reply := do
  let v ← Json.parse? s
  let bid ← (v.get? "bid_score").bind Json.toFloat?
  some ⟨bid, (v.get? "reasoning").bind Json.toText?⟩

/-- What follows a quoted key and its colon, with blanks around the colon. -/
def afterKey? (key : String) (cs : List Char) : Option (List Char) := do
  let rest ← (['"'] ++ key.toList ++ ['"']).isPrefixOf? cs
  match Text.skipBlanks rest with
  | ':' :: rest => some (Text.skipBlanks rest)
  | _ => none

/-- The longest score at the front: digits, and a point if digits follow it. -/
def score? (cs : List Char) : Option Decimal.Literal :=
  let whole := Decimal.spanDigits cs
  let fraction :=
    match whole.2 with
    | '.' :: rest => (Decimal.spanDigits rest).1
    | _ => []
  if whole.1.isEmpty && fraction.isEmpty then none
  else some ⟨false, whole.1, fraction, 0⟩

/-- The characters up to a quote that is not escaped, as they are written. An escape must not
end in a line break. -/
def body? : List Char → Option (List Char)
  | [] => none
  | '"' :: _ => some []
  | '\\' :: c :: rest => if c = '\n' then none else (body? rest).map ('\\' :: c :: ·)
  | ['\\'] => none
  | c :: rest => (body? rest).map (c :: ·)

/-- A quoted body at the front. -/
def quotedBody? : List Char → Option (List Char)
  | '"' :: rest => body? rest
  | _ => none

/-- The first result of a matcher over the positions of a text. -/
def leftmost? {β : Type} (f : List Char → Option β) : List Char → Option β
  | [] => f []
  | c :: rest =>
    match f (c :: rest) with
    | some b => some b
    | none => leftmost? f rest

/-- A body read as a JSON string, or verbatim if it is none. -/
def unescape (body : List Char) : String :=
  match Json.parse? (String.ofList (['"'] ++ body ++ ['"'])) with
  | some (.text s) => s
  | _ => String.ofList body

/-- The score at a position. -/
def scoreAt? (cs : List Char) : Option Decimal.Literal := (afterKey? "bid_score" cs).bind score?

/-- The reasoning at a position. -/
def reasoningAt? (cs : List Char) : Option (List Char) :=
  (afterKey? "reasoning" cs).bind quotedBody?

/-- The leftmost score of a text, with the leftmost reasoning. -/
def ofProse? (s : String) : Option Reply := do
  let score ← leftmost? scoreAt? s.toList
  some ⟨score.toFloat, (leftmost? reasoningAt? s.toList).map unescape⟩

/-- What a reply says, if it carries a score. -/
def parse? (s : String) : Option Reply :=
  match ofJson? (Text.trim s) with
  | some r => some r
  | none => ofProse? s

end Reply

end Placement

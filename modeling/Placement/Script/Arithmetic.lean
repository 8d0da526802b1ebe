import Placement.Decimal.Literal
import Placement.Script.Format
/-
  Arithmetic expressions: integers, variables, brackets, and operators of four ranks.
-/
namespace Placement.Script.Arithmetic

/-- A part of an expression. -/
inductive Token where
  | number (i : Int)
  | name (s : String)
  | sign (s : String)
  deriving DecidableEq

/-- A sign of two characters. -/
def isPair (a b : Char) : Bool :=
  b = '=' && (a = '=' || a = '!' || a = '<' || a = '>')

/-- A character of a name. -/
def isNameChar (c : Char) : Bool := c.isAlphanum || c = '_'

/-- The parts of an expression. A dollar sign before a name is dropped. The first argument bounds
the number of characters. -/
def tokens : Nat → List Char → List Token
  | 0, _ => []
  | _ + 1, [] => []
  | n + 1, c :: rest =>
    if c = ' ' || c = '\t' || c = '\n' || c = '$' then tokens n rest
    else if c.isDigit then
      let (digits, after) := Decimal.spanDigits (c :: rest)
      .number (Format.number digits) :: tokens n after
    else if isNameChar c then
      let name := (c :: rest).takeWhile isNameChar
      .name (String.ofList name) :: tokens n ((c :: rest).drop name.length)
    else match rest with
      | d :: after =>
        if isPair c d then .sign (String.ofList [c, d]) :: tokens n after
        else .sign (String.ofList [c]) :: tokens n rest
      | [] => [.sign (String.ofList [c])]

/-- The signs of a rank; those of a higher rank bind more closely. -/
def signs : Nat → List String
  | 0 => ["==", "!="]
  | 1 => ["<", "<=", ">", ">="]
  | 2 => ["+", "-"]
  | 3 => ["*", "/", "%"]
  | _ => []

/-- The number that stands for a truth value. -/
def ofBool (b : Bool) : Int := if b then 1 else 0

/-- What an operator gives; none for a division by zero. Quotients are cut off towards zero. -/
def operate? (sign : String) (a b : Int) : Option Int :=
  match sign with
  | "==" => some (ofBool (a = b))
  | "!=" => some (ofBool (a ≠ b))
  | "<" => some (ofBool (a < b))
  | "<=" => some (ofBool (a ≤ b))
  | ">" => some (ofBool (b < a))
  | ">=" => some (ofBool (b ≤ a))
  | "+" => some (a + b)
  | "-" => some (a - b)
  | "*" => some (a * b)
  | "/" => if b = 0 then none else some (a.tdiv b)
  | "%" => if b = 0 then none else some (a.tmod b)
  | _ => none

mutual

/-- An expression of a rank. The first argument bounds the recursion. -/
def ranked? (lookup : String → Int) : Nat → Nat → List Token → Option (Int × List Token)
  | 0, _, _ => none
  | n + 1, rank, ts => do
    let (a, rest) ← if rank = 4 then operand? lookup n ts else ranked? lookup n (rank + 1) ts
    following? lookup n rank a rest

/-- What follows the first operand of a rank: signs of the rank, each with an operand. -/
def following? (lookup : String → Int) : Nat → Nat → Int → List Token → Option (Int × List Token)
  | 0, _, _, _ => none
  | n + 1, rank, a, ts =>
    match ts with
    | .sign s :: rest =>
      if (signs rank).contains s then do
        let (b, rest) ← ranked? lookup n (rank + 1) rest
        following? lookup n rank (← operate? s a b) rest
      else some (a, ts)
    | ts => some (a, ts)

/-- A number, a variable, an expression in brackets, or one of these with a sign before it. -/
def operand? (lookup : String → Int) : Nat → List Token → Option (Int × List Token)
  | 0, _ => none
  | n + 1, ts =>
    match ts with
    | .number i :: rest => some (i, rest)
    | .name s :: rest => some (lookup s, rest)
    | .sign "-" :: rest => (operand? lookup n rest).map fun r => (-r.1, r.2)
    | .sign "+" :: rest => operand? lookup n rest
    | .sign "!" :: rest => (operand? lookup n rest).map fun r => (ofBool (r.1 = 0), r.2)
    | .sign "(" :: rest => do
      let (i, rest) ← ranked? lookup n 0 rest
      match rest with
      | .sign ")" :: rest => some (i, rest)
      | _ => none
    | _ => none

end

/-- The value of an expression, if it has one; a blank one is zero. -/
def value? (lookup : String → Int) (cs : List Char) : Option Int :=
  match tokens cs.length cs with
  | [] => some 0
  | ts =>
    match ranked? lookup (8 * ts.length + 8) 0 ts with
    | some (i, []) => some i
    | _ => none

end Placement.Script.Arithmetic

import Placement.Script.Tree
/-
  The reader of scripts. Each function takes characters from the front of a script and returns
  what is left; the first argument bounds the recursion and is no less than the length of a script.
-/
namespace Placement.Script

/-- The rest of a script. -/
abbrev Rest := List Char

/-- Drops blanks, and line breaks after a backslash. -/
def skipBlanks : Rest → Rest
  | '\\' :: '\n' :: rest => skipBlanks rest
  | c :: rest => if c = ' ' || c = '\t' then skipBlanks rest else c :: rest
  | [] => []

/-- Drops a comment. -/
def skipComment : Rest → Rest
  | '#' :: rest => rest.dropWhile (· ≠ '\n')
  | cs => cs

/-- Drops blanks, comments, line breaks and semicolons between commands. -/
def skipBreaks : Nat → Rest → Rest
  | 0, cs => cs
  | n + 1, cs =>
    match skipComment (skipBlanks cs) with
    | '\n' :: rest => skipBreaks n rest
    | cs => cs

/-- Whether a character ends a word. -/
def isDelimiter (c : Char) : Bool :=
  c = ' ' || c = '\t' || c = '\n' || c = ';' || c = '&' || c = '|' || c = '<' || c = '>'
    || c = '(' || c = ')'

/-- A character of a variable's name. -/
def isNameChar (c : Char) : Bool := c.isAlphanum || c = '_'

/-- The characters up to the next delimiter, if none of them is special. -/
def bareWord (cs : Rest) : String := String.ofList (cs.takeWhile fun c => !isDelimiter c)

/-- What follows a reserved word, if it stands at the front. -/
def afterReserved? (word : String) (cs : Rest) : Option Rest :=
  if bareWord cs = word then some (cs.drop word.length) else none

/-- Words that end a list of commands. -/
def isClosing (word : String) : Bool :=
  word = "then" || word = "elif" || word = "else" || word = "fi" || word = "do" || word = "done"
    || word = "esac" || word = "\x7d"

/-- Words that start a command made of others. -/
def isOpening (word : String) : Bool :=
  word = "if" || word = "while" || word = "until" || word = "for" || word = "case"
    || word = "\x7b"

/-- The lines of a document up to the one that ends it, and what follows that line. The first
argument bounds the number of lines. -/
def document (delimiter : List Char) : Nat → Rest → List Char × Rest
  | 0, cs => ([], cs)
  | _ + 1, [] => ([], [])
  | n + 1, c :: rest =>
    let (line, after) := (c :: rest).span (· ≠ '\n')
    if line = delimiter then ([], after.drop 1)
    else
      let others := document delimiter n (after.drop 1)
      (line ++ '\n' :: others.1, others.2)

/-- The text between two pairs of brackets, after the first pair, and what follows the second. The
first argument counts the brackets that are open in between. -/
def bracketed? : Nat → Rest → Option (List Char × Rest)
  | _, [] => none
  | 0, ')' :: ')' :: rest => some ([], rest)
  | 0, ')' :: _ => none
  | d + 1, ')' :: rest => (bracketed? d rest).map fun r => (')' :: r.1, r.2)
  | d, '(' :: rest => (bracketed? (d + 1) rest).map fun r => ('(' :: r.1, r.2)
  | d, c :: rest => (bracketed? d rest).map fun r => (c :: r.1, r.2)

/-- The text between two grave accents, after the first, and what follows the second. -/
def accented? : Rest → Option (List Char × Rest)
  | [] => none
  | '\x60' :: rest => some ([], rest)
  | '\\' :: c :: rest =>
    let kept := if c = '\x60' || c = '\\' || c = '$' then [c] else ['\\', c]
    (accented? rest).map fun r => (kept ++ r.1, r.2)
  | c :: rest => (accented? rest).map fun r => (c :: r.1, r.2)

/-- The text of a word without variables. -/
def plainText (w : Word) : List Char := w.flatMap fun
  | .text cs => cs
  | .wild c => [c]
  | _ => []

/-- A single character that names a variable. -/
def isSpecialName (c : Char) : Bool := c = '$' || c = '?' || c = '#' || c.isDigit

/-- A name and an equals sign at the front of a word. -/
def assignment? (cs : Rest) : Option (String × Rest) :=
  let name := cs.takeWhile isNameChar
  match cs.drop name.length with
  | '=' :: rest => if name.head?.any fun c => !c.isDigit then some (String.ofList name, rest) else none
  | _ => none

mutual

/-- The parts of a word up to a delimiter. -/
def word? : Nat → Rest → Option (Word × Rest)
  | 0, _ => none
  | _ + 1, [] => some ([], [])
  | n + 1, c :: rest =>
    if isDelimiter c then some ([], c :: rest)
    else if c = '\'' then
      let body := rest.span (· ≠ '\'')
      match body.2 with
      | _ :: rest => (word? n rest).map fun r => (.text body.1 :: r.1, r.2)
      | [] => none
    else if c = '"' then do
      let (pieces, rest) ← quoted? n false rest
      let (others, rest) ← word? n rest
      some (.text [] :: pieces ++ others, rest)
    else if c = '\\' then
      match rest with
      | '\n' :: rest => word? n rest
      | d :: rest => (word? n rest).map fun r => (.text [d] :: r.1, r.2)
      | [] => some ([.text ['\\']], [])
    else if c = '$' || c = '\x60' then do
      let (piece, rest) ← expansion? n false c rest
      let (others, rest) ← word? n rest
      some (piece :: others, rest)
    else
      let piece : Piece := if c = '*' || c = '?' then .wild c else .text [c]
      (word? n rest).map fun r => (piece :: r.1, r.2)

/-- The parts of a word between double quotes, after the opening one, or those of a document, which
ends with the text. -/
def quoted? : Nat → Bool → Rest → Option (Word × Rest)
  | 0, _, _ => none
  | _ + 1, isDocument, [] => if isDocument then some ([], []) else none
  | n + 1, isDocument, c :: rest =>
    if c = '"' && !isDocument then some ([], rest)
    else if c = '\\' then
      match rest with
      | '\n' :: rest => quoted? n isDocument rest
      | d :: rest =>
        let isEscaped := (d = '"' && !isDocument) || d = '\\' || d = '$' || d = '\x60'
        let kept := if isEscaped then [d] else ['\\', d]
        (quoted? n isDocument rest).map fun r => (.text kept :: r.1, r.2)
      | [] => if isDocument then some ([.text ['\\']], []) else none
    else if c = '$' || c = '\x60' then do
      let (piece, rest) ← expansion? n true c rest
      let (others, rest) ← quoted? n isDocument rest
      some (piece :: others, rest)
    else (quoted? n isDocument rest).map fun r => (.text [c] :: r.1, r.2)

/-- What a dollar sign stands for, or a grave accent. -/
def expansion? : Nat → Bool → Char → Rest → Option (Piece × Rest)
  | 0, _, _, _ => none
  | n + 1, isQuoted, '\x60', cs => do
    let (body, rest) ← accented? cs
    let (script, left) ← list? n body
    if left.isEmpty then some (.output script isQuoted, rest) else none
  | n + 1, isQuoted, _, '(' :: '(' :: rest =>
    match bracketed? 0 rest with
    | some (expression, rest) => some (.number expression, rest)
    | none => do
      let (script, rest) ← list? n ('(' :: rest)
      match rest with
      | ')' :: rest => some (.output script isQuoted, rest)
      | _ => none
  | n + 1, isQuoted, _, cs =>
    match cs with
    | '(' :: rest => do
      let (script, rest) ← list? n rest
      match rest with
      | ')' :: rest => some (.output script isQuoted, rest)
      | _ => none
    | '{' :: rest =>
      let name := rest.takeWhile fun c => isNameChar c || isSpecialName c
      match rest.drop name.length with
      | '}' :: rest => some (.variable (String.ofList name) isQuoted, rest)
      | _ => none
    | c :: rest =>
      if isSpecialName c then some (.variable (String.ofList [c]) isQuoted, rest)
      else
        let name := cs.takeWhile isNameChar
        if name.isEmpty then some (.text ['$'], cs)
        else some (.variable (String.ofList name) isQuoted, cs.drop name.length)
    | [] => some (.text ['$'], [])

/-- A redirection after the stream it is about, if one stands at the front. -/
def redirect? : Nat → Nat → Rest → Option (Redirect Word × Rest)
  | 0, _, _ => none
  | n + 1, stream, cs =>
    match cs with
    | '>' :: '&' :: '-' :: rest => some (.close stream, rest)
    | '<' :: '&' :: '-' :: rest => some (.close stream, rest)
    | '>' :: '&' :: rest =>
      match (skipBlanks rest) with
      | c :: rest =>
        if c.isDigit then some (.duplicate stream (c.toNat - '0'.toNat), rest) else none
      | [] => none
    | '>' :: '>' :: rest =>
      (word? n (skipBlanks rest)).map fun r => (.output stream true r.1, r.2)
    | '>' :: rest => (word? n (skipBlanks rest)).map fun r => (.output stream false r.1, r.2)
    | '<' :: '<' :: rest => do
      let start := skipBlanks rest
      let (delimiter, rest) ← word? n start
      let (line, after) := rest.span (· ≠ '\n')
      let (body, after) := document (plainText delimiter) after.length (after.drop 1)
      let isLiteral := start.head?.any fun c => c = '\'' || c = '"' || c = '\\'
      let content ← if isLiteral then some [.text body] else (quoted? n true body).map (·.1)
      some (.document content, line ++ '\n' :: after)
    | '<' :: rest => (word? n (skipBlanks rest)).map fun r => (.input r.1, r.2)
    | _ => none

/-- The redirections at the front. -/
def redirects? : Nat → Rest → Option (List (Redirect Word) × Rest)
  | 0, _ => none
  | n + 1, cs =>
    match skipBlanks cs with
    | c :: d :: rest =>
      if c = '>' || c = '<' then do
        let (r, rest) ← redirect? n (if c = '>' then 1 else 0) (c :: d :: rest)
        let (others, rest) ← redirects? n rest
        some (r :: others, rest)
      else if c.isDigit && (d = '>' || d = '<') then do
        let (r, rest) ← redirect? n (c.toNat - '0'.toNat) (d :: rest)
        let (others, rest) ← redirects? n rest
        some (r :: others, rest)
      else some ([], c :: d :: rest)
    | cs => some ([], cs)

/-- The words of a simple command, with redirections among them. -/
def simple? : Nat → Rest →
    Option (List (String × Word) × List Word × List (Redirect Word) × Rest)
  | 0, _ => none
  | n + 1, cs => do
    let (before, rest) ← redirects? n cs
    match rest with
    | [] => some ([], [], before, [])
    | c :: _ =>
      if isDelimiter c then some ([], [], before, rest)
      else match assignment? rest with
        | some (name, rest) =>
          let (value, rest) ← word? n rest
          let (assigned, words, after, rest) ← simple? n rest
          some ((name, value) :: assigned, words, before ++ after, rest)
        | none =>
          let (word, rest) ← word? n rest
          let (words, after, rest) ← words? n rest
          some ([], word :: words, before ++ after, rest)

/-- The words after the first one of a simple command. -/
def words? : Nat → Rest → Option (List Word × List (Redirect Word) × Rest)
  | 0, _ => none
  | n + 1, cs => do
    let (before, rest) ← redirects? n cs
    match rest with
    | [] => some ([], before, [])
    | c :: _ =>
      if isDelimiter c || c = '#' then some ([], before, rest)
      else
        let (word, rest) ← word? n rest
        let (words, after, rest) ← words? n rest
        some (word :: words, before ++ after, rest)

/-- A command as a whole, with redirections, or a simple command. -/
def command? : Nat → Rest → Option (Command × Rest)
  | 0, _ => none
  | n + 1, cs =>
    let cs := skipBlanks cs
    let first := bareWord cs
    match compound? n first (cs.drop first.length) with
    | some (body, rest) => do
      let (redirects, rest) ← redirects? n rest
      some (.group false body redirects, rest)
    | none =>
      match cs with
      | '(' :: rest => do
        let (body, rest) ← list? n rest
        match rest with
        | ')' :: rest =>
          let (redirects, rest) ← redirects? n rest
          some (.group true body redirects, rest)
        | _ => none
      | cs =>
        if isClosing first || isOpening first then none
        else do
          let (assigned, words, redirects, rest) ← simple? n cs
          if assigned.isEmpty && words.isEmpty && redirects.isEmpty then none
          else some (.simple assigned words redirects, rest)

/-- A command that starts with a reserved word, after that word. -/
def compound? : Nat → String → Rest → Option (Command × Rest)
  | 0, _, _ => none
  | n + 1, word, cs =>
    match word with
    | "if" => choice? n cs
    | "while" => do
      let (condition, rest) ← list? n cs
      let (body, rest) ← body? n rest
      some (.loop condition body, rest)
    | "until" => do
      let (condition, rest) ← list? n cs
      let (body, rest) ← body? n rest
      some (.loop (.negated condition) body, rest)
    | "for" => do
      let name := bareWord (skipBlanks cs)
      let rest ← afterReserved? "in" (skipBlanks ((skipBlanks cs).drop name.length))
      let (words, _, rest) ← words? n rest
      let rest := skipBlanks rest
      let rest := if rest.head? = some ';' then rest.drop 1 else rest
      let (body, rest) ← body? n (skipBreaks rest.length rest)
      some (.each name words body, rest)
    | "case" => do
      let (word, rest) ← word? n (skipBlanks cs)
      let rest ← afterReserved? "in" (skipBreaks rest.length rest)
      let (branches, rest) ← branches? n rest
      some (.select word branches, rest)
    | "\x7b" => do
      let (body, rest) ← list? n cs
      let rest ← afterReserved? "\x7d" rest
      some (body, rest)
    | _ => none

/-- The body of a loop. -/
def body? : Nat → Rest → Option (Command × Rest)
  | 0, _ => none
  | n + 1, cs => do
    let rest ← afterReserved? "do" cs
    let (body, rest) ← list? n rest
    let rest ← afterReserved? "done" rest
    some (body, rest)

/-- Patterns with a bar between them, up to a bracket. -/
def patterns? : Nat → Rest → Option (List Word × Rest)
  | 0, _ => none
  | n + 1, cs => do
    let (word, rest) ← word? n (skipBlanks cs)
    match skipBlanks rest with
    | '|' :: rest =>
      let (others, rest) ← patterns? n rest
      some (word :: others, rest)
    | ')' :: rest => some ([word], rest)
    | _ => none

/-- The branches of a selection, up to the word that ends it. -/
def branches? : Nat → Rest → Option (List (List Word × Command) × Rest)
  | 0, _ => none
  | n + 1, cs =>
    let cs := skipBreaks cs.length cs
    match afterReserved? "esac" cs with
    | some rest => some ([], rest)
    | none => do
      let (patterns, rest) ← patterns? n (if cs.head? = some '(' then cs.drop 1 else cs)
      let (body, rest) ← list? n rest
      match rest with
      | ';' :: ';' :: rest =>
        let (others, rest) ← branches? n rest
        some ((patterns, body) :: others, rest)
      | rest =>
        let rest ← afterReserved? "esac" rest
        some ([(patterns, body)], rest)

/-- A choice after its first word. -/
def choice? : Nat → Rest → Option (Command × Rest)
  | 0, _ => none
  | n + 1, cs => do
    let (condition, rest) ← list? n cs
    let rest ← afterReserved? "then" rest
    let (success, rest) ← list? n rest
    match afterReserved? "fi" rest, afterReserved? "else" rest, afterReserved? "elif" rest with
    | some rest, _, _ => some (.choice condition success .nothing, rest)
    | none, some rest, _ =>
      let (failure, rest) ← list? n rest
      let rest ← afterReserved? "fi" rest
      some (.choice condition success failure, rest)
    | none, none, some rest =>
      let (failure, rest) ← choice? n rest
      some (.choice condition success failure, rest)
    | none, none, none => none

/-- Commands joined by pipes. -/
def pipeline? : Nat → Rest → Option (Command × Rest)
  | 0, _ => none
  | n + 1, cs =>
    match afterReserved? "!" (skipBlanks cs) with
    | some rest => (pipeline? n rest).map fun r => (.negated r.1, r.2)
    | none => do
      let (first, rest) ← command? n cs
      match skipBlanks rest with
      | '|' :: '|' :: rest => some (first, '|' :: '|' :: rest)
      | '|' :: rest =>
        let (second, rest) ← pipeline? n (skipBreaks rest.length rest)
        some (.pipe first second, rest)
      | rest => some (first, rest)

/-- Pipelines joined by `&&` and `||`, after one that has been read. -/
def joined? : Nat → Command → Rest → Option (Command × Rest)
  | 0, _, _ => none
  | n + 1, first, cs =>
    match skipBlanks cs with
    | '&' :: '&' :: rest => do
      let (second, rest) ← pipeline? n (skipBreaks rest.length rest)
      joined? n (.both first second) rest
    | '|' :: '|' :: rest => do
      let (second, rest) ← pipeline? n (skipBreaks rest.length rest)
      joined? n (.either first second) rest
    | rest => some (first, rest)

/-- Commands one after the other, up to a word, a bracket or two semicolons that close them. -/
def list? : Nat → Rest → Option (Command × Rest)
  | 0, _ => none
  | n + 1, cs =>
    let cs := skipBreaks cs.length cs
    match cs with
    | [] => some (.nothing, [])
    | ')' :: rest => some (.nothing, ')' :: rest)
    | ';' :: ';' :: rest => some (.nothing, ';' :: ';' :: rest)
    | cs =>
      if isClosing (bareWord cs) then some (.nothing, cs)
      else do
        let (first, rest) ← pipeline? n cs
        let (first, rest) ← joined? n first rest
        match skipComment (skipBlanks rest) with
        | ';' :: ';' :: rest => some (first, ';' :: ';' :: rest)
        | ';' :: rest =>
          let (second, rest) ← list? n rest
          some (.sequence first second, rest)
        | '\n' :: rest =>
          let (second, rest) ← list? n rest
          some (.sequence first second, rest)
        | '&' :: rest =>
          let (second, rest) ← list? n rest
          some (.sequence (.background first) second, rest)
        | rest => some (first, rest)

end

/-- The commands of a script, if it can be read. -/
def parse? (s : String) : Option Command := do
  let cs := s.toList
  let (command, rest) ← list? (8 * cs.length + 16) cs
  if rest.isEmpty then some command else none

end Placement.Script

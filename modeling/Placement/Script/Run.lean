import Placement.Script.Arithmetic
import Placement.Script.Machine
/-
  Runs scripts: a command takes one machine to the next. The first argument of each function bounds
  the recursion.
-/
namespace Placement.Script

/-- Whether redirections take the input from a file. -/
def readsFile (redirects : List (Redirect Word)) : Bool := redirects.any fun
  | .input _ | .document _ | .close 0 => true
  | _ => false

/-- Whether a command is a shell. -/
def isShell (command : Raw) : Bool :=
  let name := utilityName command
  name = "sh" || name = "dash"

/-- What a command does as a program of its own, if there is one of that name. -/
def programEffect? (command : Raw) (arguments : List Raw) (m : Machine) : Option Effect :=
  Call.programEffect? ⟨utilityName command, arguments, m.input.text, m.files, m.name⟩

/-- Runs a utility as a program of its own. -/
def runProgram (command : Raw) (arguments : List Raw) (m : Machine) : Machine :=
  match programEffect? command arguments m with
  | some effect => m.apply effect
  | none => m.notFound command

/-- Whether a signal ended something. -/
def isSignal : ExitStatus → Bool
  | .signal _ => true
  | .code _ => false

mutual

/-- The words that the parts of one stand for. -/
def expand : Nat → Word → Fields → Machine → Fields × Machine
  | 0, _, f, m => (f, m)
  | _ + 1, [], f, m => (f, m)
  | n + 1, piece :: rest, f, m =>
    match piece with
    | .text cs => expand n rest (f.append (Raw.ofText (String.ofList cs))) m
    | .wild c => expand n rest (f.append [c]) m
    | .variable name isQuoted => expand n rest (f.add isQuoted (m.value name)) m
    | .number expression =>
      match Arithmetic.value? (fun name => Format.integer (m.value name)) expression with
      | some i => expand n rest (f.append (Format.integerText i)) m
      | none => (f, (m.fail 2 (Raw.ofText "arithmetic expression: expecting primary")).exit 2)
    | .output script isQuoted =>
      let index := m.buffers.length
      let inner := run n script { m with buffers := m.buffers ++ [{}], out := .buffer index }
      let text := ((inner.buffers[index]?).getD {}).text.withoutLastBreaks
      expand n rest (f.add isQuoted text)
        (m.rejoin { inner with buffers := inner.buffers.take index })

/-- The words that some words stand for. -/
def expandAll : Nat → List Word → Machine → List Raw × Machine
  | 0, _, m => ([], m)
  | _ + 1, [], m => ([], m)
  | n + 1, word :: rest, m =>
    let (f, m) := expand n word {} m
    let (others, m) := expandAll n rest m
    (f.split.complete ++ others, m)

/-- The one text that a word stands for. Nothing is split. -/
def expandOne : Nat → Word → Machine → Raw × Machine
  | 0, _, m => ([], m)
  | n + 1, word, m =>
    let (f, m) := expand n (word.map Piece.quoted) {} m
    (f.current.getD [], m)

/-- Whether a text matches one of some patterns. -/
def matchAny : Nat → Raw → List Word → Machine → Bool × Machine
  | 0, _, _, m => (false, m)
  | _ + 1, _, [], m => (false, m)
  | n + 1, text, word :: rest, m =>
    let (atoms, m) := expandPattern n word m
    if Pattern.matchesIn ⟨atoms, true, true⟩ text then (true, m) else matchAny n text rest m

/-- The pattern that a word stands for. -/
def expandPattern : Nat → Word → Machine → List (Atom × Bool) × Machine
  | 0, _, m => ([], m)
  | _ + 1, [], m => ([], m)
  | n + 1, piece :: rest, m =>
    let (atoms, m) : List (Atom × Bool) × Machine :=
      match piece with
      | .wild c => ([(.any, c = '*')], m)
      | piece =>
        let (text, m) := expandOne n [piece] m
        (text.map fun c => (.one c, false), m)
    let (others, m) := expandPattern n rest m
    (atoms ++ others, m)

/-- The first branch one of whose patterns a text matches. -/
def selected : Nat → Raw → List (List Word × Command) → Machine → Command × Machine
  | 0, _, _, m => (.nothing, m)
  | _ + 1, _, [], m => (.nothing, { m with status := 0 })
  | n + 1, text, (patterns, body) :: rest, m =>
    let (isMatch, m) := matchAny n text patterns m
    if isMatch then (body, { m with status := 0 }) else selected n text rest m

/-- Gives variables their values. -/
def assignAll : Nat → List (String × Word) → Machine → Machine
  | 0, _, m => m
  | _ + 1, [], m => m
  | n + 1, (name, word) :: rest, m =>
    let (text, m) := expandOne n word m
    assignAll n rest (m.assign name text)

/-- Redirects streams, from left to right. The flag tells whether all files were there. -/
def redirect : Nat → List (Redirect Word) → Machine → Bool × Machine
  | 0, _, m => (true, m)
  | _ + 1, [], m => (true, m)
  | n + 1, .input word :: rest, m =>
    let (name, m) := expandOne n word m
    match m.files.content? name with
    | some content => redirect n rest { m with input := ⟨content, false⟩ }
    | none => (false, m.fail 2 (Raw.ofText "cannot open " ++ name ++ Raw.ofText ": No such file"))
  | n + 1, .document word :: rest, m =>
    let (content, m) := expandOne n word m
    redirect n rest { m with input := ⟨content, false⟩ }
  | n + 1, .output stream isAppended word :: rest, m =>
    let (name, m) := expandOne n word m
    let isNull := name = Raw.ofText "/dev/null"
    let sink := if isNull then .nowhere else .file name
    let m := if isNull || isAppended then m
      else { m with files := (name, []) :: m.files.filter (·.1 ≠ name) }
    redirect n rest
      (if stream = 1 then { m with out := sink }
        else if stream = 2 then { m with err := sink } else m)
  | n + 1, .close stream :: rest, m =>
    redirect n rest
      (if stream = 0 then { m with input := ⟨[], false⟩ }
        else if stream = 1 then { m with out := .nowhere }
        else if stream = 2 then { m with err := .nowhere } else m)
  | n + 1, .duplicate stream target :: rest, m =>
    redirect n rest
      (if stream = 1 && target = 2 then { m with out := m.err }
        else if stream = 2 && target = 1 then { m with err := m.out } else m)

/-- Runs a command by its name. -/
def invoke : Nat → Raw → List Raw → Machine → Machine
  | 0, _, _, m => m.exit 2
  | n + 1, command, arguments, m =>
    match utilityName command with
    | "exit" =>
      match arguments with
      | [] => m.exit m.status
      | code :: _ =>
        if !code.isEmpty && code.all Char.isDigit then m.exit (Format.number code)
        else (m.fail 2 (Raw.ofText "exit: Illegal number: " ++ code)).exit 2
    | "exec" =>
      match arguments with
      | [] => { m with status := 0 }
      | command :: arguments =>
        if isShell command then
          let inner := interpret n command arguments m
          { m.rejoin inner with ended := some (inner.ended.getD (.code inner.status)) }
        else match programEffect? command arguments m with
          | some effect =>
            let m := m.apply effect
            if m.ended.isSome then m else m.exit m.status
          | none => (m.notFound (Raw.ofText "exec: " ++ command)).exit 127
    | "read" => m.readLine ((arguments.filter (· ≠ ['-', 'r'])).map Raw.toText)
    | "break" => { m with status := 0, leaving := some .stop }
    | "continue" => { m with status := 0, leaving := some .next }
    | "wait" => { m with status := 0, took := max m.took m.busy }
    | name =>
      if isShell command then
        let inner := interpret n command arguments m
        match inner.ended with
        | some (.signal s) => { m.rejoin { inner with ended := none } with status := 128 + s }
        | _ => m.rejoin inner
      else if command.head? = some '/' then runProgram command arguments m
      else match Call.effect? ⟨name, arguments, m.input.text, m.files, m.name⟩ with
        | some effect => m.apply effect
        | none => m.notFound command

/-- Runs a shell: a script given as an argument, as a file, or as the input. -/
def interpret : Nat → Raw → List Raw → Machine → Machine
  | 0, _, _, m => m.exit 2
  | n + 1, command, arguments, m =>
    match arguments with
    | [] =>
      runText n m.input.text.toText
        { m.takeInput m.input.text.length with parameters := [command] }
    | option :: rest =>
      if option.head? = some '-' && option.contains 'c' then
        match rest with
        | [] => (m.fail 2 (Raw.ofText "-c requires an argument")).exit 2
        | script :: parameters =>
          runText n script.toText
            { m with parameters := if parameters.isEmpty then [command] else parameters }
      else match m.files.content? option with
        | some script => runText n script.toText { m with parameters := option :: rest }
        | none =>
          (m.write m.err
            (command ++ Raw.ofText ": 0: cannot open " ++ option
              ++ Raw.ofText ": No such file\n")).exit 2

/-- Runs the commands of a text. -/
def runText : Nat → String → Machine → Machine
  | 0, _, m => m.exit 2
  | n + 1, text, m =>
    match parse? text with
    | some script => run n script m
    | none => (m.fail 2 (Raw.ofText "Syntax error: end of file unexpected")).exit 2

/-- Runs a simple command: its words first, then the values of its variables, then its
redirections. -/
def runSimple : Nat → List (String × Word) → List Word → List (Redirect Word) → Machine → Machine
  | 0, _, _, _, m => m.exit 2
  | n + 1, assigned, words, redirects, m =>
    let (fields, opened) := expandAll n words m
    if opened.ended.isSome then opened
    else match fields with
    | [] =>
      let (isOpen, redirected) := redirect n redirects (assignAll n assigned opened)
      let input := if readsFile redirects then opened.input else redirected.input
      let restored := { redirected.restore m with input }
      if isOpen && !(assigned.any fun entry => entry.2.any Piece.isOutput) then
        { restored with status := 0 }
      else restored
    | command :: arguments =>
      let isPermanent := utilityName command = "exec" && arguments.isEmpty
      let opened := if isPermanent && readsFile redirects then opened.closeInput else opened
      let (isOpen, redirected) := redirect n redirects (assignAll n assigned opened)
      let done := if isOpen then invoke n command arguments redirected else redirected
      if isPermanent then done
      else
        let input := if readsFile redirects then opened.input else done.input
        let bindings :=
          if utilityName command = "read" || assigned.isEmpty then done.bindings
          else opened.bindings
        { done.restore m with input, bindings }

/-- Runs a command; once the shell has ended, nothing runs. -/
def run : Nat → Command → Machine → Machine
  | 0, _, m => m.exit 2
  | n + 1, script, m =>
    if m.isDone then m
    else match script with
    | .nothing => m
    | .simple assigned words redirects => runSimple n assigned words redirects m
    | .sequence first second => run n second (run n first m)
    | .both first second =>
      let m := run n first m
      if m.status = 0 then run n second m else m
    | .either first second =>
      let m := run n first m
      if m.status = 0 then m else run n second m
    | .negated command =>
      let m := run n command m
      { m with status := if m.status = 0 then 1 else 0 }
    | .background command =>
      let inner := run n command { m with input := ⟨[], false⟩, isBackground := true }
      let joined := m.rejoin { inner with ended := inner.ended.filter isSignal }
      { joined with input := m.input, status := 0, took := m.took }
    | .choice condition success failure =>
      let m := run n condition m
      if m.isDone then m
      else if m.status = 0 then run n success m
      else match failure with
        | .nothing => { m with status := 0 }
        | failure => run n failure m
    | .loop condition body =>
      m.repeatWhile (fun m => run n condition m) (fun m => run n body m) Machine.rounds 0
    | .each name words body =>
      let (values, m) := expandAll n words m
      if m.ended.isSome then m
      else { m with status := 0 }.repeatFor name (fun m => run n body m) values
    | .select word branches =>
      let (text, m) := expandOne n word m
      let (body, m) := selected n text branches m
      run n body m
    | .pipe first second =>
      let index := m.buffers.length
      let left := run n first { m with buffers := m.buffers ++ [{}], out := .buffer index }
      let joined := m.rejoin { left with buffers := left.buffers.take index }
      if joined.ended.isSome then joined
      else
        let text := ((left.buffers[index]?).getD {}).text
        let right := run n second { joined with input := ⟨text, false⟩, took := m.took }
        let after := joined.rejoin right
        { after with input := left.input, took := max left.took right.took }
    | .group isIsolated body redirects =>
      let (isOpen, redirected) := redirect n redirects m
      if !isOpen then redirected.restore m
      else
        let inner := run n body redirected
        let done := if isIsolated then redirected.rejoin inner else inner
        { done.restore m with input := if readsFile redirects then m.input else done.input }

end

end Placement.Script

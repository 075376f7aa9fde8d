import Schemata.Session
import Schemata.Json.Writer
import Schemata.Text.Blank

/-!
# The formatter

Code may be piped through a formatter program. It is asked for its version first, once; a program
that cannot be started is skipped with a warning, one that rejects the code stops the run. So does a
command, or code, that cannot be encoded.
-/

namespace Schemata

/-- A formatter program: the words of its command, and the command as it was given. -/
structure Formatter where
  words : List String
  name : String
  /-- Whether the words can be handed to the system. -/
  passable : Bool
  deriving DecidableEq, Repr

/-- Whether a value can be an argument of a program. The system takes those halves of surrogate
pairs that stand for single bytes. -/
def Json.passable : Json → Bool
  | .broken points => points.all fun n => !Text.isSurrogate n || (0xDC80 ≤ n && n ≤ 0xDCFF)
  | _ => true

namespace Formatter

def ofText (command : String) (passable : Bool) : Except Failure Formatter :=
  match Text.commandWords command with
  | .ok words => .ok ⟨words, command, passable⟩
  | .error error => .error (.words error)

def ofCommand : Json → Except Failure Formatter
  | .str command => ofText command true
  | .broken points => ofText (Text.shownText points) (Json.broken points).passable
  | .null => .error .noCommand
  | _ => .error .commandNotText

/-- What the answer to the question for the version says of the program. -/
def canStart : ProcessOutcome → Run Bool
  | .finished code _ _ _ => return code == 0
  | .timeout | .notFound => return false
  | .denied => Run.fail (.file .denied "")

/-- Whether the program can be started; the answer is kept for the session. -/
def isAvailable (formatter : Formatter) : Run Bool := do
  match (← get).formatterFound with
  | some found => return found
  | none =>
    if !formatter.passable then Run.fail (.fault .unencodable)
    let found ← canStart (← Run.call (formatter.words ++ ["--version"]) none 30)
    modify fun session => { session with formatterFound := some found }
    return found

def commandLine (formatter : Formatter) (config : FormatterConfig) : List String :=
  formatter.words ++ ["--stdin-filepath", "generated.ts"] ++
    (if config.printWidth.truthy then ["--print-width", config.printWidth.display] else []) ++
    (if config.singleQuote.truthy then ["--single-quote"] else []) ++
    (if config.semi.truthy then [] else ["--no-semi"])

/-- What comes of a call of the program for some code. -/
def accept (words : List String) (encodable : Bool) : ProcessOutcome → Run String
  | .notFound => Run.fail (.file .notFound "")
  | .denied => Run.fail (.file .denied "")
  | .timeout =>
    if encodable then
      Run.fail (.formatter ("prettier failed: Command '" ++ Text.quotedList words ++
        "' timed out after 60 seconds"))
    else Run.fail (.fault .unencodable)
  | .finished status stdout stderr _ =>
    if !encodable then Run.fail (.fault .unencodable)
    else if status == 0 then return stdout
    else
      Run.fail (.formatter ("prettier exited with code " ++ toString status ++ ": " ++
        Text.trim stderr))

def run (formatter : Formatter) (code : String) (config : FormatterConfig)
    (encodable : Bool := true) : Run String := do
  let words := formatter.commandLine config
  Run.log .debug ("Running " ++ Text.join " " words)
  if formatter.passable && (!config.printWidth.truthy || config.printWidth.passable) then
    accept words encodable (← Run.call words (some code) 60)
  else Run.fail (.fault .unencodable)

/-- Formats code, or leaves it as it is if the program cannot be started. -/
def format (formatter : Formatter) (code : String) (config : FormatterConfig)
    (encodable : Bool := true) : Run String := do
  if ← formatter.isAvailable then formatter.run code config encodable
  else
    Run.log .warning (formatter.name ++ " not found, leaving output unformatted")
    return code

/-- Formats code with the usual program, asked for its version anew. -/
def formatOnce (code : String) (config : FormatterConfig) : Run String := do
  let known := (← get).formatterFound
  modify fun session => { session with formatterFound := none }
  let formatter : Formatter := ⟨["prettier"], "prettier", true⟩
  let restore : Run Unit := modify fun session => { session with formatterFound := known }
  try
    let result ← formatter.format code config
    restore
    return result
  catch failure =>
    restore
    throw failure

end Formatter

end Schemata

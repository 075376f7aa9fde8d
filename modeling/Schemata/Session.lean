import Schemata.Failure
import Schemata.Files.Atomic
import Schemata.Log
import Schemata.Tree.Reader

/-!
# Sessions

What a run works on and leaves behind: the files, the reader of sources, the formatter program and
the log. A run that fails keeps what it did up to there. The parser and the formatter program are
not part of the program; a session has one of each.
-/

namespace Schemata

inductive ProcessOutcome where
  | notFound
  | denied
  | timeout
  /-- The program ends with a code and its output; an echo adds its input to the output. -/
  | finished (code : Int) (stdout stderr : String) (echo : Bool)
  deriving DecidableEq, Repr

/-- The formatter program: how it answers the question for its version, and any other call. -/
structure Processes where
  version : ProcessOutcome
  run : ProcessOutcome
  deriving DecidableEq, Repr

def Processes.absent : Processes := ⟨.notFound, .notFound⟩

structure ProcessCall where
  words : List String
  input : Option String
  timeout : Nat
  deriving DecidableEq, Repr

structure Session where
  files : Store
  /-- What the system refuses. -/
  hazards : Hazards
  /-- The parser, for the texts that the reader has nothing prepared for. -/
  parse : String → Option Outline
  reader : Reader
  processes : Processes
  /-- Whether the formatter can be started, once that is known. -/
  formatterFound : Option Bool
  calls : List ProcessCall
  log : List Log.Record

/-- A fresh session in which the system refuses nothing. -/
def Session.fresh (files : Store) (parse : String → Option Outline) (reader : Reader)
    (processes : Processes) : Session :=
  ⟨files, .none, parse, reader, processes, none, [], []⟩

def Session.read (session : Session) (text : String) : Except SourceError Node × Reader :=
  session.reader.readWith session.parse text

abbrev Run := ExceptT Failure (StateM Session)

namespace Run

def fail {α : Type} (failure : Failure) : Run α := throw failure

def log (level : Log.Level) (message : String) : Run Unit :=
  modify fun session => { session with log := session.log ++ [Log.Record.mk level message] }

def ofExcept {ε α : Type} (wrap : ε → Failure) : Except ε α → Run α
  | .ok a => pure a
  | .error e => fail (wrap e)

/-- What a computation would yield, without a trace of it in the session. -/
def peek {α : Type} (computation : Run α) : Run (Except Failure α) := do
  let session ← get
  return (computation.run.run session).1

def readFile (text : String) : Run String := do
  let session ← get
  let path := Path.ofString text
  ofExcept (Failure.file · text) (guarded (session.hazards.read path) (session.files.read path))

def readSource (text : String) : Run Node := do
  let session ← get
  let (result, reader) := session.read text
  set { session with reader := reader }
  ofExcept .source result

def call (words : List String) (input : Option String) (timeout : Nat) : Run ProcessOutcome := do
  let session ← get
  set { session with calls := session.calls ++ [ProcessCall.mk words input timeout] }
  let outcome :=
    if words.contains "--version" then session.processes.version else session.processes.run
  match outcome with
  | .finished code stdout stderr true =>
    return .finished code (stdout ++ input.getD "") stderr true
  | outcome => return outcome

end Run

end Schemata

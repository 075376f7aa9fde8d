import Schemata.Command.Options
import Schemata.Pipeline

/-!
# The program

One run of the program: the configuration is loaded and overridden by flags, the source is read, and
the code is printed or written. The outcome is the exit code with what was printed; an unforeseen
failure is kept apart.

The command line is read, and texts are printed, by a front end that is not part of the program. A
front end may look at the files, but has no other part in them.
-/

namespace Schemata.Command

structure Settings where
  values : List (String × Json)

namespace Settings

def flag (settings : Settings) (key : String) : Bool :=
  ((valueAt? key settings.values).map Json.truthy).getD false

def text (settings : Settings) (key : String) : String :=
  ((valueAt? key settings.values).map Json.display).getD ""

def outputPath (settings : Settings) : Path := .ofString (settings.text "output_path")

end Settings

structure Outcome where
  exitCode : Nat
  stdout : String
  stderr : String
  /-- A failure that the program does not foresee. -/
  failure : Option Failure

/-- What becomes of a command line: the run may end there, as it does if help is asked for. -/
inductive Start where
  | ended (outcome : Outcome)
  | run (settings : Settings)

/-- A front end: how it reads a command line for some files, and what is seen of a text that is
printed and of an error message. -/
structure Frontend where
  start : Store → List String → Start
  echo : String → String
  complain : String → String

def loadConfig (settings : Settings) : Run Config :=
  match valueAt? "config" settings.values with
  | some (.str text) => do
    let content ← Run.readFile text
    let document := String.ofList (universalNewlines content.toList)
    let json ← Run.ofExcept (Failure.document · document) (Json.read document)
    Run.ofExcept .config (Config.ofJson json)
  | _ => return Config.default

def overrideConfig (settings : Settings) (config : Config) : Except ConfigError Config := do
  let config := if settings.flag "disable_autogen_comment" then
    { config with addComment := .bool false } else config
  let config := if settings.flag "skip_type_creation" then
    { config with skipTypes := .bool true } else config
  let config ← match valueAt? "run_formatter" settings.values, config.formatter with
    | some (.bool on), .group formatter =>
      pure { config with formatter := .group { formatter with enabled := .bool on } }
    | some (.bool _), .other _ => .error .notAGroup
    | _, _ => pure config
  let config ← if settings.flag "force" then
      match config.output with
      | .group output =>
        pure { config with output := .group { output with mode := .group .force } }
      | .other _ => .error .notAGroup
    else pure config
  return if settings.flag "strict" then { config with strict := .bool true } else config

/-- The configuration of a run: the loaded one, overridden by flags. -/
def runConfig (settings : Settings) : Run Config := do
  let config ← loadConfig settings
  Run.ofExcept .config (overrideConfig settings config)

inductive Ending where
  | printed (text : String)
  | written
  | refused (message : String)

/-- Prints or writes generated code. Code that cannot be encoded cannot be printed either. -/
def deliver (settings : Settings) (config : Config) (generated : Generated) : Run Ending := do
  if settings.flag "output_stdout" then
    if generated.encodable then return .printed generated.code
    else Run.fail (.fault .unencodable)
  else
    writeOutput config generated.code settings.outputPath generated.encodable
    return .written

def produce (settings : Settings) (generator : Generator) (line source : String) : Run Ending := do
  deliver settings generator.config (← generator.generate line source)

/-- The failures that are foreseen become messages. -/
def foresee (failure : Failure) : Run Ending :=
  if failure.isForeseen then return .refused failure.message else Run.fail failure

def work (settings : Settings) : Run Ending := do
  let config ← runConfig settings
  let inputText := settings.text "input_path"
  let files := (← get).files
  if !files.contains (Path.ofString inputText) then
    return .refused ("Input file not found: " ++ inputText)
  let content ← Run.readFile inputText
  let generator ← Run.ofExcept id (Generator.ofConfig config)
  let source := String.ofList (universalNewlines content.toList)
  tryCatch (produce settings generator (runLine files settings.values) source) foresee

/-- The outcome of a run on checked settings, below the log that is shown. -/
def Outcome.ofResult (frontend : Frontend) (shown : String) : Except Failure Ending → Outcome
  | .ok (.printed text) => ⟨0, frontend.echo text, shown, none⟩
  | .ok .written => ⟨0, "", shown, none⟩
  | .ok (.refused message) => ⟨1, "", shown ++ frontend.complain message, none⟩
  | .error failure => ⟨1, "", shown, some failure⟩

def runWith (frontend : Frontend) (arguments : List String) (session : Session) :
    Outcome × Session :=
  match frontend.start session.files arguments with
  | .ended outcome => (outcome, session)
  | .run settings =>
    let (result, after) :=
      ((work settings).run { session with formatterFound := none, log := [] }).run
    let setup := Log.configure (settings.flag "verbose")
    (.ofResult frontend (String.join (after.log.map setup.show)) result, after)

end Schemata.Command

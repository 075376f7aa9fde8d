import Schemata.Emitted.Renaming
import Schemata.Emitted.StaticLines
import Schemata.Formatter
import Schemata.Derive.Statement
import Schemata.Schema.Encoding

/-!
# From source to file

A source is read, its schemas are derived and rendered; the code is then reduced to its values and
renamed as the options say, gets a comment on top, may be formatted, and is written to a file. Along
the way it is known whether the code can be encoded.
-/

namespace Schemata

/-- Generated code with the diagnostics met on the way, and whether it can be encoded. -/
structure Generated where
  code : String
  diagnostics : List Diagnostic
  encodable : Bool
  deriving DecidableEq, Repr

def Event.record? : Event → Option Log.Record
  | .noted diagnostic =>
    some ⟨.warning, "line " ++ toString diagnostic.line ++ ": " ++ diagnostic.message⟩
  | .registered name _ => some ⟨.debug, "Registered " ++ name ++ " for indexed access"⟩
  | .needsSchema | .needsGenerics => none

/-- Logs the events of a report and takes its result. -/
def Run.ofReport {α : Type} (report : Report α) : Run α := do
  modify fun session => { session with log := session.log ++ report.events.filterMap Event.record? }
  Run.ofExcept .fault report.result

def generateFrom (library : String) (libraryEncodable : Bool) (root : Node) : Run Generated := do
  let statements := (root.children.filter fun child => child.label.named).length
  Run.log .debug ("Parsed " ++ toString statements ++ " top-level statements")
  let report := deriveFile root
  let derived ← Run.ofReport report
  let diagnostics := Report.diagnostics report.events
  Run.log .debug ("Built " ++ toString derived.declarations.length ++ " declarations, " ++
    toString diagnostics.length ++ " diagnostics")
  let module := moduleOf derived.declarations report.events
  let code ← Run.ofExcept .render (module.render library)
  return ⟨code, diagnostics, module.encodable library libraryEncodable⟩

def generate (library : String) (source : String) (libraryEncodable : Bool := true) :
    Run Generated := do
  generateFrom library libraryEncodable (← Run.readSource source)

/-- The mark for half of a surrogate pair in a template. -/
def plainMark : Char := Char.ofNat 0xFFFD

/-- A template, which must be a string. -/
def templateText (mark : Char) : Json → Run String
  | .str text => return text
  | .broken points => return Text.markedText mark points
  | _ => Run.fail .templateNotText

/-- The new names that the templates give, values first. A template that is no string is only
complained about when it is needed. -/
def templateNames (mark : Char) (typeTemplate valueTemplate : Json) (chars : List Char) :
    Run Emitted.NewNames := do
  let fill (template : Json) (names : List (List Char)) : Run Emitted.Names := do
    if names.isEmpty then return []
    Run.ofExcept .template (Emitted.fillAll (← templateText mark template) names)
  let values ← fill valueTemplate (Emitted.declaredValues true chars).eraseDups
  let types ← fill typeTemplate (Emitted.declaredTypes chars).eraseDups
  return ⟨types, values.filter fun entry => entry.1 != entry.2⟩

/-- Renames the declarations of code; values that collide with an import are warned about. -/
def renameDeclarations (typeTemplate valueTemplate : Json) (code : String)
    (mark : Char := plainMark) : Run String := do
  let plain := Json.str Emitted.plainTemplate
  if typeTemplate.sameScalar plain && valueTemplate.sameScalar plain then return code
  let chars := code.toList
  let names ← templateNames mark typeTemplate valueTemplate chars
  if names.values.isEmpty && names.types.isEmpty then return code
  (Emitted.collisions names chars).forM fun name =>
    Run.log .warning ("Renamed value " ++ name ++ " collides with an imported name")
  Run.log .debug ("Renamed " ++ toString names.types.length ++ " types and " ++
    toString names.values.length ++ " values")
  return String.ofList (Emitted.applyNames names chars)

/-- Reduces code to its values if asked to, and renames its declarations. -/
def postprocess (config : Config) (code : String) (mark : Char := plainMark) : Run String :=
  renameDeclarations config.typeTemplate config.valueTemplate
    (if config.skipTypes.truthy then Emitted.stripStatic code else code) mark

/-- Whether half of a surrogate pair gets from a template into the code. If it does, the code
depends on the mark for it. -/
def spoiledByTemplates (config : Config) (code : String) : Run Bool := do
  let shown ← Run.peek (postprocess config code)
  let other ← Run.peek (postprocess config code (Char.ofNat 0xFFFE))
  return shown.toOption != other.toOption

def generationComment (config : Config) (commandLine : String) : String :=
  if config.addComment.truthy then "// Generated by ts2typebox v1.0.0 : " ++ commandLine else ""

structure Generator where
  config : Config
  formatterConfig : FormatterConfig
  formatter : Formatter

namespace Generator

def ofConfig (config : Config) : Except Failure Generator :=
  match config.formatter with
  | .other _ => .error (.config .notAGroup)
  | .group formatterConfig => do
    return ⟨config, formatterConfig, ← Formatter.ofCommand formatterConfig.command⟩

/-- Generates the code of a file; `commandLine` is named in its comment. -/
def generate (generator : Generator) (commandLine source : String) : Run Generated := do
  let config := generator.config
  let generated ← Schemata.generate config.library.display source config.library.encodable
  if config.strict.truthy && !generated.diagnostics.isEmpty then
    Run.fail (.strict generated.diagnostics)
  let spoiled ← spoiledByTemplates config generated.code
  let code ← postprocess config generated.code
  let code := commentLines (generationComment config commandLine) ++ code
  let encodable := generated.encodable && !spoiled
  let code ← if generator.formatterConfig.enabled.truthy then
      generator.formatter.format code generator.formatterConfig encodable
    else pure code
  return ⟨code, generated.diagnostics, encodable⟩

end Generator

def checkCode (session : Session) (code : String) : Except SourceError Unit :=
  (session.read code).1.map fun _ => ()

/-- The request to write code atomically, only if the file is new when `onlyNew` is set. -/
def codeRequest (session : Session) (onlyNew validate : Bool) (path : Path) (content : Content) :
    WriteRequest SourceError :=
  ⟨onlyNew, path, content, validate, checkCode session, session.hazards⟩

def WriteFailure.failure (path : Path) : WriteFailure SourceError → Failure
  | .file error refused => .file error refused.text
  | .unencodable => .fault .unencodable
  | .invalid error => .invalidCode error
  | .replace error => .file error path.text
  | .outputExists => .outputExists path.text

/-- Whether a write got as far as being checked. -/
def reachedCheck : Except (WriteFailure SourceError) Unit → Bool
  | .error (.file _ _) | .error .unencodable | .error .outputExists => false
  | _ => true

/-- Writes a file atomically, only if it is new when `onlyNew` is set. -/
def writeAtomically (onlyNew validate : Bool) (path : Path) (code : String)
    (encodable : Bool := true) : Run Unit := do
  let session ← get
  let (outcome, files) :=
    (codeRequest session onlyNew validate path ⟨code, encodable⟩).perform session.files
  let reader := if validate && reachedCheck outcome then (session.read code).2 else session.reader
  set { session with files := files, reader := reader }
  Run.ofExcept (WriteFailure.failure path) outcome

/-- Whether the options ask to keep, or to replace, an existing file. -/
def Setting.isMode (setting : Setting OutputMode) (mode : OutputMode) : Bool :=
  match setting with
  | .group own => own == mode
  | .other _ => false

def writeOutput (config : Config) (code : String) (path : Path) (encodable : Bool := true) :
    Run Unit :=
  match config.output with
  | .other _ => Run.fail (.config .notAGroup)
  | .group output => do
    if output.atomic.truthy then
      writeAtomically (!output.mode.isMode .force) output.validate.truthy path code encodable
      Run.log .info ("Wrote " ++ path.text)
    else
      let session ← get
      if output.mode.isMode .errorIfExists && session.files.contains path then
        Run.fail (.outputExists path.text)
      let (outcome, files) := plainWrite session.hazards session.files path ⟨code, encodable⟩
      set { session with files := files }
      Run.ofExcept (WriteFailure.failure path) outcome

end Schemata

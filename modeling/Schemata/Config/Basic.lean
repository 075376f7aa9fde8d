import Schemata.Json.Basic
import Schemata.Text.Literal

/-!
# Configuration

The options of a run are read from a JSON object. Entries are taken as they are, whatever their
type, and only complained about where they are used; entries with an unknown name are ignored.
-/

namespace Schemata

/-- What happens if the output file exists. -/
inductive OutputMode where
  | errorIfExists
  | force
  deriving DecidableEq, Repr

namespace OutputMode

def name : OutputMode → String
  | errorIfExists => "error"
  | force => "force"

def ofName? (text : String) : Option OutputMode :=
  [errorIfExists, force].find? fun mode => mode.name == text

end OutputMode

/-- A group of options, or the value that was given in its place. -/
inductive Setting (α : Type) where
  | group (value : α)
  | other (value : Json)

structure FormatterConfig where
  enabled : Json
  command : Json
  printWidth : Json
  singleQuote : Json
  semi : Json

structure OutputConfig where
  mode : Setting OutputMode
  validate : Json
  atomic : Json

structure Config where
  addComment : Json
  skipTypes : Json
  typeTemplate : Json
  valueTemplate : Json
  /-- The module that the schema vocabulary is imported from. -/
  library : Json
  strict : Json
  formatter : Setting FormatterConfig
  output : Setting OutputConfig
  /-- An entry of its name has taken the place of the operation that dumps the options. -/
  dumpReplaced : Bool

inductive ConfigError where
  /-- The options are no object. -/
  | notAnObject
  /-- An unknown entry among the options of the formatter. -/
  | unknownFormatterEntry
  | unknownMode (text : String)
  /-- A value stands where a group of options is needed. -/
  | notAGroup
  /-- The operation that dumps the options was replaced by a value. -/
  | dumpReplaced
  deriving DecidableEq, Repr

def ConfigError.message : ConfigError → String
  | .unknownMode text => Text.quoted text ++ " is not a valid OutputMode"
  | _ => ""

namespace FormatterConfig

/-- The options of a formatter that is switched off. -/
def default : FormatterConfig :=
  ⟨.bool false, .str "prettier", .int 80, .bool false, .bool true⟩

def set (config : FormatterConfig) (name : String) (value : Json) :
    Except ConfigError FormatterConfig :=
  match name with
  | "enabled" => .ok { config with enabled := value }
  | "command" => .ok { config with command := value }
  | "print_width" => .ok { config with printWidth := value }
  | "single_quote" => .ok { config with singleQuote := value }
  | "semi" => .ok { config with semi := value }
  | _ => .error .unknownFormatterEntry

def ofEntries (entries : List (String × Json)) : Except ConfigError FormatterConfig :=
  entries.foldlM (fun config (name, value) => config.set name value) default

def toJson (config : FormatterConfig) : Json :=
  .obj [("enabled", config.enabled), ("command", config.command),
    ("print_width", config.printWidth), ("single_quote", config.singleQuote),
    ("semi", config.semi)]

end FormatterConfig

namespace OutputConfig

/-- Existing files are kept, code is checked, and files are replaced in one step. -/
def default : OutputConfig := ⟨.group .errorIfExists, .bool true, .bool true⟩

/-- Reads a mode: a text must name one, any other value is kept. -/
def readMode : Option Json → Except ConfigError (Setting OutputMode)
  | none => .ok (.group .errorIfExists)
  | some (.str text) =>
    match OutputMode.ofName? text with
    | some mode => .ok (.group mode)
    | none => .error (.unknownMode text)
  | some (.broken points) => .error (.unknownMode (Text.shownText points))
  | some value => .ok (.other value)

def ofEntries (entries : List (String × Json)) : Except ConfigError OutputConfig := do
  let mode ← readMode (valueAt? "mode" entries)
  return ⟨mode, (valueAt? "validate_before_write" entries).getD (.bool true),
    (valueAt? "atomic_write" entries).getD (.bool true)⟩

def toJson (config : OutputConfig) : Except ConfigError Json :=
  match config.mode with
  | .group mode =>
    .ok (.obj [("mode", .str mode.name), ("validate_before_write", config.validate),
      ("atomic_write", config.atomic)])
  | .other _ => .error .notAGroup

end OutputConfig

namespace Config

/-- The options of a run without a configuration. -/
def default : Config where
  addComment := .bool true
  skipTypes := .bool false
  typeTemplate := .str "\x7bname\x7d"
  valueTemplate := .str "\x7bname\x7d"
  library := .str "@sinclair/typebox"
  strict := .bool false
  formatter := .group FormatterConfig.default
  output := .group OutputConfig.default
  dumpReplaced := false

def set (config : Config) (name : String) (value : Json) : Except ConfigError Config :=
  match name, value with
  | "formatter", .obj entries => do
    return { config with formatter := .group (← FormatterConfig.ofEntries entries) }
  | "output", .obj entries => do
    return { config with output := .group (← OutputConfig.ofEntries entries) }
  | "formatter", value => .ok { config with formatter := .other value }
  | "output", value => .ok { config with output := .other value }
  | "add_generation_comment", value => .ok { config with addComment := value }
  | "skip_type_creation", value => .ok { config with skipTypes := value }
  | "type_name_template", value => .ok { config with typeTemplate := value }
  | "value_name_template", value => .ok { config with valueTemplate := value }
  | "typebox_module", value => .ok { config with library := value }
  | "strict", value => .ok { config with strict := value }
  | "to_dict", _ => .ok { config with dumpReplaced := true }
  | _, _ => .ok config

def ofEntries (entries : List (String × Json)) : Except ConfigError Config :=
  entries.foldlM (fun config (name, value) => config.set name value) default

/-- Reads the options of a run from a document, which must be an object. -/
def ofJson : Json → Except ConfigError Config
  | .obj entries => ofEntries entries
  | _ => .error .notAnObject

def toJson (config : Config) : Except ConfigError Json :=
  if config.dumpReplaced then .error .dumpReplaced
  else
    match config.formatter, config.output with
    | .group formatter, .group output => do
      let output ← output.toJson
      return .obj [("add_generation_comment", config.addComment),
        ("skip_type_creation", config.skipTypes), ("type_name_template", config.typeTemplate),
        ("value_name_template", config.valueTemplate), ("typebox_module", config.library),
        ("strict", config.strict), ("formatter", formatter.toJson), ("output", output)]
    | _, _ => .error .notAGroup

end Config

end Schemata

import Schemata.Command.Work
import Schemata.Text.Literal
import Schemata.Text.Style

/-!
# A front end

Nothing that is known of a run depends on its front end. This one is for running the program:
options are given by long names, with a value after an equals sign or in the next argument, or by
single letters, which may stand together. The last value of an option counts. A text that is printed
loses its terminal styles.
-/

namespace Schemata.Command

inductive UsageError where
  | noSuchOption (name : String)
  | needsArgument (name : String)
  | takesNoValue (name : String)
  | extraArguments (arguments : List String)
  | notAFile (spellings : List String) (path : String)
  | missingPath (spellings : List String) (path : String)
  deriving DecidableEq, Repr

private def spelled (spellings : List String) : String :=
  " / ".intercalate (spellings.map Text.quoted)

def UsageError.message : UsageError → String
  | .noSuchOption name => "No such option " ++ Text.quoted name ++ "."
  | .needsArgument name => "Option " ++ Text.quoted name ++ " requires an argument."
  | .takesNoValue name => "Option " ++ Text.quoted name ++ " does not take a value."
  | .extraArguments arguments =>
    "Got unexpected extra argument" ++ (if arguments.length == 1 then "" else "s") ++ " (" ++
      " ".intercalate arguments ++ ")"
  | .notAFile spellings path =>
    "Invalid value for " ++ spelled spellings ++ ": File " ++ Text.quoted path ++
      " is a directory."
  | .missingPath spellings path =>
    "Invalid value for " ++ spelled spellings ++ ": Path " ++ Text.quoted path ++
      " does not exist."

/-- Whether a refusal comes with a hint at the usage. -/
def UsageError.showsUsage : UsageError → Bool
  | .needsArgument _ | .takesNoValue _ => false
  | _ => true

/-- The option with a spelling, and whether the spelling switches it on. -/
def findOption (specs : List OptionSpec) (spelling : String) : Option (OptionSpec × Bool) :=
  specs.findSome? fun spec =>
    if spec.spellings.contains spelling then some (spec, true)
    else if spec.offSpellings.contains spelling then some (spec, false)
    else none

/-- What one argument gives: values, and an option whose value is the next argument. -/
structure Step where
  given : List (String × Json)
  pending : Option (OptionSpec × String)

/-- Reads letters that stand together; the rest after a letter that takes a value is the value. -/
def letters (specs : List OptionSpec) : List Char → Except UsageError Step
  | [] => .ok ⟨[], none⟩
  | c :: rest =>
    let spelling := String.ofList ['-', c]
    match findOption specs spelling with
    | none => .error (.noSuchOption spelling)
    | some (spec, on) =>
      if spec.isFlag then do
        let step ← letters specs rest
        return { step with given := (spec.key, .bool on) :: step.given }
      else if rest.isEmpty then .ok ⟨[], some (spec, spelling)⟩
      else .ok ⟨[(spec.key, .str (String.ofList rest))], none⟩

/-- Reads one argument that begins with a dash. -/
def dashed (specs : List OptionSpec) (chars : List Char) : Except UsageError Step :=
  let name := String.ofList (chars.takeWhile (· != '='))
  let value? := match chars.dropWhile (· != '=') with
    | _ :: value => some (String.ofList value)
    | [] => none
  let isLong := name.length > 2
  match if isLong then findOption specs name else none with
  | some (spec, on) =>
    if spec.isFlag then
      match value? with
      | some _ => .error (.takesNoValue name)
      | none => .ok ⟨[(spec.key, .bool on)], none⟩
    else
      match value? with
      | some value => .ok ⟨[(spec.key, .str value)], none⟩
      | none => .ok ⟨[], some (spec, name)⟩
  | none =>
    if "--".toList.isPrefixOf chars then .error (.noSuchOption name)
    else letters specs (chars.drop 1)

/-- A command line as read: the given values in order, and the arguments that are no options. -/
structure Parsed where
  given : List (String × Json)
  extra : List String

def parse (specs : List OptionSpec) : List String → Except UsageError Parsed
  | [] => .ok ⟨[], []⟩
  | argument :: rest =>
    if argument == "--" then .ok ⟨[], rest⟩
    else if argument.toList.head? == some '-' && argument.length > 1 then do
      let step ← dashed specs argument.toList
      match step.pending with
      | none =>
        let parsed ← parse specs rest
        return { parsed with given := step.given ++ parsed.given }
      | some (spec, spelling) =>
        match rest with
        | [] => .error (.needsArgument spelling)
        | value :: rest =>
          let parsed ← parse specs rest
          return { parsed with given := step.given ++ (spec.key, .str value) :: parsed.given }
    else do
      let parsed ← parse specs rest
      return { parsed with extra := argument :: parsed.extra }

def Parsed.values (parsed : Parsed) (specs : List OptionSpec) : List (String × Json) :=
  specs.map fun spec =>
    (spec.key, (valueAt? spec.key parsed.given.reverse).getD spec.fallback)

def helpOption : OptionSpec := ⟨"help", ["--help"], [], true, .bool false⟩

def helpText : String :=
  "Usage: ts2typebox [OPTIONS]\n\n" ++
  "Options:\n" ++
  "  -i, --input FILE           TypeScript file containing the type declarations\n" ++
  "  -o, --output FILE          File receiving the generated TypeBox code\n" ++
  "  --output-stdout            Print the generated code instead of writing a file\n" ++
  "  -c, --config PATH\n" ++
  "  --disable-autogen-comment  Do not add the generation comment\n" ++
  "  --skip-type-creation       Only emit TypeBox values, no Static types\n" ++
  "  --format / --no-format     Format the output with prettier\n" ++
  "  --force                    Overwrite the output file if it exists\n" ++
  "  --strict                   Fail on unsupported syntax and unresolved indexed\n" ++
  "                             access types\n" ++
  "  -v, --verbose\n" ++
  "  --help                     Show this message and exit.\n"

def usageText : String :=
  "Usage: ts2typebox [OPTIONS]\nTry 'ts2typebox --help' for help.\n\n"

/-- Checks the value of one option against the files. A configuration is taken by its full path. -/
def checkValue (files : Store) (key : String) (value : Json) : Except UsageError Json :=
  match key, value with
  | "input_path", .str text =>
    if text != "" && files.isDirectory (Path.ofString text) then
      .error (.notAFile ["--input", "-i"] text)
    else .ok value
  | "output_path", .str text =>
    if text != "" && files.isDirectory (Path.ofString text) then
      .error (.notAFile ["--output", "-o"] text)
    else .ok value
  | "config", .str text =>
    let path := (Path.ofString text).collapse
    if files.contains path then .ok (.str path.text)
    else .error (.missingPath ["--config", "-c"] text)
  | _, value => .ok value

/-- Checks the values of the options, the given ones first and in their order. -/
def checkValues (files : Store) (parsed : Parsed) : Except UsageError (List (String × Json)) := do
  let values := parsed.values programOptions
  let order := (parsed.given.map Prod.fst ++ values.map Prod.fst).eraseDups
  let checked ← order.filterMapM fun key =>
    match valueAt? key values with
    | none => pure none
    | some value => do return some (key, ← checkValue files key value)
  return values.map fun (key, value) => (key, (valueAt? key checked).getD value)

def errorLine (message : String) : String := Text.unstyled ("Error: " ++ message ++ "\n")

def UsageError.outcome (error : UsageError) : Outcome :=
  ⟨2, "", (if error.showsUsage then usageText else "") ++ errorLine error.message, none⟩

def standard : Frontend where
  start files arguments :=
    match parse (programOptions ++ [helpOption]) arguments with
    | .error error => .ended error.outcome
    | .ok parsed =>
      if parsed.given.any fun entry => entry.1 == "help" then .ended ⟨0, helpText, "", none⟩
      else
        match checkValues files parsed with
        | .error error => .ended error.outcome
        | .ok values =>
          if parsed.extra.isEmpty then .run ⟨values⟩
          else .ended (UsageError.extraArguments parsed.extra).outcome
  echo := Text.unstyled
  complain := errorLine

end Schemata.Command

import Schemata.Files.Store
import Schemata.Json.Writer

/-!
# Command line options

The options of the program, and the command line that would give them the values that they have. It
names only what differs from the defaults, and a file by its name.
-/

namespace Schemata.Command

/-- An option: the key of its value, how it is spelled and what it means by default. Flags have no
value; some can also be switched off. -/
structure OptionSpec where
  key : String
  spellings : List String
  offSpellings : List String
  isFlag : Bool
  fallback : Json

/-- The words by which a command line names one option. A value that is the name of a file is
shortened by `shorten`. -/
def optionWords (shorten : String → String) (values : List (String × Json)) (spec : OptionSpec) :
    List String :=
  match valueAt? spec.key values with
  | none => []
  | some value =>
    if value.sameScalar spec.fallback then []
    else if spec.isFlag then
      if value.truthy then spec.spellings.take 1 else spec.offSpellings.take 1
    else
      let flag := spec.spellings.headD ("--" ++ spec.key)
      match value with
      | .null => []
      | .str text => [flag, shorten text]
      | value => [flag, value.display]

def programName : String := "ts2typebox"

/-- The command line that gives the values; without values only the program is named. -/
def commandLine (specs : List OptionSpec) (shorten : String → String)
    (values : List (String × Json)) : String :=
  " ".intercalate (programName :: specs.flatMap (optionWords shorten values))

private def flag (key spelling : String) : OptionSpec := ⟨key, [spelling], [], true, .bool false⟩

def programOptions : List OptionSpec :=
  [⟨"input_path", ["--input", "-i"], [], false, .str "types.ts"⟩,
    ⟨"output_path", ["--output", "-o"], [], false, .str "generated-types.ts"⟩,
    flag "output_stdout" "--output-stdout",
    ⟨"config", ["--config", "-c"], [], false, .null⟩,
    flag "disable_autogen_comment" "--disable-autogen-comment",
    flag "skip_type_creation" "--skip-type-creation",
    ⟨"run_formatter", ["--format"], ["--no-format"], true, .null⟩,
    flag "force" "--force",
    flag "strict" "--strict",
    ⟨"verbose", ["--verbose", "-v"], [], true, .bool false⟩]

/-- A path shown by its name if it denotes something. -/
def shorten (files : Store) (text : String) : String :=
  let path := Path.ofString text
  if files.contains path then path.name else text

def runLine (files : Store) (values : List (String × Json)) : String :=
  commandLine programOptions (shorten files) values

end Schemata.Command

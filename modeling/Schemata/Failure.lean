import Schemata.Config.Basic
import Schemata.Files.Store
import Schemata.Json.Reader
import Schemata.Schema.Render
import Schemata.Text.CommandWords
import Schemata.Text.Template
import Schemata.Derive.Report
import Schemata.Tree.Node

/-!
# Failures of a run

Everything that can stop a run, by cause. The failures that a run foresees have a message for the
user; the others come from ill-typed options or from the system.
-/

namespace Schemata

inductive Failure where
  /-- The source text is not well formed. -/
  | source (error : SourceError)
  /-- Diagnostics were found in a strict run. -/
  | strict (diagnostics : List Diagnostic)
  /-- The formatter did not take the code. -/
  | formatter (message : String)
  /-- The generated code is not well formed and is not written. -/
  | invalidCode (error : SourceError)
  /-- The output file exists. -/
  | outputExists (path : String)
  | file (error : FileError) (path : String)
  | fault (cause : Fault)
  | render (error : RenderError)
  | template (error : Text.TemplateError)
  /-- A template that is no text. -/
  | templateNotText
  | words (error : Text.WordsError)
  /-- A formatter command that is null. -/
  | noCommand
  /-- A formatter command that is neither text nor null. -/
  | commandNotText
  | config (error : ConfigError)
  /-- A configuration file that is no document. -/
  | document (error : Json.ReadError) (text : String)
  deriving Repr

def strictMessage (diagnostics : List Diagnostic) : String :=
  "Generation produced diagnostics:\n" ++
    Text.join "\n" (diagnostics.map fun d =>
      "  line " ++ toString d.line ++ ": [" ++ d.concern.name ++ "] " ++ d.message)

def Fault.message : Fault → String
  | .shortLookup parts =>
    "not enough values to unpack (expected 2, got " ++ toString parts ++ ")"
  | .digitLimit count => Json.digitLimitMessage count
  | .noName | .noPart | .unencodable => ""

/-- The message of a failure; empty for those that have none. -/
def Failure.message : Failure → String
  | .source error => error.message
  | .strict diagnostics => strictMessage diagnostics
  | .formatter message => message
  | .invalidCode error => "Generated TypeScript code is not valid: " ++ error.message
  | .outputExists path =>
    "Output file already exists: " ++ path ++ ". Use force mode to overwrite."
  | .file .exists path => "[Errno 17] File exists: " ++ Text.quoted path
  | .file _ _ => ""
  | .fault cause => cause.message
  | .render error => error.message
  | .template error => error.message
  | .words error => error.message
  | .noCommand => "s argument must not be None"
  | .config error => error.message
  | .document error text => error.message text.toList
  | .templateNotText | .commandNotText => ""

/-- Whether a failure is foreseen and shown to the user as an error of the run. -/
def Failure.isForeseen : Failure → Bool
  | .source _ | .strict _ | .formatter _ | .invalidCode _ | .outputExists _ => true
  | .file .exists _ => true
  | _ => false

end Schemata

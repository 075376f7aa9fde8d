import Schemata.Command.Program

/-!
# The command

The outer layer of the program: what the arguments name is loaded from the file system, the program
runs on it, and its output and the files that it changed are written. No formatter is started from
here.
-/

namespace Schemata

def Place.text (place : Place) : String :=
  match place with
  | "/" :: rest => (Path.mk true rest).text
  | _ => (Path.mk false place).text

def loadPath (store : Store) (path : Path) : IO Store := do
  match ← (IO.FS.readFile path.text).toBaseIO with
  | .ok content => return store.add path.text content
  | .error (.inappropriateType ..) => return store.add (path.text ++ "/") ""
  | .error _ => return store

/-- Loads what the given texts name, with the directories on the way. -/
def loadPaths (texts : List String) : IO Store :=
  (texts.flatMap fun text => (Path.ofString text).steps).foldlM loadPath .empty

/-- The texts of a command line that may be paths: arguments, and values behind an equals sign or a
letter. -/
def pathTexts (arguments : List String) : List String :=
  ["types.ts", "generated-types.ts"] ++ arguments.flatMap fun argument =>
    let chars := argument.toList
    [argument, String.ofList (chars.drop 2), String.ofList ((chars.dropWhile (· != '=')).drop 1)]

/-- Writes the entries of a store that another one lacks. -/
def saveChanges (before after : Store) : IO Unit :=
  after.entries.reverse.forM fun (place, entry) => do
    if before.get? place != some entry then
      match entry with
      | .directory => IO.FS.createDirAll place.text
      | .file content => IO.FS.writeFile place.text content

end Schemata

def main (arguments : List String) : IO UInt32 := do
  let files ← Schemata.loadPaths (Schemata.pathTexts arguments)
  let (outcome, after) := Schemata.Command.run arguments (.new files .plain .absent)
  Schemata.saveChanges files after.files
  (← IO.getStdout).putStr outcome.stdout
  (← IO.getStderr).putStr outcome.stderr
  match outcome.failure with
  | some failure => (← IO.getStderr).putStrLn failure.message
  | none => pure ()
  return outcome.exitCode.toUInt32

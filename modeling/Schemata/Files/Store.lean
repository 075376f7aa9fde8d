import Schemata.Files.Path

/-!
# File stores

A store holds files and directories by their place. Places are seen from a working directory; the
root and the directories above the working directory are always there. Following a path fails where
a component is missing or is a file. An operation that fails leaves the store as it was, except that
directories made on the way stay.
-/

namespace Schemata

inductive FileError where
  | exists
  | isDirectory
  | notDirectory
  | notFound
  | denied
  | busy
  deriving DecidableEq, Repr

inductive Entry where
  | file (content : String)
  | directory
  deriving DecidableEq, Repr

/-- The place of an entry: the components from the working directory down, with two points for each
step above it, or from the root down, which is written as a slash. -/
abbrev Place := List String

namespace Place

/-- Whether a place is the working directory, one above it or the root. -/
def isAnchor (place : Place) : Bool := place == ["/"] || place.all (· == "..")

def above (place : Place) : Place :=
  if place == ["/"] then place
  else if place.all (· == "..") then place ++ [".."]
  else place.dropLast

/-- The place of a component of a directory. -/
def enter (place : Place) (part : String) : Place :=
  if part == ".." then place.above else place ++ [part]

/-- Whether a place lies below the working directory. -/
def isBelow (place : Place) : Bool := place.head?.any fun part => part != "/" && part != ".."

end Place

def Path.origin (path : Path) : Place := if path.absolute then ["/"] else []

/-- The place to which a path leads if all of its directories are there. -/
def Path.place (path : Path) : Place := path.components.foldl Place.enter path.origin

structure Store where
  entries : List (Place × Entry)
  deriving Repr

namespace Store

def empty : Store := ⟨[]⟩

def get? (store : Store) (place : Place) : Option Entry :=
  if place.isAnchor then some .directory
  else (store.entries.find? fun entry => entry.1 == place).map Prod.snd

def erase (store : Store) (place : Place) : Store :=
  ⟨store.entries.filter fun entry => entry.1 != place⟩

def put (store : Store) (place : Place) (entry : Entry) : Store :=
  ⟨(place, entry) :: (store.erase place).entries⟩

/-- Follows components from a place on. Only directories can be entered. -/
def follow (store : Store) : Place → List String → Except FileError Place
  | place, [] => .ok place
  | place, part :: rest =>
    match store.get? place with
    | some .directory => follow store (place.enter part) rest
    | some (.file _) => .error .notDirectory
    | none => .error .notFound

/-- The place that a path denotes; its last component need not exist. -/
def resolve (store : Store) (path : Path) : Except FileError Place :=
  store.follow path.origin path.components

def entry? (store : Store) (path : Path) : Option Entry :=
  match store.resolve path with
  | .ok place => store.get? place
  | .error _ => none

def contains (store : Store) (path : Path) : Bool := (store.entry? path).isSome

def isDirectory (store : Store) (path : Path) : Bool := store.entry? path == some .directory

def read (store : Store) (path : Path) : Except FileError String := do
  let place ← store.resolve path
  match store.get? place with
  | some (.file content) => return content
  | some .directory => .error .isDirectory
  | none => .error .notFound

/-- Writes a file in place: its directory must exist. -/
def write (store : Store) (path : Path) (content : String) : Except FileError Store := do
  let place ← store.resolve path
  match store.get? place with
  | some .directory => .error .isDirectory
  | _ => return store.put place (.file content)

/-- Makes the directories at the given steps of a path; `made` tells whether one was made before. The
system may refuse to make some of them. A failure names the step; a file in the way is complained
about as a target that exists, unless nothing was made yet and the path goes on behind it. -/
def makeSteps (refusal : Path → Option FileError) (store : Store) (made : Bool) :
    List Path → Except (FileError × Path) Unit × Store
  | [] => (.ok (), store)
  | step :: rest =>
    match store.get? step.place with
    | some .directory => makeSteps refusal store made rest
    | some (.file _) =>
      (.error (if made || rest.isEmpty then .exists else .notDirectory, step), store)
    | none =>
      match refusal step with
      | some error => (.error (error, step), store)
      | none => makeSteps refusal (store.put step.place .directory) true rest

/-- Makes a directory and those above it; one that exists is fine. -/
def makeDirs (refusal : Path → Option FileError) (store : Store) (path : Path) :
    Except (FileError × Path) Unit × Store :=
  makeSteps refusal store false path.steps

def replace (store : Store) (source : Place) (target : Path) : Except FileError Store := do
  let place ← store.resolve target
  match store.get? source with
  | none => .error .notFound
  | some entry =>
    if target.isNameless then .error .busy
    else
      match store.get? place with
      | some .directory => .error .isDirectory
      | _ => return (store.erase source).put place entry

/-- Adds a file with its directories, or an empty directory for a text that ends in a slash. -/
def add (store : Store) (text content : String) : Store :=
  let path := Path.ofString text
  if text.toList.getLast? == some '/' then (makeDirs (fun _ => none) store path).2
  else
    let store := (makeDirs (fun _ => none) store path.parent).2
    (store.write path content).toOption.getD store

/-- The places of all files below the working directory with their contents, and of the empty
directories there. -/
def listing (store : Store) : List (Place × Option String) :=
  (store.entries.filter fun (place, _) => place.isBelow).filterMap fun (place, entry) =>
    match entry with
    | .file content => some (place, some content)
    | .directory =>
      if store.entries.any fun (other, _) => !other.isEmpty && other.dropLast == place then none
      else some (place, none)

end Store

/-- A text as it is read from a file: every line ends in a line feed. -/
def universalNewlines : List Char → List Char
  | '\r' :: '\n' :: rest => '\n' :: universalNewlines rest
  | '\r' :: rest => '\n' :: universalNewlines rest
  | c :: rest => c :: universalNewlines rest
  | [] => []

end Schemata

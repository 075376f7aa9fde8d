/-!
# Paths

A path is a list of components. Empty components and single points do not count, so a path has one
text; two points stand for the directory above and are kept until the path is followed.
-/

namespace Schemata

def splitSlashes : List Char → List (List Char)
  | [] => [[]]
  | c :: rest =>
    if c == '/' then [] :: splitSlashes rest
    else
      match splitSlashes rest with
      | [] => [[c]]
      | part :: parts => (c :: part) :: parts

/-- A path, relative to the working directory unless it is absolute. -/
structure Path where
  absolute : Bool
  components : List String
  deriving DecidableEq, Repr

namespace Path

def ofString (text : String) : Path :=
  ⟨text.toList.head? == some '/',
    ((splitSlashes text.toList).map String.ofList).filter fun part => part != "" && part != "."⟩

def text (path : Path) : String :=
  if path.absolute then "/" ++ "/".intercalate path.components
  else if path.components.isEmpty then "."
  else "/".intercalate path.components

/-- The last component, empty for the working directory itself. -/
def name (path : Path) : String := path.components.getLast?.getD ""

/-- Whether a path ends in no name of its own. -/
def isNameless (path : Path) : Bool :=
  path.components.isEmpty || path.components.getLast? == some ".."

def parent (path : Path) : Path := { path with components := path.components.dropLast }

/-- The paths on the way to a path, and the path itself. -/
def steps (path : Path) : List Path :=
  (List.range path.components.length).map fun n =>
    { path with components := path.components.take (n + 1) }

/-- One more component of a path without a way back: two points take the last component away, and
stay only where a relative path starts. -/
def back (absolute : Bool) (taken : List String) (part : String) : List String :=
  if part != ".." then taken ++ [part]
  else if taken.all (· == "..") then if absolute then taken else taken ++ [part]
  else taken.dropLast

/-- The path with every pair of points taken back at once, without following it. -/
def collapse (path : Path) : Path :=
  { path with components := path.components.foldl (back path.absolute) [] }

end Path

end Schemata

import Schemata.Text.Blank
import Schemata.Text.Line
import Schemata.Text.Word

/-!
# Lines of emitted code

The forms by which lines of emitted code are told apart: static type lines, value declarations,
imports and the heads of generic declarations. Each reader takes the characters from the start of a
line on.
-/

namespace Schemata.Emitted

open Text

/-- What follows a word, if the text begins with it. -/
def after? (word : String) (chars : List Char) : Option (List Char) :=
  if word.toList.isPrefixOf chars then some (chars.drop word.toList.length) else none

def afterBlanks? : List Char → Option (List Char)
  | c :: rest => if isBlank c then some (dropBlanks rest) else none
  | [] => none

def skipExport (chars : List Char) : List Char :=
  match (after? "export" chars).bind afterBlanks? with
  | some rest => rest
  | none => chars

/-- What follows the keyword of a declaration: indentation, an export mark and blanks may stand
before and after it. -/
def afterKeyword? (keyword : String) (chars : List Char) : Option (List Char) :=
  (after? keyword (skipExport (chars.dropWhile fun c => c == ' ' || c == '\t'))).bind afterBlanks?

def spanName? (chars : List Char) : Option (List Char × List Char) :=
  let name := chars.takeWhile isNameChar
  if name.isEmpty then none else some (name, chars.dropWhile isNameChar)

/-- What follows an equals sign, blanks before it allowed. -/
def afterEquals? (chars : List Char) : Option (List Char) :=
  match dropBlanks chars with
  | '=' :: rest => some rest
  | _ => none

def startsStatic (chars : List Char) : Bool :=
  "Static<".toList.isPrefixOf (dropBlanks chars)

/-- A value declaration: its name and what follows the equals sign. -/
def valueDeclaration? (chars : List Char) : Option (List Char × List Char) := do
  let (name, rest) ← (afterKeyword? "const" chars).bind spanName?
  return (name, ← afterEquals? rest)

/-- Whether somewhere in a text an equals sign stands before a static type. -/
def assignsStatic : List Char → Bool
  | [] => false
  | c :: rest => (c == '=' && startsStatic rest) || assignsStatic rest

/-- A static type declaration on one line: its name and what follows the name. -/
def staticDeclaration? (line : List Char) : Option (List Char × List Char) := do
  let (name, rest) ← (afterKeyword? "type" line).bind spanName?
  if assignsStatic rest then some (name, rest) else none

/-- What follows type parameters between angle brackets; they hold no equals sign and no line
feed. -/
def afterParameters? (chars : List Char) : Option (List Char) :=
  let reach := chars.takeWhile fun c => c != '=' && c != '\n'
  match reach.reverse.dropWhile (· != '>') with
  | [] => none
  | closed => some (chars.drop closed.length)

/-- What follows the name of a type: its parameters are passed over, if there are some. -/
def skipParameters? : List Char → Option (List Char)
  | '<' :: inner => afterParameters? inner
  | chars => some chars

/-- What follows an equals sign and a static type, the line feed after it included. -/
def afterStaticType? (chars : List Char) : Option (List Char) := do
  let rest ← afterEquals? chars
  if startsStatic rest then
    some (((dropBlanks rest).dropWhile (· != '\n')).drop 1)
  else none

/-- What follows a static type line, its line feed included. -/
def afterStaticLine? (chars : List Char) : Option (List Char) := do
  let (_, rest) ← (afterKeyword? "type" chars).bind spanName?
  afterStaticType? (← skipParameters? rest)

/-- An import line: the text around it, the imported names and the module. -/
structure ImportLine where
  before : List Char
  names : List Char
  source : List Char
  rest : List Char
  deriving DecidableEq, Repr

def importHere? (chars : List Char) : Option ImportLine := do
  let inner ← after? "import \x7b" chars
  let names := inner.takeWhile (· != '}')
  let tail ← after? "\x7d from " (inner.dropWhile (· != '}'))
  let source := tail.takeWhile (· != '\n')
  if source.isEmpty then none else some ⟨[], names, source, tail.dropWhile (· != '\n')⟩

/-- The first import line of a text; `lineStart` says that a line begins here. -/
def importLine? (lineStart : Bool) : List Char → Option ImportLine
  | [] => none
  | c :: rest =>
    match if lineStart then importHere? (c :: rest) else none with
    | some found => some found
    | none =>
      (importLine? (c == '\n') rest).map fun found => { found with before := c :: found.before }

def splitCommas : List Char → List (List Char)
  | [] => [[]]
  | c :: rest =>
    if c == ',' then [] :: splitCommas rest
    else
      match splitCommas rest with
      | [] => [[c]]
      | part :: parts => (c :: part) :: parts

/-- The type parameters that a generic declaration line introduces. -/
def lineParameters (line : List Char) : List (List Char) :=
  let opened : Option (List Char) := match (afterKeyword? "type" line).bind spanName? with
    | some (_, rest) => some rest
    | none => (valueDeclaration? line).map fun found => dropBlanks found.2
  match opened with
  | some ('<' :: inner) =>
    if inner.contains '>' then
      ((splitCommas (inner.takeWhile (· != '>'))).map dropBlanks).filterMap fun part =>
        if part.isEmpty then none else some (part.takeWhile fun c => !isBlank c)
    else []
  | _ => []

end Schemata.Emitted

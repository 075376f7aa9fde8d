import Schemata.Emitted.Pattern
import Schemata.Text.Template

/-!
# Renaming declarations

The declared types and values of emitted code get new names by templates, and the references to
values follow. Only whole names outside string literals are touched, and neither members after a
point nor keys before a colon. The type parameters of a generic declaration hide values of the same
name up to the end of its block.
-/

namespace Schemata.Emitted

open Text

/-- A piece of a line: plain code or a string literal. -/
inductive Piece where
  | code (chars : List Char)
  | literal (chars : List Char)
  deriving DecidableEq, Repr

/-- What stands before the closing quote and after it. A backslash keeps the next character, which
is no line feed; only the back quote allows line feeds inside. -/
def closeLiteral (quote : Char) : List Char → Option (List Char × List Char)
  | [] => none
  | '\\' :: rest =>
    match rest with
    | [] => none
    | d :: tail =>
      if d == '\n' then none
      else (closeLiteral quote tail).map fun (inside, after) => ('\\' :: d :: inside, after)
  | c :: rest =>
    if c == quote then some ([], rest)
    else if c == '\n' && quote != '`' then none
    else (closeLiteral quote rest).map fun (inside, after) => (c :: inside, after)

def Piece.consCode (c : Char) : List Piece → List Piece
  | .code chars :: rest => .code (c :: chars) :: rest
  | pieces => .code [c] :: pieces

/-- The string literals of a text and the code between them. -/
def pieces : List Char → List Piece
  | [] => []
  | c :: rest =>
    match if c == '"' || c == '\'' || c == '`' then closeLiteral c rest else none with
    | some (inside, after) =>
      if after.length ≤ rest.length then .literal (c :: inside ++ [c]) :: pieces after
      else [.code (c :: rest)]
    | none => Piece.consCode c (pieces rest)
termination_by chars => chars.length

/-- The new names of declared values. -/
abbrev Names := List (List Char × List Char)

def Names.get? (names : Names) (name : List Char) : Option (List Char) :=
  (names.find? fun entry => entry.1 == name).map Prod.snd

/-- Renames the values in code without literals. `before` is the character in front, if any. -/
def renameCode (names : Names) (before : Option Char) : List Char → List Char
  | [] => []
  | c :: rest =>
    if isNameChar c then
      let run := c :: rest.takeWhile isNameChar
      let isKey := (dropBlanks (rest.dropWhile isNameChar)).head? == some ':'
      let shown := if before == some '.' || isKey then run else (names.get? run).getD run
      shown ++ renameCode names run.getLast? (rest.dropWhile isNameChar)
    else c :: renameCode names (some c) rest
termination_by chars => chars.length
decreasing_by
  · exact Nat.lt_succ_of_le (List.dropWhile_suffix isNameChar).length_le
  · exact Nat.lt_succ_self _

def Piece.rename (names : Names) : Piece → List Char
  | .code chars => renameCode names none chars
  | .literal chars => chars

def renameValues (names : Names) (chars : List Char) : List Char :=
  (pieces chars).flatMap (Piece.rename names)

/-- The names of the values declared in a text; `lineStart` says that a line begins here. -/
def declaredValues (lineStart : Bool) : List Char → List (List Char)
  | [] => []
  | c :: rest =>
    match if lineStart then valueDeclaration? (c :: rest) else none with
    | some (name, tail) =>
      if tail.length ≤ rest.length then name :: declaredValues false tail else [name]
    | none => declaredValues (c == '\n') rest
termination_by chars => chars.length

def declaredTypes (chars : List Char) : List (List Char) :=
  (splitLines chars).filterMap fun line => (staticDeclaration? line.body).map Prod.fst

def Line.withoutFeed (line : Line) : List Char := line.body ++ line.ending.filter (· != '\n')

/-- The new names for a whole text: of its types and of those values whose name changes. -/
structure NewNames where
  types : Names
  values : Names

/-- Renames one line; `hidden` are the values hidden by type parameters. -/
def renameLine (names : NewNames) (hidden : List (List Char)) (line : Line) : List Char :=
  let values := names.values.filter fun entry => !hidden.contains entry.1
  match staticDeclaration? (Line.withoutFeed line) with
  | some (name, rest) =>
    let head := (Line.withoutFeed line).take
      ((Line.withoutFeed line).length - rest.length - name.length)
    let tail := line.chars.drop (head.length + name.length)
    head ++ (names.types.get? name).getD name ++ renameValues values tail
  | none => renameValues values line.chars

/-- The values hidden from a line on: a blank line ends a block, a declaration begins one. -/
def hiddenAt (hidden : List (List Char)) (line : Line) : List (List Char) :=
  let chars := Line.withoutFeed line
  if (trimChars chars).isEmpty then []
  else if (staticDeclaration? chars).isSome || (valueDeclaration? chars).isSome then
    lineParameters chars
  else hidden

/-- Renames the lines of a text, given the values hidden before the first one. -/
def renameLines (names : NewNames) (hidden : List (List Char)) : List Line → List Char
  | [] => []
  | line :: rest =>
    let hidden := hiddenAt hidden line
    renameLine names hidden line ++ renameLines names hidden rest

/-- The template that changes nothing. -/
def plainTemplate : String := "\x7bname\x7d"

def fillAll (template : String) (names : List (List Char)) : Except TemplateError Names :=
  names.mapM fun name => do
    return (name, (← fillTemplate template (String.ofList name)).toList)

/-- The new names that templates give to the declarations of a text, each declared name once. -/
def newNames (typeTemplate valueTemplate : String) (chars : List Char) :
    Except TemplateError NewNames := do
  let values ← fillAll valueTemplate (declaredValues true chars).eraseDups
  let types ← fillAll typeTemplate (declaredTypes chars).eraseDups
  return ⟨types, values.filter fun entry => entry.1 != entry.2⟩

/-- The imported names that a renamed value collides with, in order. -/
def collisions (names : NewNames) (chars : List Char) : List String :=
  match importLine? true chars with
  | none => []
  | some found =>
    let imported := (splitCommas found.names).map trimChars
    let hit := ((names.values.map Prod.snd).filter imported.contains).eraseDups
    (hit.map String.ofList).mergeSort fun a b => !(decide (b < a))

def applyNames (names : NewNames) (chars : List Char) : List Char :=
  renameLines names [] (splitLines chars)

end Schemata.Emitted

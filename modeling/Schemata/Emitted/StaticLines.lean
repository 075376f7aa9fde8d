import Schemata.Emitted.Pattern

/-!
# Code without static types

Only the values are wanted: the static type lines go, and with them the imports that nothing else
needs.
-/

namespace Schemata.Emitted

open Text

/-- The text without its static type lines, from the start of a line on. -/
def dropStaticLines (chars : List Char) : List Char :=
  match afterStaticLine? chars with
  | some rest => if rest.length < chars.length then dropStaticLines rest else chars
  | none =>
    let line := chars.takeWhile (· != '\n')
    let rest := chars.drop (line.length + 1)
    if rest.length < chars.length then chars.take (line.length + 1) ++ dropStaticLines rest
    else chars
termination_by chars.length

/-- Whether a word occurs in a text, with no word character on either side. -/
def containsWord (word : List Char) (inside : Bool) : List Char → Bool
  | [] => false
  | c :: rest =>
    (!inside && word.isPrefixOf (c :: rest) &&
      !(((c :: rest).drop word.length).head?.map isWord).getD false) ||
      containsWord word (isWord c) rest

/-- The imported names that are still needed next to the given text. -/
def neededImports (names : List (List Char)) (text : List Char) : List (List Char) :=
  let names := names.filter (· != "Static".toList)
  if containsWord "TSchema".toList false text then names else names.erase "TSchema".toList

def stripStatic (code : String) : String :=
  let chars := dropStaticLines code.toList
  match importLine? true chars with
  | none => String.ofList chars
  | some found =>
    let names := ((splitCommas found.names).map trimChars).filter (!·.isEmpty)
    let kept := neededImports names (found.before ++ found.rest)
    String.ofList (found.before ++ "import \x7b ".toList ++ ", ".toList.intercalate kept ++
      " \x7d from ".toList ++ found.source ++ found.rest)

end Schemata.Emitted

import Schemata.Json.Reader
import Schemata.Schema.Expr
import Schemata.Text.Blank
import Schemata.Text.Line
import Schemata.Text.Word

/-!
# Documentation tags

A documentation comment holds at most one tag a line: `@name`, or `@name` and a value. A value that
begins with a literal, alone or before a blank, is that literal; any other value is kept as text,
and no value means true. Tags after the first on a line are lost; their names can be listed.
-/

namespace Schemata.Doc

open Text

/-- Whether a comment documents what follows it. -/
def isDocComment (chars : List Char) : Bool :=
  "/**".toList.isPrefixOf chars && !"/**/".toList.isPrefixOf chars

/-- The text of a documentation comment between its delimiters. -/
def inner (chars : List Char) : List Char :=
  let body := chars.drop 3
  if "*/".toList.isSuffixOf body then body.dropLast.dropLast else body

/-- A line of a comment without its blanks and without a leading star. -/
def cleanLine (chars : List Char) : List Char :=
  match trimChars chars with
  | '*' :: rest => trimChars rest
  | line => line

def lines (chars : List Char) : List (List Char) :=
  (splitLines (inner chars)).map fun line => cleanLine line.body

/-- A tag of a comment: its name and its value, which may be empty. -/
structure Tag where
  name : List Char
  value : List Char
  deriving DecidableEq, Repr

/-- A name and what follows it. -/
def spanName (chars : List Char) : Option (List Char × List Char) :=
  match chars with
  | c :: rest =>
    if isNameStart c then some (c :: rest.takeWhile isNameChar, rest.dropWhile isNameChar)
    else none
  | [] => none

def tag? (line : List Char) : Option Tag :=
  match line with
  | '@' :: rest =>
    match spanName rest with
    | none => none
    | some (name, []) => some ⟨name, []⟩
    | some (name, c :: tail) => if isBlank c then some ⟨name, dropBlanks tail⟩ else none
  | _ => none

/-- A literal at the start of a value, as it is written. -/
inductive Lexeme where
  | double (chars : List Char)
  | single (inside : List Char)
  | number (chars : List Char)
  | word (value : Json)

/-- Splits off what stands before the closing quote, reading a backslash with the character after
it; a backslash before a line feed or at the end leaves the literal unclosed. -/
def untilQuote (quote : Char) : List Char → Option (List Char × List Char)
  | [] => none
  | '\\' :: rest =>
    match rest with
    | [] => none
    | d :: tail =>
      if d == '\n' then none
      else (untilQuote quote tail).map fun (inside, after) => ('\\' :: d :: inside, after)
  | c :: rest =>
    if c == quote then some ([], rest)
    else (untilQuote quote rest).map fun (inside, after) => (c :: inside, after)

def wholeDigits (chars : List Char) : List Char :=
  match chars with
  | '0' :: _ => ['0']
  | c :: rest => if '1' ≤ c && c ≤ '9' then c :: rest.takeWhile isDecimal else []
  | [] => []

/-- The point and the digits after it. -/
def placeDigits (chars : List Char) : List Char :=
  match chars with
  | '.' :: rest =>
    let digits := rest.takeWhile isDecimal
    if digits.isEmpty then [] else '.' :: digits
  | _ => []

def exponentDigits (chars : List Char) : List Char :=
  match chars with
  | e :: rest =>
    if e == 'e' || e == 'E' then
      let sign := match rest with
        | '+' :: _ => ['+']
        | '-' :: _ => ['-']
        | _ => []
      let digits := (rest.drop sign.length).takeWhile isDecimal
      if digits.isEmpty then [] else e :: (sign ++ digits)
    else []
  | [] => []

def numberChars (chars : List Char) : List Char :=
  let sign := match chars with
    | '-' :: _ => ['-']
    | _ => []
  let body := chars.drop sign.length
  let whole := wholeDigits body
  if whole.isEmpty then []
  else
    let places := placeDigits (body.drop whole.length)
    let exponent := exponentDigits (body.drop (whole.length + places.length))
    sign ++ whole ++ places ++ exponent

def literalWords : List (List Char × Json) :=
  [("true".toList, .bool true), ("false".toList, .bool false), ("null".toList, .null)]

/-- The literal at the start of a value and what follows it. -/
def lexeme? (chars : List Char) : Option (Lexeme × List Char) :=
  match chars with
  | '"' :: rest =>
    (untilQuote '"' rest).map fun (inside, after) => (.double ('"' :: inside ++ ['"']), after)
  | '\'' :: rest =>
    (untilQuote '\'' rest).map fun (inside, after) => (.single inside, after)
  | _ =>
    let number := numberChars chars
    if !number.isEmpty then some (.number number, chars.drop number.length)
    else
      (literalWords.find? fun (word, _) => word.isPrefixOf chars).map
        fun (word, value) => (.word value, chars.drop word.length)

/-- A single-quoted text without the backslashes before single quotes. -/
def unescapeSingle : List Char → List Char
  | '\\' :: '\'' :: rest => '\'' :: unescapeSingle rest
  | c :: rest => c :: unescapeSingle rest
  | [] => []

structure DigitLimit where
  count : Nat
  deriving DecidableEq, Repr

def DigitLimit.message (limit : DigitLimit) : String := Json.digitLimitMessage limit.count

def numberValue (chars : List Char) : Except DigitLimit Json :=
  let negative := chars.head? == some '-'
  let body := if negative then chars.drop 1 else chars
  let whole := wholeDigits body
  let places := placeDigits (body.drop whole.length)
  let exponent := exponentDigits (body.drop (whole.length + places.length))
  if places.isEmpty && exponent.isEmpty then
    if whole.length > Json.maxDigits then .error ⟨whole.length⟩
    else
      let value : Int := digitsValue whole
      .ok (.int (if negative then -value else value))
  else
    let digits := places.drop 1
    let power : Int := match exponent.drop 1 with
      | '-' :: ds => -(digitsValue ds : Int)
      | '+' :: ds => digitsValue ds
      | ds => digitsValue ds
    .ok (.float (.ofDecimal negative (digitsValue (whole ++ digits)) (power - digits.length)))

def tagValue (text : List Char) : Except DigitLimit OptionValue :=
  let chars := trimChars text
  let raw := OptionValue.raw (String.ofList chars)
  if chars.isEmpty then .ok (.literal (.bool true))
  else
    match lexeme? chars with
    | none => .ok raw
    | some (lexeme, after) =>
      if !(after.head?.map isBlank).getD true then .ok raw
      else
        match lexeme with
        | .double literal =>
          match Json.read (String.ofList literal) with
          | .ok value => .ok (.literal value)
          | .error _ => .ok raw
        | .single inside => .ok (.literal (.str (String.ofList (unescapeSingle inside))))
        | .number digits => (numberValue digits).map .literal
        | .word value => .ok (.literal value)

def tags (comment : String) : List Tag :=
  if isDocComment comment.toList then (lines comment.toList).filterMap tag? else []

/-- The schema options of a comment: a repeated name keeps its place and takes its last value. -/
def options (comment : String) : Except DigitLimit Options :=
  (tags comment).foldlM (fun entries tag => do
    return setEntry (String.ofList tag.name) (← tagValue tag.value) entries) []

/-- The names of the tags in a text, at its start or after a blank. -/
def inlineNames : Bool → List Char → List String
  | _, [] => []
  | boundary, c :: rest =>
    if boundary && c == '@' then
      match spanName rest with
      | some (name, _) => String.ofList name :: inlineNames false rest
      | none => inlineNames false rest
    else inlineNames (isBlank c) rest

/-- The names of the tags that stand after another one on its line, and so are lost. -/
def lostNames (comment : String) : List String :=
  ((tags comment).filter fun tag => !tag.value.isEmpty).flatMap fun tag =>
    let value := trimChars tag.value
    inlineNames true (((lexeme? value).map Prod.snd).getD value)

end Schemata.Doc

import Schemata.Text.Printable

/-!
# Quoted literals

The way messages show a text: between single quotes, or between double quotes when the text has a
single quote and no double one. Backslashes, the quote in use and unprintable characters are
escaped.
-/

namespace Schemata.Text

def hexDigit (n : Nat) : Char :=
  if n < 10 then Char.ofNat (48 + n) else Char.ofNat (87 + n)

/-- The last `width` hexadecimal digits of a number. -/
def hexDigits : Nat → Nat → List Char
  | 0, _ => []
  | width + 1, n => hexDigits width (n / 16) ++ [hexDigit (n % 16)]

def hexValue? (c : Char) : Option Nat :=
  if c.isDigit then some (c.toNat - 48)
  else if 'a' ≤ c && c ≤ 'f' then some (c.toNat - 87)
  else if 'A' ≤ c && c ≤ 'F' then some (c.toNat - 55)
  else none

/-- How one character is written between the given quotes. -/
def escapeInLiteral (quote : Char) (plainOnly : Bool) (c : Char) : List Char :=
  if c == quote || c == '\\' then ['\\', c]
  else if c == '\n' then ['\\', 'n']
  else if c == '\r' then ['\\', 'r']
  else if c == '\t' then ['\\', 't']
  else if isPrintable c && !(plainOnly && 128 ≤ c.toNat) then [c]
  else if c.toNat < 0x100 then '\\' :: 'x' :: hexDigits 2 c.toNat
  else if c.toNat < 0x10000 then '\\' :: 'u' :: hexDigits 4 c.toNat
  else '\\' :: 'U' :: hexDigits 8 c.toNat

/-- A text as a quoted literal; with `plainOnly` every character beyond the first 128 is escaped. -/
def quotedWith (plainOnly : Bool) (text : String) : String :=
  let chars := text.toList
  let quote := if chars.contains '\'' && !chars.contains '"' then '"' else '\''
  String.ofList (quote :: chars.flatMap (escapeInLiteral quote plainOnly) ++ [quote])

def quoted (text : String) : String := quotedWith false text

def quotedList (texts : List String) : String :=
  "[" ++ ", ".intercalate (texts.map quoted) ++ "]"

def unquoteChars (chars : List Char) : List Char :=
  match chars with
  | first :: second :: rest =>
    if (first == '"' || first == '\'' || first == '`') && (second :: rest).getLast? == some first
    then (second :: rest).dropLast
    else chars
  | _ => chars

/-- The text without one pair of equal quotes around it. -/
def unquote (text : String) : String := String.ofList (unquoteChars text.toList)

end Schemata.Text

import Schemata.Json.Basic

/-!
# Writing JSON

Strings escape the quote, the backslash and the controls; characters beyond the first 128 are kept
or written as units of sixteen bits, and half of a surrogate pair is written as its unit. Lists and
objects have a comma and a blank between entries and a colon and a blank after a key.
-/

namespace Schemata.Json

/-- A character as an escape of four hexadecimal digits, or two for characters beyond 16 bits. -/
def escapeUnits (c : Char) : List Char :=
  let n := c.toNat
  if n < 0x10000 then '\\' :: 'u' :: Text.hexDigits 4 n
  else
    '\\' :: 'u' :: Text.hexDigits 4 (0xD800 + (n - 0x10000) / 0x400) ++
      '\\' :: 'u' :: Text.hexDigits 4 (0xDC00 + (n - 0x10000) % 0x400)

def escapeChar (plainOnly : Bool) (c : Char) : List Char :=
  if c == '"' || c == '\\' then ['\\', c]
  else if c == '\n' then ['\\', 'n']
  else if c == '\r' then ['\\', 'r']
  else if c == '\t' then ['\\', 't']
  else if c.toNat == 8 then ['\\', 'b']
  else if c.toNat == 12 then ['\\', 'f']
  else if c.toNat < 32 || (plainOnly && 126 < c.toNat) then escapeUnits c
  else [c]

/-- A text as a JSON string; with `plainOnly` only printable characters of the first 128 stay. -/
def quote (plainOnly : Bool) (text : String) : String :=
  String.ofList ('"' :: text.toList.flatMap (escapeChar plainOnly) ++ ['"'])

/-- How one code point of a string is written. Half of a pair, which no text can hold, is always
written as its escape. -/
def escapePoint (plainOnly : Bool) (n : Nat) : List Char :=
  if Text.isSurrogate n then '\\' :: 'u' :: Text.hexDigits 4 n
  else escapeChar plainOnly (Char.ofNat n)

def quotePoints (plainOnly : Bool) (points : List Nat) : String :=
  String.ofList ('"' :: points.flatMap (escapePoint plainOnly) ++ ['"'])

mutual

def write (plainOnly : Bool) : Json → String
  | .null => "null"
  | .bool value => if value then "true" else "false"
  | .int value => toString value
  | .float value => value.literalText
  | .str value => quote plainOnly value
  | .broken points => quotePoints plainOnly points
  | .arr items => "[" ++ ", ".intercalate (writeItems plainOnly items) ++ "]"
  | .obj entries => "\x7b" ++ ", ".intercalate (writeEntries plainOnly entries) ++ "\x7d"

def writeItems (plainOnly : Bool) : List Json → List String
  | [] => []
  | item :: rest => write plainOnly item :: writeItems plainOnly rest

def writeEntries (plainOnly : Bool) : List (String × Json) → List String
  | [] => []
  | (key, value) :: rest =>
    (quote plainOnly key ++ ": " ++ write plainOnly value) :: writeEntries plainOnly rest

end

mutual

/-- A value as messages show it inside a list or an object. -/
def inspect : Json → String
  | .null => "None"
  | .bool value => if value then "True" else "False"
  | .int value => toString value
  | .float value => value.text
  | .str value => Text.quoted value
  | .broken points => Text.quotedPoints points
  | .arr items => "[" ++ ", ".intercalate (inspectItems items) ++ "]"
  | .obj entries => "\x7b" ++ ", ".intercalate (inspectEntries entries) ++ "\x7d"

def inspectItems : List Json → List String
  | [] => []
  | item :: rest => inspect item :: inspectItems rest

def inspectEntries : List (String × Json) → List String
  | [] => []
  | (key, value) :: rest => (Text.quoted key ++ ": " ++ inspect value) :: inspectEntries rest

end

/-- A value as plain text: strings stand for themselves. -/
def display : Json → String
  | .str value => value
  | .broken points => Text.shownText points
  | value => inspect value

end Schemata.Json

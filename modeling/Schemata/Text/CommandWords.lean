/-!
# Words of a command

A command is cut into words at blanks. Single quotes keep everything up to the next one; double
quotes keep everything but allow a backslash before a backslash or a double quote; elsewhere a
backslash keeps the next character.
-/

namespace Schemata.Text

inductive WordsError where
  | unclosedQuote
  | danglingEscape
  deriving DecidableEq, Repr

def WordsError.message : WordsError → String
  | .unclosedQuote => "No closing quotation"
  | .danglingEscape => "No escaped character"

/-- Where the reader of a command stands: between words, inside a word, inside quotes, or after a
backslash, outside or inside double quotes. -/
inductive WordState where
  | between
  | inside
  | quoted (quote : Char)
  | escaped
  | quotedEscaped
  deriving DecidableEq, Repr

def isWordSeparator (c : Char) : Bool := c == ' ' || c == '\t' || c == '\r' || c == '\n'

/-- Reads a command from the given state, with the word read so far in reverse. -/
def commandWordsFrom : WordState → List Char → List Char → Except WordsError (List String)
  | .between, _, [] => .ok []
  | .inside, word, [] => .ok [String.ofList word.reverse]
  | .quoted _, _, [] => .error .unclosedQuote
  | .escaped, _, [] => .error .danglingEscape
  | .quotedEscaped, _, [] => .error .danglingEscape
  | .between, _, c :: rest =>
    if isWordSeparator c then commandWordsFrom .between [] rest
    else if c == '\\' then commandWordsFrom .escaped [] rest
    else if c == '\'' || c == '"' then commandWordsFrom (.quoted c) [] rest
    else commandWordsFrom .inside [c] rest
  | .inside, word, c :: rest =>
    if isWordSeparator c then
      (commandWordsFrom .between [] rest).map (String.ofList word.reverse :: ·)
    else if c == '\\' then commandWordsFrom .escaped word rest
    else if c == '\'' || c == '"' then commandWordsFrom (.quoted c) word rest
    else commandWordsFrom .inside (c :: word) rest
  | .quoted quote, word, c :: rest =>
    if c == quote then commandWordsFrom .inside word rest
    else if c == '\\' && quote == '"' then commandWordsFrom .quotedEscaped word rest
    else commandWordsFrom (.quoted quote) (c :: word) rest
  | .escaped, word, c :: rest => commandWordsFrom .inside (c :: word) rest
  | .quotedEscaped, word, c :: rest =>
    if c == '\\' || c == '"' then commandWordsFrom (.quoted '"') (c :: word) rest
    else commandWordsFrom (.quoted '"') (c :: '\\' :: word) rest

def commandWords (command : String) : Except WordsError (List String) :=
  commandWordsFrom .between [] command.toList

end Schemata.Text

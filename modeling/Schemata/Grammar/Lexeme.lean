import Schemata.Tree.Outline

/-!
# Lexemes

The words, numbers and quoted texts of the grammar. A lexeme says how many characters it takes at
the front of a text, and nothing about the blanks and comments before it.
-/

namespace Schemata.Grammar

def isGap (c : Char) : Bool :=
  let n := c.toNat
  n == 32 || (9 ≤ n && n ≤ 13) || n == 0xA0 || n == 0x1680 || (0x2000 ≤ n && n ≤ 0x200B)
    || n == 0x2028 || n == 0x2029 || n == 0x202F || n == 0x205F || n == 0x2060 || n == 0x3000
    || n == 0xFEFF

def isSpace (c : Char) : Bool :=
  let n := c.toNat
  n == 32 || (9 ≤ n && n ≤ 13) || n == 0x1680 || (0x2000 ≤ n && n ≤ 0x2006)
    || (0x2008 ≤ n && n ≤ 0x200A) || n == 0x2028 || n == 0x2029 || n == 0x205F || n == 0x3000

def marks : List Char := ":;`\"'@#.,|^&<=>+-*/\\%?!~()[]\x7b\x7d".toList

def isNamePart (c : Char) : Bool := 32 ≤ c.toNat && !isGap c && !marks.contains c

def isNameStart (c : Char) : Bool := isNamePart c && !c.isDigit

def isHexDigit (c : Char) : Bool :=
  c.isDigit || ('a' ≤ c && c ≤ 'f') || ('A' ≤ c && c ≤ 'F')

/-- The length of the digits in front, where single underscores may stand between two digits. -/
def digitsLength (isDigit : Char → Bool) : List Char → Nat
  | [] => 0
  | '_' :: c :: rest => if isDigit c then 2 + digitsLength isDigit rest else 0
  | c :: rest => if isDigit c then 1 + digitsLength isDigit rest else 0

def runLength (isDigit : Char → Bool) (chars : List Char) : Nat :=
  match chars with
  | c :: _ => if isDigit c then digitsLength isDigit chars else 0
  | [] => 0

def exponentLength : List Char → Nat
  | mark :: rest =>
    if mark == 'e' || mark == 'E' then
      let signLength := match rest with
        | sign :: _ => if sign == '-' || sign == '+' then 1 else 0
        | [] => 0
      let digits := runLength Char.isDigit (rest.drop signLength)
      if digits == 0 then 0 else 1 + signLength + digits
    else 0
  | [] => 0

/-- The length of a number in the given base behind its two characters of mark. A closing `n` marks
an integer of any size. -/
def basedLength (isDigit : Char → Bool) (rest : List Char) : Option Nat :=
  match runLength isDigit rest with
  | 0 => none
  | count => some (2 + count + if (rest.drop count).head? == some 'n' then 1 else 0)

def decimalLength (chars : List Char) : Option Nat :=
  let whole := runLength Char.isDigit chars
  match chars.drop whole with
  | '.' :: rest =>
    let fraction := runLength Char.isDigit rest
    if whole == 0 && fraction == 0 then none
    else some (whole + 1 + fraction + exponentLength (rest.drop fraction))
  | rest =>
    if whole == 0 then none
    else if rest.head? == some 'n' then some (whole + 1)
    else some (whole + exponentLength rest)

def numberLength (chars : List Char) : Option Nat :=
  match chars with
  | '0' :: mark :: rest =>
    if mark == 'x' || mark == 'X' then basedLength isHexDigit rest
    else if mark == 'b' || mark == 'B' then basedLength (fun c => c == '0' || c == '1') rest
    else if mark == 'o' || mark == 'O' then basedLength (fun c => '0' ≤ c && c ≤ '7') rest
    else decimalLength chars
  | _ => decimalLength chars

inductive Escape where
  /-- Outside of any escape. -/
  | outside
  /-- Behind the backslash. -/
  | opened
  /-- Behind the `u` of a code point. -/
  | point
  /-- Before the given number of hexadecimal digits. -/
  | digits (left : Nat)
  /-- Between the braces of a code point. -/
  | braced (started : Bool)

namespace Escape

/-- The state behind one more character that does not close the text. -/
def next : Escape → Char → Option Escape
  | outside, c => some (if c == '\\' then opened else outside)
  | opened, c =>
    some (if c == 'x' then digits 2 else if c == 'u' then point else outside)
  | point, c =>
    if c == '\x7b' then some (braced false) else if isHexDigit c then some (digits 3) else none
  | digits left, c =>
    if isHexDigit c then some (if left ≤ 1 then outside else digits (left - 1)) else none
  | braced started, c =>
    if isHexDigit c then some (braced true)
    else if c == '\x7d' && started then some outside else none

/-- Whether the text may close here. -/
def isOutside : Escape → Bool
  | outside => true
  | _ => false

end Escape

/-- The length of a quoted text behind its opening quote, the closing quote included. A line ends
only behind a backslash. -/
def quotedLength (quote : Char) : Escape → List Char → Option Nat
  | _, [] => none
  | .opened, '\r' :: '\n' :: rest => (quotedLength quote .outside rest).map (· + 2)
  | escape, c :: rest =>
    if escape.isOutside && c == quote then some 1
    else if escape.isOutside && (c == '\n' || c == '\r') then none
    else (escape.next c).bind fun state => (quotedLength quote state rest).map (· + 1)

/-- The length of the text in front of the next substitution or closing mark of a template. -/
def templateLength : Escape → List Char → Option Nat
  | escape, [] => if escape.isOutside then some 0 else none
  | escape, [c] =>
    if escape.isOutside && c == '`' then some 0 else (escape.next c).map fun _ => 1
  | escape, c :: d :: rest =>
    if escape.isOutside && (c == '`' || (c == '$' && d == '\x7b')) then some 0
    else (escape.next c).bind fun state => (templateLength state (d :: rest)).map (· + 1)

/-- The length of the text in front of the next substitution, backslash or closing mark of a
template type. -/
def plainTemplateLength : List Char → Nat
  | [] => 0
  | [c] => if c == '`' || c == '\\' then 0 else 1
  | c :: d :: rest =>
    if c == '`' || c == '\\' || (c == '$' && d == '\x7b') then 0
    else 1 + plainTemplateLength (d :: rest)

/-- The length of a regular expression behind its opening slash, the closing one included. Inside
brackets a slash does not close. -/
def patternLength : (bracketed escaped : Bool) → List Char → Option Nat
  | _, _, [] => none
  | bracketed, escaped, c :: rest =>
    if c == '\n' || c == '\r' then none
    else if escaped then (patternLength bracketed false rest).map (· + 1)
    else if c == '\\' then (patternLength bracketed true rest).map (· + 1)
    else if c == '/' && !bracketed then some 1
    else if c == '[' then (patternLength true false rest).map (· + 1)
    else if c == ']' then (patternLength false false rest).map (· + 1)
    else (patternLength bracketed false rest).map (· + 1)

def nameLength : List Char → Nat
  | c :: rest => if isNameStart c then 1 + (rest.takeWhile isNamePart).length else 0
  | [] => 0

/-- The operators, a longer one before its beginnings. -/
def operators : List String :=
  [">>>=", "===", "!==", "**=", "<<=", ">>=", ">>>", "&&=", "||=", "??=", "=>", "==", "!=", "<=",
    ">=", "&&", "||", "??", "?.", "++", "--", "+=", "-=", "*=", "/=", "%=", "&=", "|=", "^=", "<<",
    ">>", "**", "+", "-", "*", "/", "%", "&", "|", "^", "<", ">", "=", "!", "~", "?"]

def operatorAt (chars : List Char) : Option String :=
  operators.find? fun operator => operator.toList.isPrefixOf chars

inductive Lexeme where
  /-- A fixed text, whatever follows it. -/
  | symbol (text : String)
  /-- A fixed word that is not part of a longer one. -/
  | word (text : String)
  /-- One of the given operators, and not part of a longer one. -/
  | operator (allowed : List String)
  /-- A name other than the reserved words. -/
  | name (reserved : List String)
  /-- A name behind a number sign. -/
  | privateName
  | number
  /-- A text in single or double quotes. -/
  | quoted
  /-- A regular expression with its flags. -/
  | pattern
  /-- The text of a template up to the next substitution. -/
  | templateText
  /-- The text of a template type up to the next substitution. -/
  | templateTypeText
  /-- The first line of a script. -/
  | scriptLine
  /-- A comment of the form that old browsers skip. -/
  | markupComment

namespace Lexeme

def length? (lexeme : Lexeme) (chars : List Char) : Option Nat :=
  match lexeme with
  | symbol text => if text.toList.isPrefixOf chars then some text.length else none
  | word text =>
    if text.toList.isPrefixOf chars && !(chars.drop text.length).head?.any isNamePart then
      some text.length
    else none
  | operator allowed =>
    (operatorAt chars).bind fun text => if allowed.contains text then some text.length else none
  | name reserved =>
    match nameLength chars with
    | 0 => none
    | count =>
      if reserved.contains (String.ofList (chars.take count)) then none else some count
  | privateName =>
    match chars with
    | '#' :: rest =>
      match nameLength rest with
      | 0 => none
      | count => some (count + 1)
    | _ => none
  | number => numberLength chars
  | quoted =>
    match chars with
    | quote :: rest =>
      if quote == '"' || quote == '\'' then (quotedLength quote .outside rest).map (· + 1)
      else none
    | [] => none
  | pattern =>
    match chars with
    | '/' :: rest =>
      (patternLength false false rest).map fun count =>
        1 + count + ((rest.drop count).takeWhile Char.isAlpha).length
    | _ => none
  | templateText =>
    match templateLength .outside chars with
    | none | some 0 => none
    | some count => some count
  | templateTypeText =>
    match plainTemplateLength chars with
    | 0 => none
    | count => some count
  | scriptLine =>
    match chars with
    | '#' :: '!' :: rest => some (2 + (rest.takeWhile (· != '\n')).length)
    | _ => none
  | markupComment =>
    if "<!--".toList.isPrefixOf chars || "-->".toList.isPrefixOf chars then
      some (chars.takeWhile (· != '\n')).length
    else none

/-- Whether the lexeme must follow what stands before it without a gap. -/
def isGlued : Lexeme → Bool
  | templateText | templateTypeText => true
  | _ => false

end Lexeme

end Schemata.Grammar

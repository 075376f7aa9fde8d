import Schemata.Text.Digit
import Schemata.Text.Literal

/-!
# Name templates

A template is a text with replacement fields between braces, and doubled braces for plain ones. The
one value it can refer to is the declared name, as a whole or by the position of a character, or the
class of the name and what that class is called; a field may ask for a quoted form and for
alignment, width and precision.
-/

namespace Schemata.Text

inductive TemplateError where
  /-- An opening brace at the very end. -/
  | loneOpen
  /-- A closing brace that neither closes a field nor is doubled. -/
  | loneClose
  | unclosedField
  | openInField
  | noConversion
  | textAfterConversion
  | unclosedSpec
  | unknownConversion (letter : Char)
  /-- A field by position, where only names are given. -/
  | positional
  | unknownName
  | unknownAttribute
  | emptyAttribute
  | unclosedIndex
  | textAfterIndex
  | indexNotNumber
  | indexOutOfRange
  | notSubscriptable
  | notFormattable
  | tooManyDigits
  | noPrecision
  | badSpec (spec : String)
  | unknownCode (letter : Char)
  | bothSeparators
  | separator (letter code : Char)
  | space
  | sign
  | negativeZero
  | alternate
  | padAfterSign
  | tooDeep
  deriving DecidableEq, Repr

/-- A letter as a message shows it: itself if it is printable and below the limit, or else by its
code. -/
def shownLetter (limit : Nat) (letter : Char) : String :=
  if 32 < letter.toNat && letter.toNat < limit then letter.toString
  else "\\x" ++ String.ofList (Nat.toDigits 16 letter.toNat)

/-- The wording of the failures that have one. -/
def TemplateError.message : TemplateError → String
  | .loneOpen => "Single '\x7b' encountered in format string"
  | .loneClose => "Single '\x7d' encountered in format string"
  | .unclosedField => "expected '\x7d' before end of string"
  | .openInField => "unexpected '\x7b' in field name"
  | .noConversion => "end of string while looking for conversion specifier"
  | .textAfterConversion => "expected ':' after conversion specifier"
  | .unclosedSpec => "unmatched '\x7b' in format spec"
  | .unknownConversion letter =>
    "Unknown conversion specifier " ++ shownLetter 127 letter
  | .positional | .unknownName | .unknownAttribute | .indexNotNumber | .indexOutOfRange => ""
  | .emptyAttribute => "Empty attribute in format string"
  | .notSubscriptable => "type 'str' is not subscriptable"
  | .notFormattable => "unsupported format string passed to type.__format__"
  | .unclosedIndex => "Missing ']' in format string"
  | .textAfterIndex => "Only '.' or '[' may follow ']' in format field specifier"
  | .tooManyDigits => "Too many decimal digits in format string"
  | .noPrecision => "Format specifier missing precision"
  | .badSpec spec => "Invalid format specifier '" ++ spec ++ "' for object of type 'str'"
  | .unknownCode letter =>
    "Unknown format code '" ++ shownLetter 128 letter ++ "' for object of type 'str'"
  | .bothSeparators => "Cannot specify both ',' and '_'."
  | .separator letter code =>
    "Cannot specify '" ++ letter.toString ++ "' with '" ++ shownLetter 128 code ++ "'."
  | .space => "Space not allowed in string format specifier"
  | .sign => "Sign not allowed in string format specifier"
  | .negativeZero => "Negative zero coercion (z) not allowed in string format specifier"
  | .alternate => "Alternate form (#) not allowed in string format specifier"
  | .padAfterSign => "'=' alignment not allowed in string format specifier"
  | .tooDeep => "Max string recursion exceeded"

namespace Template

private abbrev Result := Except TemplateError

/-- A replacement field: the reference, the conversion letter and the layout asked for. -/
structure Field where
  reference : List Char
  conversion : Option Char
  spec : List Char
  deriving DecidableEq, Repr

def scanReference : Bool → List Char → Result (List Char × Char × List Char)
  | _, [] => .error .unclosedField
  | true, c :: rest =>
    (scanReference (c != ']') rest).map fun (name, stop, tail) => (c :: name, stop, tail)
  | false, c :: rest =>
    if c == '{' then .error .openInField
    else if c == '}' || c == ':' || c == '!' then .ok ([], c, rest)
    else (scanReference (c == '[') rest).map fun (name, stop, tail) => (c :: name, stop, tail)

/-- Reads a layout up to the closing brace of its field; `depth` braces are open inside it. -/
def scanSpec : Nat → List Char → Result (List Char × List Char)
  | _, [] => .error .unclosedSpec
  | depth, c :: rest =>
    if c == '}' then
      match depth with
      | 0 => .ok ([], rest)
      | depth + 1 => (scanSpec depth rest).map fun (spec, tail) => (c :: spec, tail)
    else
      (scanSpec (if c == '{' then depth + 1 else depth) rest).map
        fun (spec, tail) => (c :: spec, tail)

/-- Reads a field after its opening brace. -/
def scanField (chars : List Char) : Result (Field × List Char) := do
  let (reference, stop, rest) ← scanReference false chars
  if stop == '}' then
    return (⟨reference, none, []⟩, rest)
  else if stop == ':' then
    let (spec, tail) ← scanSpec 0 rest
    return (⟨reference, none, spec⟩, tail)
  else
    match rest with
    | [] => .error .noConversion
    | [_] => .error .unclosedSpec
    | letter :: '}' :: tail => return (⟨reference, some letter, []⟩, tail)
    | letter :: ':' :: tail =>
      let (spec, tail) ← scanSpec 0 tail
      return (⟨reference, some letter, spec⟩, tail)
    | _ => .error .textAfterConversion

/-- A row of digits as a number, nothing if another character is among them. -/
def number? (chars : List Char) : Result (Option Nat) :=
  if chars.isEmpty || !chars.all isDecimal then .ok none
  else
    let value := digitsValue chars
    if value < 9223372036854775808 then .ok (some value) else .error .tooManyDigits

/-- What a reference can stand for: a text, or the class of all texts. -/
inductive Value where
  | text (chars : List Char)
  | textClass
  deriving DecidableEq, Repr

/-- The attributes with a text of their own. The others, the methods among them, have none. -/
def attribute? : Value → List Char → Option Value
  | .text _, name => if name == "__class__".toList then some .textClass else none
  | .textClass, name =>
    if name == "__name__".toList || name == "__qualname__".toList then some (.text "str".toList)
    else if name == "__module__".toList then some (.text "builtins".toList)
    else none

def item (value : Value) (position : Option Nat) : Result Value :=
  match value, position with
  | .textClass, _ => .error .notSubscriptable
  | .text _, none => .error .indexNotNumber
  | .text chars, some i =>
    match chars[i]? with
    | none => .error .indexOutOfRange
    | some c => .ok (.text [c])

/-- Follows the indices and attributes of a reference. -/
def follow : Nat → Value → List Char → Result Value
  | 0, value, _ => .ok value
  | _ + 1, value, [] => .ok value
  | fuel + 1, value, c :: rest =>
    if c == '.' then
      let name := rest.takeWhile fun c => c != '.' && c != '['
      if name.isEmpty then .error .emptyAttribute
      else
        match attribute? value name with
        | none => .error .unknownAttribute
        | some next => follow fuel next (rest.drop name.length)
    else if c == '[' then
      let index := rest.takeWhile (· != ']')
      match rest.drop index.length with
      | [] => .error .unclosedIndex
      | _ :: tail => do
        let position ← number? index
        if index.isEmpty then .error .emptyAttribute
        else follow fuel (← item value position) tail
    else .error .textAfterIndex

def resolve (name reference : List Char) : Result Value := do
  let first := reference.takeWhile fun c => c != '.' && c != '['
  if first.isEmpty || (← number? first).isSome then .error .positional
  else if first != ['n', 'a', 'm', 'e'] then .error .unknownName
  else follow reference.length (.text name) (reference.drop first.length)

def Value.shown : Value → List Char
  | .text chars => chars
  | .textClass => "<class 'str'>".toList

def convert (value : Value) : Option Char → Result Value
  | none => .ok value
  | some 's' => .ok (.text value.shown)
  | some 'r' => .ok (.text (match value with
    | .text chars => (quoted (String.ofList chars)).toList
    | .textClass => value.shown))
  | some 'a' => .ok (.text (match value with
    | .text chars => (quotedWith true (String.ofList chars)).toList
    | .textClass => value.shown))
  | some letter => .error (.unknownConversion letter)

private def isAlign (c : Char) : Bool := c == '<' || c == '>' || c == '=' || c == '^'

def alignment : List Char → Option Char × Option Char × List Char
  | fill :: align :: rest =>
    if isAlign align then (some fill, some align, rest)
    else if isAlign fill then (none, some fill, align :: rest)
    else (none, none, fill :: align :: rest)
  | [align] => if isAlign align then (none, some align, []) else (none, none, [align])
  | [] => (none, none, [])

/-- Takes one of the given characters off the front. -/
def optionalChar (allowed : List Char) : List Char → Option Char × List Char
  | c :: rest => if allowed.contains c then (some c, rest) else (none, c :: rest)
  | [] => (none, [])

def optionalNumber (chars : List Char) : Result (Option Nat × List Char) := do
  let digits := chars.takeWhile isDecimal
  return (← number? digits, chars.drop digits.length)

def layoutText (value spec : List Char) : Result (List Char) := do
  if spec.isEmpty then return value
  let (fill, align, rest) := alignment spec
  let (sign, rest) := optionalChar [' ', '+', '-'] rest
  let (negativeZero, rest) := optionalChar ['z'] rest
  let (alternate, rest) := optionalChar ['#'] rest
  let (zero, rest) := if fill.isSome then (none, rest) else optionalChar ['0'] rest
  let (width, rest) ← optionalNumber rest
  let (comma, rest) := optionalChar [','] rest
  let (underscore, rest) := optionalChar ['_'] rest
  if comma.isSome && underscore.isSome then .error .bothSeparators
  let (again, _) := optionalChar [','] rest
  if again.isSome && (comma.isSome || underscore.isSome) then .error .bothSeparators
  let (point, rest) := optionalChar ['.'] rest
  let (precision, rest) ← if point.isSome then optionalNumber rest else pure (none, rest)
  if point.isSome && precision.isNone then .error .noPrecision
  if rest.length > 1 then .error (.badSpec (String.ofList spec))
  let code := rest.head?.getD 's'
  match comma.or underscore with
  | some letter =>
    if !("defgEG%F".toList.contains code) then .error (.separator letter code)
  | none => pure ()
  if code != 's' then .error (.unknownCode code)
  match sign with
  | some ' ' => .error .space
  | some _ => .error .sign
  | none => pure ()
  if negativeZero.isSome then .error .negativeZero
  if alternate.isSome then .error .alternate
  if align == some '=' then .error .padAfterSign
  let shown := match precision with
    | some n => value.take n
    | none => value
  let pad := width.getD 0 - shown.length
  let left := match align with
    | some '>' => pad
    | some '^' => pad / 2
    | _ => 0
  let filler := fill.getD (if zero.isSome then '0' else ' ')
  return List.replicate left filler ++ shown ++ List.replicate (pad - left) filler

/-- Lays a value out as asked for; a class takes no layout. -/
def layout : Value → List Char → Result (List Char)
  | .text chars, spec => layoutText chars spec
  | .textClass, spec =>
    if spec.isEmpty then .ok Value.textClass.shown else .error .notFormattable

/-- Fills a template in; layouts may hold fields themselves, `depth` levels deep. -/
def fill (name : List Char) : Nat → Nat → List Char → Result (List Char)
  | _, 0, _ => .error .tooDeep
  | 0, _ + 1, _ => .ok []
  | _ + 1, _ + 1, [] => .ok []
  | fuel + 1, depth + 1, c :: rest =>
    if c == '{' then
      match rest with
      | [] => .error .loneOpen
      | d :: tail =>
        if d == '{' then (fill name fuel (depth + 1) tail).map ('{' :: ·)
        else do
          let (field, tail) ← scanField (d :: tail)
          let value ← resolve name field.reference
          let shown ← convert value field.conversion
          let spec ← if field.spec.contains '{' then fill name fuel depth field.spec
            else pure field.spec
          let text ← layout shown spec
          return text ++ (← fill name fuel (depth + 1) tail)
    else if c == '}' then
      match rest with
      | '}' :: tail => (fill name fuel (depth + 1) tail).map ('}' :: ·)
      | _ => .error .loneClose
    else (fill name fuel (depth + 1) rest).map (c :: ·)

end Template

def fillTemplate (template name : String) : Except TemplateError String :=
  (Template.fill name.toList (template.toList.length + 1) 2 template.toList).map String.ofList

end Schemata.Text

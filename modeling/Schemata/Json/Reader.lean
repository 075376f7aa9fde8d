import Schemata.Json.Basic
import Schemata.Text.Digit

/-!
# Reading JSON

Documents are read strictly, with three additions: the words for infinities and for the missing
number. Strings are read as code points, for an escape may stand for half of a surrogate pair; the
keys of objects are taken as they are shown. A failure names what was expected and where, as a line,
a column and a count of characters.
-/

namespace Schemata.Json

inductive ReadCause where
  | value
  | propertyName
  | colon
  | comma
  | extraData
  | unterminatedString
  | controlCharacter
  | escape
  | unicodeEscape
  | byteOrderMark
  deriving DecidableEq, Repr

def ReadCause.message : ReadCause → String
  | .value => "Expecting value"
  | .propertyName => "Expecting property name enclosed in double quotes"
  | .colon => "Expecting ':' delimiter"
  | .comma => "Expecting ',' delimiter"
  | .extraData => "Extra data"
  | .unterminatedString => "Unterminated string starting at"
  | .controlCharacter => "Invalid control character at"
  | .escape => "Invalid \\escape"
  | .unicodeEscape => "Invalid \\uXXXX escape"
  | .byteOrderMark => "Unexpected UTF-8 BOM (decode using utf-8-sig)"

inductive ReadError where
  | expected (cause : ReadCause) (position : Nat)
  /-- A whole number with too many digits. -/
  | tooManyDigits (count : Nat)
  deriving DecidableEq, Repr

/-- The most digits a whole number may have. -/
def maxDigits : Nat := 4300

def digitLimitMessage (count : Nat) : String :=
  "Exceeds the limit (" ++ toString maxDigits ++
    " digits) for integer string conversion: value has " ++ toString count ++
    " digits; use sys.set_int_max_str_digits() to increase the limit"

def ReadError.message (document : List Char) : ReadError → String
  | .tooManyDigits count => digitLimitMessage count
  | .expected cause position =>
    let before := document.take position
    let line := before.count '\n' + 1
    let column := (before.reverse.takeWhile (· != '\n')).length + 1
    cause.message ++ ": line " ++ toString line ++ " column " ++ toString column ++
      " (char " ++ toString position ++ ")"

private abbrev Result := Except ReadError

/-- A place in a document: how many characters were read and those that follow. -/
structure Place where
  position : Nat
  rest : List Char

/-- The place after `n` more characters. -/
def Place.skip (place : Place) (n : Nat) : Place :=
  ⟨place.position + n, place.rest.drop n⟩

private def isJsonBlank (c : Char) : Bool := c == ' ' || c == '\t' || c == '\n' || c == '\r'

def Place.skipBlanks (place : Place) : Place :=
  place.skip (place.rest.takeWhile isJsonBlank).length

private def fail {α : Type} (cause : ReadCause) (place : Place) : Result α :=
  .error (.expected cause place.position)

/-- The value of four hexadecimal digits. -/
def units? (digits : List Char) : Option Nat :=
  if digits.length == 4 then
    digits.foldl (fun acc c => do return 16 * (← acc) + (← Text.hexValue? c)) (some 0)
  else none

def simpleEscape? (c : Char) : Option Char :=
  match c with
  | '"' => some '"'
  | '\\' => some '\\'
  | '/' => some '/'
  | 'b' => some (Char.ofNat 8)
  | 'f' => some (Char.ofNat 12)
  | 'n' => some '\n'
  | 'r' => some '\r'
  | 't' => some '\t'
  | _ => none

/-- The low half of a pair of units, if it follows. -/
def lowUnit? : List Char → Option Nat
  | '\\' :: 'u' :: rest =>
    match units? (rest.take 4) with
    | some low => if 0xDC00 ≤ low && low ≤ 0xDFFF && !(rest.drop 4).isEmpty then some low else none
    | none => none
  | _ => none

/-- Reads the code points of a string after its opening quote, which stands at `start`. -/
def readString (start : Nat) : Nat → Place → Result (List Nat × Place)
  | 0, place => fail .unterminatedString { place with position := start }
  | fuel + 1, place =>
    match place.rest with
    | [] => .error (.expected .unterminatedString start)
    | '"' :: _ => .ok ([], place.skip 1)
    | ['\\'] => .error (.expected .unterminatedString start)
    | '\\' :: 'u' :: rest =>
      if (rest.drop 4).isEmpty then fail .unicodeEscape (place.skip 1)
      else
        match units? (rest.take 4) with
        | none => fail .unicodeEscape (place.skip 1)
        | some high =>
          match if 0xD800 ≤ high && high ≤ 0xDBFF then lowUnit? (rest.drop 4) else none with
          | some low => do
            let (points, stop) ← readString start fuel (place.skip 12)
            let code := 0x10000 + (high - 0xD800) * 0x400 + (low - 0xDC00)
            return (code :: points, stop)
          | none => do
            let (points, stop) ← readString start fuel (place.skip 6)
            return (high :: points, stop)
    | '\\' :: c :: _ =>
      match simpleEscape? c with
      | none => fail .escape place
      | some d => do
        let (points, stop) ← readString start fuel (place.skip 2)
        return (d.toNat :: points, stop)
    | c :: _ =>
      if c.toNat < 32 then fail .controlCharacter place
      else do
        let (points, stop) ← readString start fuel (place.skip 1)
        return (c.toNat :: points, stop)

/-- Reads the places after a point, if there are any. -/
private def fraction (chars : List Char) : List Char :=
  match chars with
  | '.' :: rest => rest.takeWhile Char.isDigit
  | _ => []

/-- Reads the exponent of a number: the length of its text and its value. -/
private def exponent (chars : List Char) : Nat × Int :=
  match chars with
  | e :: rest =>
    if e == 'e' || e == 'E' then
      let (sign, body) : Nat × List Char := match rest with
        | '+' :: body | '-' :: body => (1, body)
        | body => (0, body)
      let digits := body.takeWhile Char.isDigit
      if digits.isEmpty then (0, 0)
      else
        let value : Int := Text.digitsValue digits
        (1 + sign + digits.length, if rest.head? == some '-' then -value else value)
    else (0, 0)
  | [] => (0, 0)

/-- Reads a number; `place` is where the value was expected. -/
def readNumber (place : Place) : Result (Json × Place) :=
  let negative := place.rest.head? == some '-'
  let body := if negative then place.rest.drop 1 else place.rest
  let whole := match body with
    | '0' :: _ => ['0']
    | _ => body.takeWhile Char.isDigit
  if whole.isEmpty then fail .value place
  else
    let afterWhole := body.drop whole.length
    let places := fraction afterWhole
    let pointLength := if places.isEmpty then 0 else places.length + 1
    let (exponentLength, power) := exponent (afterWhole.drop pointLength)
    let length := (if negative then 1 else 0) + whole.length + pointLength + exponentLength
    let stop := place.skip length
    if pointLength == 0 && exponentLength == 0 then
      if whole.length > maxDigits then .error (.tooManyDigits whole.length)
      else
        let value : Int := Text.digitsValue whole
        .ok (.int (if negative then -value else value), stop)
    else
      let digits := Text.digitsValue (whole ++ places)
      .ok (.float (.ofDecimal negative digits (power - places.length)), stop)

def wordValues : List (List Char × Json) :=
  [("null".toList, .null), ("true".toList, .bool true), ("false".toList, .bool false),
    ("NaN".toList, .float .nan), ("Infinity".toList, .float (.infinite false)),
    ("-Infinity".toList, .float (.infinite true))]

mutual

def readValue : Nat → Place → Result (Json × Place)
  | 0, place => fail .value place
  | fuel + 1, place =>
    match place.rest with
    | '"' :: _ => do
      let (points, stop) ← readString place.position fuel (place.skip 1)
      return (ofPoints points, stop)
    | '{' :: _ =>
      let inner := (place.skip 1).skipBlanks
      match inner.rest with
      | '}' :: _ => .ok (.obj [], inner.skip 1)
      | _ => do
        let (entries, stop) ← readEntries fuel inner
        return (.obj (entriesOf entries), stop)
    | '[' :: _ =>
      let inner := (place.skip 1).skipBlanks
      match inner.rest with
      | ']' :: _ => .ok (.arr [], inner.skip 1)
      | _ => do
        let (items, stop) ← readItems fuel inner
        return (.arr items, stop)
    | _ =>
      match wordValues.find? fun (word, _) => word.isPrefixOf place.rest with
      | some (word, value) => .ok (value, place.skip word.length)
      | none => readNumber place

def readItems : Nat → Place → Result (List Json × Place)
  | 0, place => fail .value place
  | fuel + 1, place => do
    let (item, stop) ← readValue fuel place
    let next := stop.skipBlanks
    match next.rest with
    | ']' :: _ => return ([item], next.skip 1)
    | ',' :: _ =>
      let (items, stop) ← readItems fuel (next.skip 1).skipBlanks
      return (item :: items, stop)
    | _ => fail .comma next

def readEntries : Nat → Place → Result (List (String × Json) × Place)
  | 0, place => fail .value place
  | fuel + 1, place =>
    match place.rest with
    | '"' :: _ => do
      let (key, stop) ← readString place.position fuel (place.skip 1)
      let next := stop.skipBlanks
      match next.rest with
      | ':' :: _ =>
        let (value, stop) ← readValue fuel (next.skip 1).skipBlanks
        let entry := (Text.shownText key, value)
        let next := stop.skipBlanks
        match next.rest with
        | '}' :: _ => return ([entry], next.skip 1)
        | ',' :: _ =>
          let (entries, stop) ← readEntries fuel (next.skip 1).skipBlanks
          return (entry :: entries, stop)
        | _ => fail .comma next
      | _ => fail .colon next
    | _ => fail .propertyName place

end

def read (document : String) : Except ReadError Json :=
  let chars := document.toList
  if chars.head? == some (Char.ofNat 0xFEFF) then .error (.expected .byteOrderMark 0)
  else do
    let (value, stop) ← readValue (2 * chars.length + 2) (Place.mk 0 chars).skipBlanks
    let stop := stop.skipBlanks
    if stop.rest.isEmpty then return value else .error (.expected .extraData stop.position)

end Schemata.Json

/-!
# Lines of a text

A line ends at a line feed, a carriage return (alone or before a line feed), a tabulation or form
feed, an information separator, a next-line mark or a line or paragraph separator. Splitting loses
nothing: the lines with their endings give back the text.
-/

namespace Schemata.Text

def isLineBreak (c : Char) : Bool :=
  let n := c.toNat
  (10 ≤ n && n ≤ 13) || (28 ≤ n && n ≤ 30) || n == 0x85 || n == 0x2028 || n == 0x2029

/-- One line: its characters and the line boundary after it, which is empty at the end of a text. -/
structure Line where
  body : List Char
  ending : List Char
  deriving DecidableEq, Repr

def Line.chars (line : Line) : List Char := line.body ++ line.ending

def Line.cons (c : Char) (line : Line) : Line := { line with body := c :: line.body }

@[simp] theorem Line.chars_cons (c : Char) (line : Line) :
    (Line.cons c line).chars = c :: line.chars := rfl

def splitLines : List Char → List Line
  | [] => []
  | '\r' :: '\n' :: rest => ⟨[], ['\r', '\n']⟩ :: splitLines rest
  | c :: rest =>
    if isLineBreak c then ⟨[], [c]⟩ :: splitLines rest
    else
      match splitLines rest with
      | [] => [⟨[c], []⟩]
      | line :: lines => line.cons c :: lines

theorem flatMap_chars_splitLines (chars : List Char) :
    (splitLines chars).flatMap Line.chars = chars := by
  fun_induction splitLines chars with
  | case1 => rfl
  | case2 rest ih => simp [Line.chars, ih]
  | case3 c rest _ hbreak ih => simp [Line.chars, ih]
  | case4 c rest _ hbreak hnil ih => simp_all [Line.chars]
  | case5 c rest _ hbreak line lines hcons ih =>
    rw [hcons] at ih
    simpa using ih

def lineTexts (text : String) : List String :=
  (splitLines text.toList).map fun line => String.ofList line.body

def join (separator : String) (parts : List String) : String :=
  separator.intercalate parts

end Schemata.Text

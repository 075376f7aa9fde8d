/-!
# Blank characters

The blanks are the white space characters of all scripts together with the four information
separators.
-/

namespace Schemata.Text

/-- White space of any kind. -/
def isBlank (c : Char) : Bool :=
  let n := c.toNat
  n == 32 || (9 ≤ n && n ≤ 13) || (28 ≤ n && n ≤ 31) || n == 0x85 || n == 0xA0 || n == 0x1680
    || (0x2000 ≤ n && n ≤ 0x200A) || n == 0x2028 || n == 0x2029 || n == 0x202F || n == 0x205F
    || n == 0x3000

def dropBlanks (chars : List Char) : List Char := chars.dropWhile isBlank

def trimChars (chars : List Char) : List Char :=
  (dropBlanks (dropBlanks chars).reverse).reverse

/-- The text without the blanks at either end. -/
def trim (text : String) : String := String.ofList (trimChars text.toList)

end Schemata.Text

import Schemata.Text.Literal

/-!
# Lone surrogates

A string of units of sixteen bits may hold one half of a pair without the other. It is no text then,
and no encoding takes it: what is known of it are its code points. Between quotes each half is
written as its escape; where the string itself has to be shown, a mark stands in its place.
-/

namespace Schemata.Text

/-- Whether a code point is one half of a pair. -/
def isSurrogate (n : Nat) : Bool := 0xD800 ≤ n && n ≤ 0xDFFF

/-- Whether some code points are those of a string that is no text. -/
def holdsHalf (points : List Nat) : Bool :=
  points.any isSurrogate && points.all fun n => n < 0x110000

theorem lt_of_holdsHalf {points : List Nat} (h : holdsHalf points = true) :
    ∀ n ∈ points, n < 0x110000 := by
  rw [holdsHalf, Bool.and_eq_true] at h
  simpa using h.2

/-- The text of some code points, with a mark for each half of a pair. -/
def markedText (mark : Char) (points : List Nat) : String :=
  String.ofList (points.map fun n => if isSurrogate n then mark else Char.ofNat n)

def shownText (points : List Nat) : String := markedText (Char.ofNat 0xFFFD) points

theorem not_isSurrogate_toNat (c : Char) : isSurrogate c.toNat = false := by
  have hvalid : c.toNat < 0xD800 ∨ 0xDFFF < c.toNat ∧ c.toNat < 0x110000 := c.valid
  simp only [isSurrogate, Bool.and_eq_false_iff, decide_eq_false_iff_not]
  omega

/-- A code point that is no half of a pair is the number of a character. -/
theorem toNat_ofNat {n : Nat} (h : n < 0x110000) (hwhole : isSurrogate n = false) :
    (Char.ofNat n).toNat = n := by
  have hvalid : n.isValidChar := by
    simp only [isSurrogate, Bool.and_eq_false_iff, decide_eq_false_iff_not] at hwhole
    rw [Nat.isValidChar]
    omega
  rw [Char.ofNat, dif_pos hvalid]
  rfl

/-- How one code point is written between the given quotes. -/
def escapePointInLiteral (quote : Char) (n : Nat) : List Char :=
  if isSurrogate n then '\\' :: 'u' :: hexDigits 4 n
  else escapeInLiteral quote false (Char.ofNat n)

def quotedPoints (points : List Nat) : String :=
  let quote := if points.contains ('\''.toNat) && !points.contains ('"'.toNat) then '"' else '\''
  String.ofList (quote :: points.flatMap (escapePointInLiteral quote) ++ [quote])

end Schemata.Text

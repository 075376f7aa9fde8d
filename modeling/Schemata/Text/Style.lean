/-!
# Terminal styles

Colours and other styles of a terminal are asked for by sequences that start with an escape and an
opening bracket, go on with parameters and end with a letter. A text that is not printed to a
terminal loses them.
-/

namespace Schemata.Text

/-- A character between the bracket and the letter of a style. -/
def isStyleParameter (c : Char) : Bool := c == ';' || c == '?' || c.isDigit

/-- What follows a style at the start of a text, if there is one. -/
def afterStyle? : List Char → Option (List Char)
  | '\x1b' :: '[' :: rest =>
    match rest.dropWhile isStyleParameter with
    | c :: after => if c.isAlpha then some after else none
    | [] => none
  | _ => none

theorem length_afterStyle? {chars after : List Char} (h : afterStyle? chars = some after) :
    after.length < chars.length := by
  unfold afterStyle? at h
  split at h
  · rename_i rest
    have hdrop := (List.dropWhile_sublist isStyleParameter (l := rest)).length_le
    split at h
    · rename_i c tail htail
      split at h
      · cases h
        rw [htail, List.length_cons] at hdrop
        simp only [List.length_cons]
        omega
      · cases h
    · cases h
  · cases h

def dropStyles (chars : List Char) : List Char :=
  match _ : afterStyle? chars with
  | some after => dropStyles after
  | none =>
    match chars with
    | [] => []
    | c :: rest => c :: dropStyles rest
termination_by chars.length
decreasing_by
  · exact length_afterStyle? (by assumption)
  · simp

def unstyled (text : String) : String := String.ofList (dropStyles text.toList)

theorem mem_of_afterStyle? {chars after : List Char} (h : afterStyle? chars = some after) :
    '\x1b' ∈ chars := by
  unfold afterStyle? at h
  split at h
  · exact List.mem_cons_self
  · cases h

theorem dropStyles_eq_self {chars : List Char} (h : '\x1b' ∉ chars) : dropStyles chars = chars := by
  fun_induction dropStyles chars with
  | case1 chars after hstyle => exact absurd (mem_of_afterStyle? hstyle) h
  | case2 => rfl
  | case3 c rest hstyle ih =>
    rw [List.mem_cons, not_or] at h
    rw [ih h.2]

theorem unstyled_eq_self {text : String} (h : '\x1b' ∉ text.toList) : unstyled text = text := by
  rw [unstyled, dropStyles_eq_self h, String.ofList_toList]

-- any other text loses its styles
example : unstyled "'\x1b[1;31mred\x1b[m'" = "'red'" := by decide +kernel

end Schemata.Text

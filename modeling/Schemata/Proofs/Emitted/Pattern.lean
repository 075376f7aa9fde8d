import Schemata.Emitted.Pattern
import Schemata.Proofs.Schema.Folding

/-!
# Reading lines of emitted code

What the readers of single lines find on the lines that the renderer writes: the keyword and the
name on the first line of a declaration, and no keyword on a line that continues an expression.
-/

namespace Schemata.Emitted

open Text

theorem after?_eq_some_iff {word : String} {chars rest : List Char} :
    after? word chars = some rest ↔ chars = word.toList ++ rest := by
  rw [after?]
  constructor
  · intro h
    split at h
    · rename_i hprefix
      obtain ⟨tail, rfl⟩ := List.isPrefixOf_iff_prefix.1 hprefix
      simpa using h
    · cases h
  · rintro rfl
    simp

theorem afterBlanks?_eq_some {chars rest : List Char} (h : afterBlanks? chars = some rest) :
    ∃ c tail, chars = c :: tail ∧ isBlank c = true := by
  cases chars with
  | nil => cases h
  | cons c tail =>
    rw [afterBlanks?] at h
    split at h
    · rename_i hblank
      exact ⟨c, tail, rfl, hblank⟩
    · cases h

/-- The beginning of a continuation line is no keyword with a blank behind it. -/
theorem after?_opening {word : String} (hword : IsName word.toList) {opening : List Char}
    (hopening : Opening opening) (tail : List Char) :
    (after? word (opening ++ tail)).bind afterBlanks? = none := by
  cases hread : (after? word (opening ++ tail)).bind afterBlanks? with
  | none => rfl
  | some rest =>
    exfalso
    obtain ⟨found, hfound, hblanks⟩ := Option.bind_eq_some_iff.1 hread
    obtain ⟨blank, more, rfl, hblank⟩ := afterBlanks?_eq_some hblanks
    have hchars := after?_eq_some_iff.1 hfound
    have hname := isNameChar_eq_false_of_isBlank hblank
    have hdrop : (opening ++ tail).dropWhile isNameChar = blank :: more := by
      rw [hchars, List.dropWhile_append_of_pos hword.2, List.dropWhile_cons, hname]
      rfl
    -- neither a brace nor a quote begins a keyword, and after a key there is a colon
    have hfirst : ∀ c, isNameChar c = false → opening = [c] → False := by
      rintro c hc rfl
      obtain ⟨w, ws, hw⟩ := List.exists_cons_of_ne_nil hword.1
      rw [hw] at hchars
      have hcw : c = w := (List.cons.inj hchars).1
      have := hword.2 w (by simp [hw])
      rw [← hcw, hc] at this
      cases this
    cases hopening with
    | brace => exact hfirst '}' (by decide) rfl
    | @quote c hquote =>
      refine hfirst c ?_ rfl
      simp only [isQuote, Bool.or_eq_true, beq_iff_eq] at hquote
      rcases hquote with (rfl | rfl) | rfl <;> decide
    | @key name hkey =>
      rw [List.append_assoc, List.dropWhile_append_of_pos hkey.2] at hdrop
      have hcolon : ':' = blank := (List.cons.inj hdrop).1
      rw [← hcolon] at hblank
      exact absurd hblank (by decide)

theorem head_opening {opening : List Char} (h : Opening opening) :
    ∃ c rest, opening = c :: rest ∧ isBlank c = false := by
  cases h with
  | brace => exact ⟨'}', [], rfl, by decide⟩
  | @quote c hquote =>
    refine ⟨c, [], rfl, ?_⟩
    simp only [isQuote, Bool.or_eq_true, beq_iff_eq] at hquote
    rcases hquote with (rfl | rfl) | rfl <;> decide
  | @key name hname =>
    obtain ⟨c, rest, rfl⟩ := List.exists_cons_of_ne_nil hname.1
    exact ⟨c, rest ++ [':'], rfl, isBlank_eq_false_of_isNameChar (hname.2 c (by simp))⟩

@[simp] theorem afterKeyword?_blank (keyword : String) (chars : List Char) :
    afterKeyword? keyword (' ' :: chars) = afterKeyword? keyword chars := by
  simp [afterKeyword?]

/-- A line that continues an expression begins no declaration. -/
theorem afterKeyword?_of_continues {keyword : String} (hkeyword : IsName keyword.toList)
    {chars : List Char} (h : Continues chars) : afterKeyword? keyword chars = none := by
  obtain ⟨blanks, opening, hopening, tail, rfl⟩ := h
  induction blanks with
  | succ blanks ih => simpa [List.replicate_succ] using ih
  | zero =>
    obtain ⟨c, rest, hhead, hblank⟩ := head_opening hopening
    have hstart :
        ((opening ++ tail).dropWhile fun c => c == ' ' || c == '\t') = opening ++ tail := by
      rw [hhead, List.cons_append, List.dropWhile_cons_of_neg]
      intro hspace
      rw [Bool.or_eq_true, beq_iff_eq, beq_iff_eq] at hspace
      rcases hspace with rfl | rfl <;> exact absurd hblank (by decide)
    have hexport : skipExport (opening ++ tail) = opening ++ tail := by
      rw [skipExport, after?_opening (by decide) hopening]
    rw [List.replicate_zero, List.nil_append, afterKeyword?, hstart, hexport,
      after?_opening hkeyword hopening]

theorem takeWhile_isNameChar {name rest : List Char} (hname : ∀ c ∈ name, isNameChar c = true)
    (hrest : ∀ c ∈ rest.head?, isNameChar c = false) :
    (name ++ rest).takeWhile isNameChar = name := by
  rw [List.takeWhile_append_of_pos hname]
  cases rest with
  | nil => simp
  | cons c rest => simp [hrest c (by simp)]

theorem dropWhile_isNameChar {name rest : List Char} (hname : ∀ c ∈ name, isNameChar c = true)
    (hrest : ∀ c ∈ rest.head?, isNameChar c = false) :
    (name ++ rest).dropWhile isNameChar = rest := by
  rw [List.dropWhile_append_of_pos hname]
  cases rest with
  | nil => rfl
  | cons c rest => simp [hrest c (by simp)]

/-- A name with something behind it that belongs to no name. -/
theorem spanName?_append {name rest : List Char} (hname : IsName name)
    (hrest : ∀ c ∈ rest.head?, isNameChar c = false) :
    spanName? (name ++ rest) = some (name, rest) := by
  have hempty : name.isEmpty = false := by simpa using hname.1
  rw [spanName?, takeWhile_isNameChar hname.2 hrest, dropWhile_isNameChar hname.2 hrest, hempty]
  rfl

theorem dropBlanks_name {name : List Char} (hname : IsName name) (rest : List Char) :
    dropBlanks (name ++ rest) = name ++ rest := by
  obtain ⟨c, more, rfl⟩ := List.exists_cons_of_ne_nil hname.1
  have hblank := isBlank_eq_false_of_isNameChar (hname.2 c (by simp))
  rw [dropBlanks, List.cons_append, List.dropWhile_cons, hblank]
  rfl

/-- What stands on a line that begins with a keyword, after the export mark if there is one. -/
def keywordLine (exported : Bool) (keyword : String) (rest : List Char) : List Char :=
  (exportWord exported).toList ++ (keyword.toList ++ ' ' :: rest)

theorem keywordLine_append (exported : Bool) (keyword : String) (rest more : List Char) :
    keywordLine exported keyword rest ++ more = keywordLine exported keyword (rest ++ more) := by
  simp [keywordLine]

theorem afterKeyword?_type (exported : Bool) (rest : List Char) :
    afterKeyword? "type" (keywordLine exported "type" rest) = some (dropBlanks rest) := by
  cases exported <;> rfl

theorem afterKeyword?_const (exported : Bool) (rest : List Char) :
    afterKeyword? "const" (keywordLine exported "const" rest) = some (dropBlanks rest) := by
  cases exported <;> rfl

theorem afterKeyword?_type_keywordLine {keyword : String}
    (h : keyword ∈ ["const", "enum", "namespace", "module"]) (exported : Bool) (rest : List Char) :
    afterKeyword? "type" (keywordLine exported keyword rest) = none := by
  simp only [List.mem_cons, List.not_mem_nil, or_false] at h
  rcases h with rfl | rfl | rfl | rfl <;> cases exported <;> rfl

end Schemata.Emitted

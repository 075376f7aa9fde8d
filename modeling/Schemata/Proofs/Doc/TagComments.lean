import Schemata.Proofs.Doc.Literals
import Schemata.Proofs.Mapping

/-!
# Options written as tags

Options can be written back as a documentation comment, one tag a line. A string may hold quotes,
tags, stars and line feeds: its literal keeps all of them on one line and between its quotes, so
the comment is read as the options it was written from and no tag in it is lost.
-/

namespace Schemata

open Text Emitted

/-- The characters that end a line and that a string literal does not escape. -/
def lineMarks : List Char := [Char.ofNat 0x85, Char.ofNat 0x2028, Char.ofNat 0x2029]

/-- The values that a tag can hold: strings that are texts without line marks, whole numbers that
are not too long to be read, and the words. -/
def OptionValue.isTagLiteral : OptionValue → Bool
  | .literal (.str text) => text.toList.all (!lineMarks.contains ·)
  | .literal (.int value) => (Nat.toDigits 10 value.natAbs).length ≤ Json.maxDigits
  | .literal (.bool _) => true
  | .literal .null => true
  | _ => false

namespace Doc

def tagLine (entry : String × OptionValue) : String := " * @" ++ entry.1 ++ " " ++ entry.2.render

def tagComment (entries : List (String × OptionValue)) : String :=
  Text.join "\n" (["/**"] ++ entries.map tagLine ++ [" */"])

/-! ### One value -/

/-- The code of a value stays on its line, begins and ends without a blank, and is read as the value
from its first character to its last. -/
structure IsTagText (value : OptionValue) : Prop where
  unbroken : Unbroken value.render.toList
  nonempty : value.render.toList ≠ []
  head : ∀ c ∈ value.render.toList.head?, isBlank c = false
  last : ∀ c ∈ value.render.toList.getLast?, isBlank c = false
  lexeme : (lexeme? value.render.toList).map Prod.snd = some []
  value : tagValue value.render.toList = .ok value

theorem lexeme?_whole {value : OptionValue} {lexeme : Lexeme} (h : WrittenAs value lexeme) :
    lexeme? value.render.toList = some (lexeme, []) := by
  have hwhole := lexeme?_render h (stopsAt_nil valueEnds)
  rwa [List.append_nil] at hwhole

/-- A code without blanks needs no more than to be read as the value. -/
theorem isTagText_of_solid {value : OptionValue} {lexeme : Lexeme}
    (hwritten : WrittenAs value lexeme) (hblank : ∀ c ∈ value.render.toList, (!isBlank c) = true)
    (hne : value.render.toList ≠ []) (hvalue : tagValue value.render.toList = .ok value) :
    IsTagText value := by
  simp only [Bool.not_eq_true'] at hblank
  refine ⟨?_, hne, fun c hc => hblank c (List.mem_of_mem_head? hc),
    fun c hc => hblank c (List.mem_of_mem_getLast? hc), ?_, hvalue⟩
  · intro c hc
    cases hbreak : isLineBreak c with
    | false => rfl
    | true => rw [← hblank c hc, isBlank_of_isLineBreak hbreak]
  · rw [lexeme?_whole hwritten, Option.map_some]

/-! ### Strings -/

theorem unbroken_of_escaped {c : Char} {written : List Char} (h : Json.Escaped c written)
    (hc : c ∉ lineMarks) : Unbroken written := by
  cases h with
  | @letter e he =>
    have hletter : isLineBreak e = false := by
      unfold Json.simpleEscape? at he
      split at he
      case h_9 => cases he
      all_goals rfl
    exact unbroken_cons.2 ⟨by decide, unbroken_cons.2 ⟨hletter, unbroken_nil⟩⟩
  | units hcontrol =>
    exact unbroken_cons.2 ⟨by decide, unbroken_cons.2 ⟨by decide, unbroken_hexDigits 4 _⟩⟩
  | plain hquote hback hcontrol =>
    have hcode : ∀ n, Char.ofNat n ∈ lineMarks → c.toNat ≠ n := by
      rintro n hmem rfl
      rw [Char.ofNat_toNat] at hmem
      exact hc hmem
    have hnext := hcode 0x85 (by decide)
    have hline := hcode 0x2028 (by decide)
    have hparagraph := hcode 0x2029 (by decide)
    refine unbroken_cons.2 ⟨?_, unbroken_nil⟩
    simp only [isLineBreak, Bool.or_eq_false_iff, Bool.and_eq_false_iff, decide_eq_false_iff_not,
      beq_eq_false_iff_ne]
    omega

theorem isTagText_str {text : String} (h : ∀ c ∈ text.toList, c ∉ lineMarks) :
    IsTagText (.literal (.str text)) := by
  have hlexeme := lexeme?_whole (.str text)
  have hchars : (OptionValue.literal (.str text)).render.toList =
      '"' :: (text.toList.flatMap (Json.escapeChar false) ++ ['"']) := Json.toList_quote text
  have hunbroken : Unbroken (text.toList.flatMap (Json.escapeChar false)) := by
    intro d hd
    obtain ⟨c, hc, hd⟩ := List.mem_flatMap.1 hd
    exact unbroken_of_escaped (Json.escaped_escapeChar c) (h c hc) d hd
  have hquote : isBlank '"' = false := by decide
  have hhead : ∀ c ∈ (OptionValue.literal (.str text)).render.toList.head?, isBlank c = false := by
    simpa [hchars] using hquote
  have hlast : ∀ c ∈ (OptionValue.literal (.str text)).render.toList.getLast?,
      isBlank c = false := by
    rw [hchars, ← List.cons_append, List.getLast?_concat]
    simpa using hquote
  refine ⟨?_, by simp [hchars], hhead, hlast, by rw [hlexeme, Option.map_some], ?_⟩
  · rw [hchars, unbroken_cons, unbroken_append]
    exact ⟨by decide, hunbroken, by decide⟩
  · rw [tagValue, trimChars_of_edges hhead hlast, hlexeme]
    simp [hchars, Json.read_quote]

/-! ### Whole numbers -/

theorem numberValue_int {value : Int}
    (h : (Nat.toDigits 10 value.natAbs).length ≤ Json.maxDigits) :
    numberValue (toString value).toList = .ok (.int value) := by
  rw [toList_int]
  generalize hn : value.natAbs = n at h ⊢
  have hlimit : ¬ (Nat.toDigits 10 n).length > Json.maxDigits := Nat.not_lt.2 h
  have hwhole := wholeDigits_append n (stopsAt_nil valueEnds)
  rw [List.append_nil] at hwhole
  split
  · have hvalue : -(n : Int) = value := by omega
    rw [List.singleton_append, numberValue]
    simp [hwhole, digitsValue_toDigits, placeDigits, exponentDigits, hlimit, hvalue]
  · have hvalue : (n : Int) = value := by omega
    have hhead : ((Nat.toDigits 10 n).head? == some '-') = false := by
      rw [beq_eq_false_iff_ne]
      intro hminus
      obtain ⟨tail, htail⟩ := List.head?_eq_some_iff.1 hminus
      exact toDigits_append_ne_minus n [] tail (by rw [List.append_nil, htail])
    rw [List.nil_append, numberValue]
    simp [hhead, hwhole, digitsValue_toDigits, placeDigits, exponentDigits, hlimit, hvalue]

theorem isTagText_int {value : Int} (h : (Nat.toDigits 10 value.natAbs).length ≤ Json.maxDigits) :
    IsTagText (.literal (.int value)) := by
  have hchars : (OptionValue.literal (.int value)).render.toList = (toString value).toList := rfl
  have hlexeme := lexeme?_whole (.int value)
  have hblank := all_numeral (p := (!isBlank ·)) (by decide) value
  have hne := numeral_ne_nil value
  have htrim : trimChars (toString value).toList = (toString value).toList :=
    trimChars_of_edges (fun c hc => by simpa using hblank c (List.mem_of_mem_head? hc))
      fun c hc => by simpa using hblank c (List.mem_of_mem_getLast? hc)
  refine isTagText_of_solid (.int value) hblank hne ?_
  rw [hchars] at hlexeme ⊢
  rw [tagValue, htrim, hlexeme]
  simp only [numberValue_int h, List.isEmpty_eq_false_iff.2 hne]
  rfl

/-! ### Words -/

theorem isTagText_bool (value : Bool) : IsTagText (.literal (.bool value)) := by
  cases value with
  | true => exact isTagText_of_solid (.bool true) (List.all_eq_true.1 rfl) (by decide) rfl
  | false => exact isTagText_of_solid (.bool false) (List.all_eq_true.1 rfl) (by decide) rfl

theorem isTagText_null : IsTagText (.literal .null) :=
  isTagText_of_solid .null (List.all_eq_true.1 rfl) (by decide) rfl

/-- A value that a tag can hold is read back from its code. -/
theorem isTagText_render {value : OptionValue} (h : value.isTagLiteral = true) :
    IsTagText value := by
  cases value with
  | raw text => cases h
  | literal value =>
    cases value with
    | null => exact isTagText_null
    | bool value => exact isTagText_bool value
    | int value => exact isTagText_int (by simpa [OptionValue.isTagLiteral] using h)
    | str text => exact isTagText_str (by simpa [OptionValue.isTagLiteral] using h)
    | float value => cases h
    | broken points => cases h
    | arr items => cases h
    | obj entries => cases h

/-! ### One line -/

theorem toList_tagLine (entry : String × OptionValue) :
    (tagLine entry).toList =
      ' ' :: '*' :: ' ' :: '@' :: (entry.1.toList ++ ' ' :: entry.2.render.toList) := by
  simp [tagLine, String.toList_append]

theorem spanName_append {name : List Char} (hname : isPlainName name = true) {rest : List Char}
    (hrest : ∀ c ∈ rest.head?, isNameChar c = false) :
    spanName (name ++ rest) = some (name, rest) := by
  cases name with
  | nil => cases hname
  | cons c name =>
    rw [isPlainName, Bool.and_eq_true, List.all_eq_true] at hname
    rw [List.cons_append, spanName, if_pos hname.1, takeWhile_isNameChar hname.2 hrest,
      dropWhile_isNameChar hname.2 hrest]

/-- The line of an option loses the blanks and the star in front, and nothing else. -/
theorem cleanLine_tagLine {entry : String × OptionValue}
    (h : IsTagText entry.2) :
    cleanLine (tagLine entry).toList =
      '@' :: (entry.1.toList ++ ' ' :: entry.2.render.toList) := by
  have hedges : ∀ first more, isBlank first = false →
      trimChars (first :: (more ++ entry.2.render.toList)) =
        first :: (more ++ entry.2.render.toList) := by
    intro first more hfirst
    apply trimChars_of_edges
    · simpa using hfirst
    · intro c hc
      rw [← List.cons_append, List.getLast?_append_of_ne_nil _ h.nonempty] at hc
      exact h.last c hc
  have hstar := hedges '*' (" @".toList ++ (entry.1.toList ++ [' '])) (by decide)
  have htag := hedges '@' (entry.1.toList ++ [' ']) (by decide)
  have hblank : ∀ rest, trimChars (' ' :: rest) = trimChars rest := fun rest => rfl
  simp only [List.append_assoc, List.singleton_append] at hstar htag
  change trimChars ('*' :: ' ' :: '@' :: (entry.1.toList ++ ' ' :: entry.2.render.toList)) =
    '*' :: ' ' :: '@' :: (entry.1.toList ++ ' ' :: entry.2.render.toList) at hstar
  rw [toList_tagLine, cleanLine, hblank, hstar]
  simp only [hblank]
  exact htag

/-- The tag that the line of an option holds. -/
def tagOf (entry : String × OptionValue) : Tag := ⟨entry.1.toList, entry.2.render.toList⟩

theorem tag?_tagLine {entry : String × OptionValue} (hname : isPlainName entry.1.toList = true)
    (h : IsTagText entry.2) :
    tag? (cleanLine (tagLine entry).toList) = some (tagOf entry) := by
  have hspace : isNameChar ' ' = false := by decide
  rw [cleanLine_tagLine h, tag?, spanName_append hname (by simpa using hspace)]
  dsimp only
  rw [if_pos (by decide), dropBlanks_of_head h.head]
  rfl

theorem unbroken_tagLine {entry : String × OptionValue}
    (hname : isPlainName entry.1.toList = true) (h : IsTagText entry.2) :
    Unbroken (tagLine entry).toList := by
  rw [toList_tagLine]
  simp only [unbroken_cons, unbroken_append]
  exact ⟨by decide, by decide, by decide, by decide, (isName_of_isPlainName hname).unbroken,
    by decide, h.unbroken⟩

/-! ### The comment -/

theorem inner_delimited (body : List Char) :
    inner ("/**".toList ++ (body ++ "*/".toList)) = body := by
  have hdrop : ("/**".toList ++ (body ++ "*/".toList)).drop 3 = body ++ "*/".toList := rfl
  have hclose : "*/".toList.isSuffixOf (body ++ "*/".toList) = true :=
    List.isSuffixOf_iff_suffix.2 ⟨body, rfl⟩
  have hsplit : body ++ "*/".toList = body ++ ['*'] ++ ['/'] := by simp
  rw [inner, hdrop, if_pos hclose, hsplit, List.dropLast_concat, List.dropLast_concat]

theorem toList_tagComment (entries : List (String × OptionValue)) :
    (tagComment entries).toList = "/**".toList ++
      (unlines ([] :: (entries.map tagLine).map String.toList) ++ [' '] ++ "*/".toList) := by
  have hfeed : (tagComment entries).toList ++ ['\n'] =
      unlines ((["/**"] ++ entries.map tagLine ++ [" */"]).map String.toList) := by
    rw [tagComment, Text.join, String.toList_intercalate]
    exact intercalate_append_feed (by simp)
  have hcut : (tagComment entries).toList ++ ['\n'] = "/**".toList ++
      (unlines ([] :: (entries.map tagLine).map String.toList) ++ [' '] ++ "*/".toList) ++
        ['\n'] := by
    rw [hfeed]
    simp
  exact List.append_cancel_right hcut

theorem lines_tagComment {entries : List (String × OptionValue)}
    (h : ∀ entry ∈ entries, Unbroken (tagLine entry).toList) :
    lines (tagComment entries).toList =
      [] :: ((entries.map fun entry => cleanLine (tagLine entry).toList) ++ [[]]) := by
  have hunbroken : ∀ line ∈ [] :: (entries.map tagLine).map String.toList, Unbroken line := by
    intro line hline
    rw [List.map_map, List.mem_cons, List.mem_map] at hline
    rcases hline with rfl | ⟨entry, hmem, rfl⟩
    · exact unbroken_nil
    · exact h entry hmem
  have hlast : splitLines [' '] = [⟨[' '], []⟩] := splitLines_unbroken (by decide) (by simp)
  rw [lines, toList_tagComment, inner_delimited, splitLines_unlines_append hunbroken, hlast,
    List.map_append, List.map_map, List.map_cons, List.map_map, List.map_map]
  have hempty : cleanLine [] = [] ∧ cleanLine [' '] = [] := ⟨rfl, rfl⟩
  simp [Function.comp_def, hempty]

theorem tags_tagComment {entries : List (String × OptionValue)}
    (hnames : ∀ entry ∈ entries, isPlainName entry.1.toList = true)
    (hvalues : ∀ entry ∈ entries, IsTagText entry.2) :
    tags (tagComment entries) = entries.map tagOf := by
  have hdoc : isDocComment (tagComment entries).toList = true := by
    rw [toList_tagComment]
    rfl
  have htags : entries.filterMap (tag? ∘ fun entry => cleanLine (tagLine entry).toList) =
      entries.filterMap (some ∘ tagOf) := by
    apply List.filterMap_congr
    intro entry hmem
    rw [Function.comp_apply, Function.comp_apply, tag?_tagLine (hnames entry hmem)
      (hvalues entry hmem)]
  rw [tags, if_pos hdoc,
    lines_tagComment fun entry hmem => unbroken_tagLine (hnames entry hmem) (hvalues entry hmem),
    List.filterMap_cons_none rfl, List.filterMap_append, List.filterMap_map, htags,
    List.filterMap_eq_map]
  exact List.append_nil _

theorem foldlM_tags {entries : List (String × OptionValue)}
    (h : ∀ entry ∈ entries, IsTagText entry.2)
    (before : List (String × OptionValue)) :
    (entries.map tagOf).foldlM (fun entries tag => do
      return setEntry (String.ofList tag.name) (← tagValue tag.value) entries) before =
        .ok (setEntries entries before) := by
  induction entries generalizing before with
  | nil => rfl
  | cons entry entries ih =>
    rw [List.map_cons, List.foldlM_cons, tagOf, (h entry (by simp)).value, String.ofList_toList]
    exact ih (fun other hmem => h other (List.mem_cons_of_mem _ hmem)) _

/-- **Tags read back.** A comment with an option on each line gives these options, of a repeated
name the last value in the place of the first, and no tag is lost. -/
theorem options_tagComment (entries : List (String × OptionValue))
    (hnames : ∀ entry ∈ entries, isPlainName entry.1.toList = true)
    (hvalues : ∀ entry ∈ entries, entry.2.isTagLiteral = true) :
    options (tagComment entries) = .ok (lastSettings entries) ∧
      lostNames (tagComment entries) = [] := by
  have htexts : ∀ entry ∈ entries, IsTagText entry.2 :=
    fun entry hmem => isTagText_render (hvalues entry hmem)
  constructor
  · rw [options, tags_tagComment hnames htexts, foldlM_tags htexts,
      ← entriesOf_eq_lastSettings]
    rfl
  · rw [lostNames, tags_tagComment hnames htexts, List.flatMap_eq_nil_iff]
    intro tag htag
    obtain ⟨entry, hmem, rfl⟩ := List.mem_map.1 (List.mem_filter.1 htag).1
    have h := htexts entry hmem
    dsimp only [tagOf]
    rw [trimChars_of_edges h.head h.last, h.lexeme]
    rfl

/-- A title with everything in it that a comment gives a meaning to, after one that it replaces. -/
def retitled : List (String × OptionValue) :=
  [("title", .literal .null), ("$low", .literal (.int (-40))),
    ("title", .literal (.str " * @an \"odd\" \\ \n */ 'title' "))]

theorem options_tagComment_retitled :
    options (tagComment retitled) =
        .ok [("title", .literal (.str " * @an \"odd\" \\ \n */ 'title' ")),
          ("$low", .literal (.int (-40)))] ∧
      lostNames (tagComment retitled) = [] :=
  options_tagComment retitled (by decide) (by decide)

end Doc

end Schemata

import Schemata.Text.Line
import Schemata.Text.Blank
import Schemata.Text.Word
import Schemata.Schema.Render

/-!
# Texts made of lines

The emitted code is written as lines with a line feed behind each. A line without a line boundary in
it comes back from such a text as it went in, so what later passes see of the code is exactly the
list of lines that the renderer wrote.
-/

namespace Schemata.Text

/-- No line ends inside the characters. -/
def Unbroken (chars : List Char) : Prop := ∀ c ∈ chars, isLineBreak c = false

instance (chars : List Char) : Decidable (Unbroken chars) := List.decidableBAll _ chars

@[simp] theorem unbroken_nil : Unbroken [] := by simp [Unbroken]

@[simp] theorem unbroken_cons {c : Char} {chars : List Char} :
    Unbroken (c :: chars) ↔ isLineBreak c = false ∧ Unbroken chars := by
  simp [Unbroken]

@[simp] theorem unbroken_append {first second : List Char} :
    Unbroken (first ++ second) ↔ Unbroken first ∧ Unbroken second := by
  simp only [Unbroken, List.mem_append]
  constructor
  · intro h
    exact ⟨fun c hc => h c (Or.inl hc), fun c hc => h c (Or.inr hc)⟩
  · rintro ⟨hfirst, hsecond⟩ c (hc | hc)
    · exact hfirst c hc
    · exact hsecond c hc

theorem unbroken_intercalate {separator : List Char} {parts : List (List Char)}
    (hseparator : Unbroken separator) (hparts : ∀ part ∈ parts, Unbroken part) :
    Unbroken (separator.intercalate parts) := by
  induction parts with
  | nil => simp
  | cons part rest ih =>
    cases rest with
    | nil => simpa using hparts part (by simp)
    | cons next rest =>
      rw [List.intercalate_cons_cons, unbroken_append, unbroken_append]
      exact ⟨⟨hparts part (by simp), hseparator⟩,
        ih fun other hmem => hparts other (by simp [hmem])⟩

theorem Unbroken.of_intercalate {separator : List Char} {parts : List (List Char)}
    (h : Unbroken (separator.intercalate parts)) : ∀ part ∈ parts, Unbroken part := by
  induction parts with
  | nil => simp
  | cons part rest ih =>
    cases rest with
    | nil => simpa using h
    | cons next rest =>
      rw [List.intercalate_cons_cons, unbroken_append, unbroken_append] at h
      intro other hmem
      rcases List.mem_cons.1 hmem with rfl | hmem
      · exact h.1.1
      · exact ih h.2 other hmem

theorem Unbroken.feed_not_mem {chars : List Char} (h : Unbroken chars) : '\n' ∉ chars :=
  fun hmem => absurd (h '\n' hmem) (by decide)

theorem unbroken_hexDigits (width n : Nat) : Unbroken (hexDigits width n) := by
  induction width generalizing n with
  | zero => exact unbroken_nil
  | succ width ih =>
    have hdigit : ∀ n < 16, isLineBreak (hexDigit n) = false := by decide
    rw [hexDigits, unbroken_append, unbroken_cons]
    exact ⟨ih (n / 16), hdigit (n % 16) (Nat.mod_lt n (by decide)), unbroken_nil⟩

/-! ### Character classes -/

private def blankCodes : List Nat :=
  [32, 9, 10, 11, 12, 13, 28, 29, 30, 31, 0x85, 0xA0, 0x1680, 0x2000, 0x2001, 0x2002, 0x2003,
    0x2004, 0x2005, 0x2006, 0x2007, 0x2008, 0x2009, 0x200A, 0x2028, 0x2029, 0x202F, 0x205F, 0x3000]

private theorem toNat_mem_blankCodes {c : Char} (h : isBlank c = true) :
    c.toNat ∈ blankCodes := by
  simp only [isBlank, Bool.or_eq_true, Bool.and_eq_true, beq_iff_eq, decide_eq_true_eq] at h
  simp only [blankCodes, List.mem_cons, List.not_mem_nil, or_false]
  -- one goal for each group of blanks: a single code point, or a range of a few
  rcases h with (((((((((((h | h) | h) | h) | h) | h) | h) | h) | h) | h) | h) | h)
  all_goals first
    | simp [h]
    | omega

theorem isNameChar_eq_false_of_isBlank {c : Char} (h : isBlank c = true) :
    isNameChar c = false := by
  have hmem : c ∈ blankCodes.map Char.ofNat :=
    List.mem_map.2 ⟨c.toNat, toNat_mem_blankCodes h, Char.ofNat_toNat c⟩
  have hall : (blankCodes.map Char.ofNat).all (!isNameChar ·) = true := by decide +kernel
  simpa using List.all_eq_true.1 hall c hmem

theorem isBlank_eq_false_of_isNameChar {c : Char} (h : isNameChar c = true) :
    isBlank c = false := by
  cases hblank : isBlank c with
  | false => rfl
  | true =>
    rw [isNameChar_eq_false_of_isBlank hblank] at h
    cases h

theorem isBlank_of_isLineBreak {c : Char} (h : isLineBreak c = true) : isBlank c = true := by
  simp only [isLineBreak, Bool.or_eq_true, Bool.and_eq_true, beq_iff_eq, decide_eq_true_eq] at h
  simp only [isBlank, Bool.or_eq_true, Bool.and_eq_true, beq_iff_eq, decide_eq_true_eq]
  omega

theorem isLineBreak_eq_false_of_isNameChar {c : Char} (h : isNameChar c = true) :
    isLineBreak c = false := by
  cases hbreak : isLineBreak c with
  | false => rfl
  | true =>
    rw [isNameChar_eq_false_of_isBlank (isBlank_of_isLineBreak hbreak)] at h
    cases h

theorem dropBlanks_of_head {chars : List Char} (h : ∀ c ∈ chars.head?, isBlank c = false) :
    dropBlanks chars = chars := by
  cases chars with
  | nil => rfl
  | cons c rest => simp [dropBlanks, h c (by simp)]

/-- There is nothing to cut off where neither end is blank. -/
theorem trimChars_of_edges {chars : List Char} (hhead : ∀ c ∈ chars.head?, isBlank c = false)
    (hlast : ∀ c ∈ chars.getLast?, isBlank c = false) : trimChars chars = chars := by
  have hback : dropBlanks chars.reverse = chars.reverse :=
    dropBlanks_of_head (by rwa [List.head?_reverse])
  rw [trimChars, dropBlanks_of_head hhead, hback, List.reverse_reverse]

/-- A run of name characters that is not empty. -/
def IsName (name : List Char) : Prop := name ≠ [] ∧ ∀ c ∈ name, isNameChar c = true

instance (name : List Char) : Decidable (IsName name) :=
  @instDecidableAnd _ _ inferInstance (List.decidableBAll _ name)

theorem IsName.unbroken {name : List Char} (h : IsName name) : Unbroken name :=
  fun c hc => isLineBreak_eq_false_of_isNameChar (h.2 c hc)

/-! ### Splitting what was joined -/

/-- Lines with a line feed behind each. -/
def unlines (lines : List (List Char)) : List Char := lines.flatMap (· ++ ['\n'])

@[simp] theorem unlines_nil : unlines [] = [] := rfl

@[simp] theorem unlines_cons (line : List Char) (lines : List (List Char)) :
    unlines (line :: lines) = line ++ '\n' :: unlines lines := by
  simp [unlines]

@[simp] theorem unlines_append (first second : List (List Char)) :
    unlines (first ++ second) = unlines first ++ unlines second := by
  simp [unlines]

/-- The lines joined by line feeds, with one more behind the last. -/
theorem intercalate_append_feed {lines : List (List Char)} (hne : lines ≠ []) :
    ['\n'].intercalate lines ++ ['\n'] = unlines lines := by
  induction lines with
  | nil => exact absurd rfl hne
  | cons line rest ih =>
    cases rest with
    | nil => simp
    | cons next rest =>
      rw [List.intercalate_cons_cons, unlines_cons, ← ih (by simp)]
      simp

theorem append_feed_eq {text : List Char} {lines : List (List Char)}
    (h : text ++ ['\n'] = unlines lines) (rest : List Char) :
    text ++ '\n' :: rest = unlines lines ++ rest := by
  rw [← h]
  simp

theorem splitLines_cons {c : Char} (hc : isLineBreak c = false) (rest : List Char) :
    splitLines (c :: rest) = match splitLines rest with
      | [] => [⟨[c], []⟩]
      | line :: lines => line.cons c :: lines := by
  have hreturn : c ≠ '\r' := by
    rintro rfl
    exact absurd hc (by decide)
  rw [splitLines.eq_3 c rest (fun _ hr _ => hreturn hr), hc]
  rfl

theorem splitLines_append_feed {line : List Char} (h : Unbroken line) (rest : List Char) :
    splitLines (line ++ '\n' :: rest) = ⟨line, ['\n']⟩ :: splitLines rest := by
  induction line with
  | nil =>
    rw [List.nil_append, splitLines.eq_3 '\n' rest (fun _ hr _ => absurd hr (by decide))]
    rfl
  | cons c line ih =>
    rw [unbroken_cons] at h
    rw [List.cons_append, splitLines_cons h.1, ih h.2]
    rfl

theorem splitLines_unbroken {line : List Char} (h : Unbroken line) (hne : line ≠ []) :
    splitLines line = [⟨line, []⟩] := by
  induction line with
  | nil => exact absurd rfl hne
  | cons c line ih =>
    rw [unbroken_cons] at h
    rw [splitLines_cons h.1]
    cases line with
    | nil => rfl
    | cons d line =>
      rw [ih h.2 (by simp)]
      rfl

/-- Lines written one after another are read back as they are. -/
theorem splitLines_unlines_append {lines : List (List Char)}
    (h : ∀ line ∈ lines, Unbroken line) (rest : List Char) :
    splitLines (unlines lines ++ rest) =
      lines.map (fun line => ⟨line, ['\n']⟩) ++ splitLines rest := by
  induction lines with
  | nil => simp
  | cons line lines ih =>
    rw [unlines_cons, List.append_assoc, List.cons_append,
      splitLines_append_feed (h line (by simp)), ih fun other hmem => h other (by simp [hmem])]
    rfl

/-- The lines of a text whose last line is not empty and has no line feed behind it. -/
theorem lineTexts_of_unlines {text : String} {lines : List (List Char)} {last : List Char}
    (htext : text.toList ++ ['\n'] = unlines (lines ++ [last]))
    (h : ∀ line ∈ lines ++ [last], Unbroken line) (hlast : last ≠ []) :
    lineTexts text = (lines ++ [last]).map String.ofList := by
  have hchars : text.toList = unlines lines ++ last := by
    have hfeed : text.toList ++ ['\n'] = (unlines lines ++ last) ++ ['\n'] := by
      rw [htext]
      simp
    exact List.append_cancel_right hfeed
  rw [lineTexts, hchars,
    splitLines_unlines_append fun line hmem => h line (List.mem_append_left _ hmem),
    splitLines_unbroken (h last (by simp)) hlast]
  simp

/-! ### Any text -/

theorem splitLines_break {c : Char} (hc : isLineBreak c = true) {rest : List Char}
    (h : c = '\r' → rest.head? ≠ some '\n') :
    splitLines (c :: rest) = ⟨[], [c]⟩ :: splitLines rest := by
  rw [splitLines.eq_3 c rest ?_, hc]
  · rfl
  · rintro tail hreturn rfl
    exact h hreturn rfl

theorem splitLines_ne_nil {chars : List Char} (h : chars ≠ []) : splitLines chars ≠ [] := by
  fun_cases splitLines chars with
  | case1 => exact absurd rfl h
  | case2 => simp
  | case3 => simp [*]
  | case4 => simp [*]
  | case5 => simp [*]

theorem unbroken_of_mem_splitLines {chars : List Char} :
    ∀ line ∈ splitLines chars, Unbroken line.body := by
  fun_induction splitLines chars with
  | case1 => simp
  | case2 rest ih => exact List.forall_mem_cons.2 ⟨unbroken_nil, ih⟩
  | case3 c rest _ hbreak ih => exact List.forall_mem_cons.2 ⟨unbroken_nil, ih⟩
  | case4 c rest _ hbreak hnil ih => simpa using hbreak
  | case5 c rest _ hbreak line lines hcons ih =>
    rw [hcons, List.forall_mem_cons] at ih
    refine List.forall_mem_cons.2 ⟨?_, ih.2⟩
    exact unbroken_cons.2 ⟨by simpa using hbreak, ih.1⟩

/-- A line feed ends a line, whatever follows. -/
theorem splitLines_feed_append (front back : List Char) :
    splitLines (front ++ '\n' :: back) = splitLines (front ++ ['\n']) ++ splitLines back := by
  have hfeed : ∀ rest, splitLines ('\n' :: rest) = ⟨[], ['\n']⟩ :: splitLines rest :=
    fun rest => splitLines_break (by decide) (by simp)
  have hcons : ∀ c rest, isLineBreak c = false →
      splitLines (rest ++ '\n' :: back) = splitLines (rest ++ ['\n']) ++ splitLines back →
      splitLines (c :: rest ++ '\n' :: back) =
        splitLines (c :: rest ++ ['\n']) ++ splitLines back := by
    intro c rest hc ih
    rw [List.cons_append, List.cons_append, splitLines_cons hc, splitLines_cons hc, ih]
    cases hfed : splitLines (rest ++ ['\n']) with
    | nil => exact absurd hfed (splitLines_ne_nil (by simp))
    | cons line lines => rfl
  fun_induction splitLines front with
  | case1 => simp [hfeed, splitLines]
  | case2 rest ih => simp [splitLines, ih]
  | case3 c rest hrest hbreak ih =>
    cases rest with
    | nil =>
      by_cases hreturn : c = '\r'
      · subst hreturn
        simp [splitLines]
      · rw [List.singleton_append, List.singleton_append,
          splitLines_break hbreak (by simp [hreturn]), splitLines_break hbreak (by simp [hreturn]),
          hfeed, hfeed]
        simp [splitLines]
    | cons d rest =>
      have hpair : ∀ tail, c = '\r' → (d :: rest ++ tail).head? ≠ some '\n' := by
        rintro tail rfl hhead
        cases hhead
        exact hrest rest rfl rfl
      have hhere : ∀ tail, splitLines (c :: (d :: rest) ++ tail) =
          ⟨[], [c]⟩ :: splitLines (d :: rest ++ tail) :=
        fun tail => splitLines_break hbreak (hpair tail)
      rw [hhere, hhere, ih]
      rfl
  | case4 c rest hrest hbreak hnil ih => exact hcons c rest (by simpa using hbreak) ih
  | case5 c rest hrest hbreak line lines _ ih => exact hcons c rest (by simpa using hbreak) ih

/-- With a line feed behind it a text has the same lines, or one more that is empty. -/
theorem bodies_splitLines_feed (chars : List Char) :
    (splitLines (chars ++ ['\n'])).map Line.body = (splitLines chars).map Line.body ∨
      (splitLines (chars ++ ['\n'])).map Line.body = (splitLines chars).map Line.body ++ [[]] := by
  fun_induction splitLines chars with
  | case1 => exact Or.inr rfl
  | case2 rest ih => simpa [splitLines] using ih
  | case3 c rest hrest hbreak ih =>
    cases rest with
    | nil =>
      by_cases hreturn : c = '\r'
      · subst hreturn
        exact Or.inl rfl
      · rw [List.singleton_append, splitLines_break hbreak (by simp [hreturn])]
        exact Or.inr rfl
    | cons d rest =>
      have hpair : c = '\r' → (d :: rest ++ ['\n']).head? ≠ some '\n' := by
        rintro rfl hhead
        cases hhead
        exact hrest rest rfl rfl
      rw [List.cons_append, splitLines_break hbreak hpair]
      simpa using ih
  | case4 c rest hrest hbreak hnil ih =>
    obtain rfl : rest = [] := Classical.byContradiction fun h => splitLines_ne_nil h hnil
    refine Or.inl ?_
    rw [List.singleton_append, splitLines_cons (by simpa using hbreak)]
    rfl
  | case5 c rest hrest hbreak line lines hcons ih =>
    rw [List.cons_append, splitLines_cons (by simpa using hbreak)]
    rw [hcons] at ih
    cases hfed : splitLines (rest ++ ['\n']) with
    | nil => exact absurd hfed (splitLines_ne_nil (by simp))
    | cons first more =>
      rw [hfed] at ih
      simpa [Line.cons] using ih

theorem mem_lineTexts_append_feed {front back line : String}
    (h : line ∈ lineTexts (front ++ "\n" ++ back)) :
    line = "" ∨ line ∈ lineTexts front ∨ line ∈ lineTexts back := by
  have hsplit : splitLines (front ++ "\n" ++ back).toList =
      splitLines (front.toList ++ ['\n']) ++ splitLines back.toList := by
    rw [← splitLines_feed_append]
    simp [String.toList_append]
  obtain ⟨origin, horigin, rfl⟩ := List.mem_map.1 h
  rw [hsplit, List.mem_append] at horigin
  rcases horigin with hfront | hback
  · have hbody : origin.body ∈ (splitLines (front.toList ++ ['\n'])).map Line.body :=
      List.mem_map_of_mem hfront
    have hcases : origin.body = [] ∨ origin.body ∈ (splitLines front.toList).map Line.body := by
      rcases bodies_splitLines_feed front.toList with heq | heq
      · exact Or.inr (heq ▸ hbody)
      · rw [heq, List.mem_append, List.mem_singleton] at hbody
        exact hbody.symm
    rcases hcases with hempty | hmem
    · exact Or.inl (by rw [hempty])
    · obtain ⟨other, hother, heq⟩ := List.mem_map.1 hmem
      exact Or.inr (Or.inl (List.mem_map.2 ⟨other, hother, by rw [heq]⟩))
  · exact Or.inr (Or.inr (List.mem_map.2 ⟨origin, hback, rfl⟩))

theorem unbroken_of_mem_lineTexts {text line : String} (h : line ∈ lineTexts text) :
    Unbroken line.toList := by
  obtain ⟨origin, horigin, rfl⟩ := List.mem_map.1 h
  rw [String.toList_ofList]
  exact unbroken_of_mem_splitLines origin horigin

theorem infix_of_mem_lineTexts {text line : String} (h : line ∈ lineTexts text) :
    line.toList <:+: text.toList := by
  obtain ⟨origin, horigin, rfl⟩ := List.mem_map.1 h
  obtain ⟨before, after, hsplit⟩ := List.append_of_mem horigin
  refine ⟨before.flatMap Line.chars, origin.ending ++ after.flatMap Line.chars, ?_⟩
  have hchars := flatMap_chars_splitLines text.toList
  rw [hsplit] at hchars
  rw [← hchars]
  simp [Line.chars]

theorem lineTexts_of_unbroken {line : String} (h : Unbroken line.toList) :
    ∀ other ∈ lineTexts line, other = line := by
  intro other hother
  by_cases hempty : line.toList = []
  · rw [lineTexts, hempty] at hother
    cases hother
  · rw [lineTexts, splitLines_unbroken h hempty] at hother
    simpa using hother

/-- A line moved two blanks to the right, unless it is empty. -/
def indentLine (line : List Char) : List Char :=
  if line.isEmpty then line else ' ' :: ' ' :: line

end Schemata.Text

namespace Schemata

open Text

/-- Indenting a text indents each of its lines. -/
theorem indentLines_append_feed {text : String} {lines : List (List Char)} {last : List Char}
    (htext : text.toList ++ ['\n'] = unlines (lines ++ [last]))
    (h : ∀ line ∈ lines ++ [last], Unbroken line) (hlast : last ≠ []) :
    (indentLines text).toList ++ ['\n'] = unlines ((lines ++ [last]).map indentLine) := by
  rw [indentLines, lineTexts_of_unlines htext h hlast, Text.join, String.toList_intercalate,
    ← intercalate_append_feed (by simp), List.map_map, List.map_map]
  congr 3
  funext line
  cases line with
  | nil => rfl
  | cons c line => simp [indentLine]

end Schemata

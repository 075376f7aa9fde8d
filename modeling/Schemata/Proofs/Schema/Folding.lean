import Schemata.Proofs.Text.Lines

/-!
# Expressions over several lines

An expression goes over to a new line only inside an object argument, where the next line begins
with the key of a field or with the closing brace. So as long as no text in the expression breaks a
line itself, every line but the first can be told from the beginning of a declaration by its first
characters.
-/

namespace Schemata

open Text

theorem bind_eq_ok_iff {ε α β : Type} {first : Except ε α} {next : α → Except ε β} {result : β} :
    (first >>= next) = .ok result ↔ ∃ value, first = .ok value ∧ next value = .ok result := by
  cases first with
  | error fault => simp [bind, Except.bind]
  | ok value => simp [bind, Except.bind]

/-- The characters that open a string literal. -/
def isQuote (c : Char) : Bool := c == '"' || c == '\'' || c == '`'

/-- What a line inside an expression begins with, indentation apart. -/
inductive Opening : List Char → Prop where
  | brace : Opening ['}']
  | quote {c : Char} (hquote : isQuote c = true) : Opening [c]
  | key {name : List Char} (hname : IsName name) : Opening (name ++ [':'])

/-- The characters go on with an expression on a new line. -/
def Continues (chars : List Char) : Prop :=
  ∃ blanks opening, Opening opening ∧ List.replicate blanks ' ' ++ opening <+: chars

/-- Every line boundary is a line feed, and the expression goes on after it. -/
def Folded : List Char → Prop
  | [] => True
  | c :: rest => (isLineBreak c = true → c = '\n' ∧ Continues rest) ∧ Folded rest

theorem Opening.unbroken {opening : List Char} (h : Opening opening) : Unbroken opening := by
  cases h with
  | brace => decide
  | @quote c hquote =>
    simp only [isQuote, Bool.or_eq_true, beq_iff_eq] at hquote
    rcases hquote with (rfl | rfl) | rfl <;> decide
  | key hname => exact unbroken_append.2 ⟨hname.unbroken, by decide⟩

theorem unbroken_replicate (count : Nat) : Unbroken (List.replicate count ' ') := by
  intro c hc
  rw [(List.mem_replicate.1 hc).2]
  decide

theorem Continues.ne_nil {chars : List Char} (h : Continues chars) : chars ≠ [] := by
  rintro rfl
  obtain ⟨blanks, opening, hopening, hprefix⟩ := h
  have hempty := List.append_eq_nil_iff.1 (List.prefix_nil.1 hprefix)
  cases hopening <;> simp at hempty

theorem Continues.append {chars : List Char} (h : Continues chars) (more : List Char) :
    Continues (chars ++ more) := by
  obtain ⟨blanks, opening, hopening, hprefix⟩ := h
  exact ⟨blanks, opening, hopening, hprefix.trans (List.prefix_append chars more)⟩

/-- A continuation shows on its own line, whatever the lines after it are. -/
theorem Continues.of_append_feed {line rest : List Char} (h : Continues (line ++ '\n' :: rest)) :
    Continues line := by
  obtain ⟨blanks, opening, hopening, hprefix⟩ := h
  have hunbroken : Unbroken (List.replicate blanks ' ' ++ opening) :=
    unbroken_append.2 ⟨unbroken_replicate blanks, hopening.unbroken⟩
  have hfeed : '\n' ∉ List.replicate blanks ' ' ++ opening := by
    intro hmem
    exact absurd (hunbroken '\n' hmem) (by decide)
  have hline : line ++ ['\n'] <+: line ++ '\n' :: rest := ⟨rest, by simp⟩
  refine ⟨blanks, opening, hopening, ?_⟩
  rcases List.prefix_or_prefix_of_prefix hprefix hline with hshort | hlong
  · rcases List.prefix_concat_iff.1 hshort with heq | hinside
    · rw [heq] at hfeed
      simp at hfeed
    · exact hinside
  · exact absurd (hlong.subset (by simp)) hfeed

theorem Folded.append {first second : List Char} (hfirst : Folded first) (hsecond : Folded second) :
    Folded (first ++ second) := by
  induction first with
  | nil => exact hsecond
  | cons c first ih =>
    refine ⟨fun hbreak => ?_, ih hfirst.2⟩
    obtain ⟨hfeed, hcontinues⟩ := hfirst.1 hbreak
    exact ⟨hfeed, hcontinues.append second⟩

theorem Folded.of_unbroken {chars : List Char} (h : Unbroken chars) : Folded chars := by
  induction chars with
  | nil => trivial
  | cons c chars ih =>
    rw [unbroken_cons] at h
    exact ⟨fun hbreak => absurd (h.1.symm.trans hbreak) (by decide), ih h.2⟩

theorem folded_feed {chars : List Char} (hcontinues : Continues chars) (hfolded : Folded chars) :
    Folded ('\n' :: chars) :=
  ⟨fun _ => ⟨rfl, hcontinues⟩, hfolded⟩

theorem folded_intercalate {separator : List Char} {parts : List (List Char)}
    (hseparator : Folded separator) (hparts : ∀ part ∈ parts, Folded part) :
    Folded (separator.intercalate parts) := by
  induction parts with
  | nil => exact trivial
  | cons part rest ih =>
    cases rest with
    | nil => simpa using hparts part (by simp)
    | cons next rest =>
      rw [List.intercalate_cons_cons]
      exact ((hparts part (by simp)).append hseparator).append
        (ih fun other hmem => hparts other (by simp [hmem]))

/-- The lines of a folded text: the first may be anything, the others continue it. -/
theorem Folded.exists_lines {chars : List Char} (h : Folded chars) :
    ∃ first more, chars ++ ['\n'] = unlines (first :: more) ∧ Unbroken first ∧
      ∀ line ∈ more, Unbroken line ∧ Continues line := by
  induction chars with
  | nil => exact ⟨[], [], by simp, by simp, by simp⟩
  | cons c chars ih =>
    obtain ⟨first, more, hchars, hfirst, hmore⟩ := ih h.2
    cases hbreak : isLineBreak c with
    | false =>
      refine ⟨c :: first, more, ?_, unbroken_cons.2 ⟨hbreak, hfirst⟩, hmore⟩
      rw [List.cons_append, hchars]
      simp
    | true =>
      obtain ⟨rfl, hcontinues⟩ := h.1 hbreak
      refine ⟨[], first :: more, ?_, by simp, ?_⟩
      · rw [List.cons_append, hchars]
        simp
      · -- the line after the line feed is the first line of what was split before
        have hline : Continues first := by
          have hall : Continues (first ++ '\n' :: unlines more) := by
            rw [← unlines_cons, ← hchars]
            exact hcontinues.append ['\n']
          exact hall.of_append_feed
        intro line hmem
        rcases List.mem_cons.1 hmem with rfl | hmem
        · exact ⟨hfirst, hline⟩
        · exact hmore line hmem

/-! ### Rendered expressions -/

/-- What may stand before the colon of a field: a name or a literal. -/
def isFieldName (name : List Char) : Bool :=
  decide (IsName name) || (name.head?.map isQuote).getD false

/-- No option breaks a line. -/
def Options.keepsLines (options : Options) : Bool :=
  options.all fun (name, value) =>
    decide (Unbroken (renderKey name).toList) && decide (Unbroken value.render.toList)

namespace Expr

mutual

/-- No text in the expression breaks a line, and every field has a key. -/
def keepsLines : Expr → Bool
  | .call name args options =>
    decide (Unbroken name.toList) && options.keepsLines && keepsLinesAll args
  | .ref name => decide (Unbroken name.toList)
  | .raw text => decide (Unbroken text.toList)
  | .apply callee args => decide (Unbroken callee.toList) && keepsLinesAll args
  | .array items => keepsLinesAll items
  | .object fields => keepsLinesFields fields
  | .recursive name body => decide (Unbroken name.toList) && keepsLines body
  | .absent | .bare => true

def keepsLinesAll : List Expr → Bool
  | [] => true
  | expr :: rest => keepsLines expr && keepsLinesAll rest

def keepsLinesFields : List (String × Expr) → Bool
  | [] => true
  | (name, value) :: rest =>
    decide (Unbroken name.toList) && isFieldName name.toList && keepsLines value &&
      keepsLinesFields rest

end

end Expr

theorem Options.unbroken_render {options : Options} (h : options.keepsLines = true) :
    Unbroken options.render.toList := by
  simp only [Options.render, String.toList_append, unbroken_append, String.toList_intercalate]
  refine ⟨⟨by decide, unbroken_intercalate (by decide) ?_⟩, by decide⟩
  intro part hpart
  simp only [List.map_map, List.mem_map] at hpart
  obtain ⟨⟨name, value⟩, hmem, rfl⟩ := hpart
  have hoption := List.all_eq_true.1 h _ hmem
  simp only [Bool.and_eq_true, decide_eq_true_eq] at hoption
  simp only [Function.comp_apply, String.toList_append, unbroken_append]
  exact ⟨⟨hoption.1, by decide⟩, hoption.2⟩

theorem toList_indentation (level : Int) :
    (indentation level).toList = List.replicate (2 * level.toNat) ' ' := by
  simp [indentation]

theorem isFieldName_ne_empty {name : String} (h : isFieldName name.toList = true) :
    (name == "") = false := by
  rw [beq_eq_false_iff_ne]
  rintro rfl
  exact absurd h (by decide)

namespace Expr

/-- The line of a field continues the object argument. -/
theorem continues_fieldLine {name : String} (h : isFieldName name.toList = true) (level : Int)
    (value : String) : Continues (fieldLine level name value).toList := by
  rw [fieldLine, isFieldName_ne_empty h]
  simp only [Bool.false_eq_true, if_false, String.toList_append, toList_indentation]
  rw [isFieldName, Bool.or_eq_true, decide_eq_true_eq] at h
  rcases h with hname | hquote
  · exact ⟨2 * (level + 1).toNat, _, .key hname, ' ' :: value.toList, by simp⟩
  · cases hchars : name.toList with
    | nil => simp [hchars] at hquote
    | cons c rest =>
      have hc : isQuote c = true := by simpa [hchars] using hquote
      exact ⟨2 * (level + 1).toNat, _, .quote hc, rest ++ ':' :: ' ' :: value.toList, by simp⟩

theorem folded_fieldLine {name : String} (hname : Unbroken name.toList) (level : Int)
    {value : String} (hvalue : Folded value.toList) :
    Folded (fieldLine level name value).toList := by
  have hblanks : Folded (indentation (level + 1)).toList := by
    rw [toList_indentation]
    exact .of_unbroken (unbroken_replicate _)
  rw [fieldLine, String.toList_append]
  refine hblanks.append ?_
  split
  · exact hvalue
  · rw [String.toList_append, String.toList_append]
    exact ((Folded.of_unbroken hname).append (.of_unbroken (by decide))).append hvalue

/-- Field lines with commas and line feeds between them, after a line feed. -/
theorem folded_feed_intercalate {lines : List (List Char)} (hne : lines ≠ [])
    (hlines : ∀ line ∈ lines, Folded ('\n' :: line)) :
    Folded ('\n' :: ",\n".toList.intercalate lines) := by
  induction lines with
  | nil => exact absurd rfl hne
  | cons line rest ih =>
    cases rest with
    | nil => simpa using hlines line (by simp)
    | cons next rest =>
      have hrest := ih (by simp) fun other hmem => hlines other (by simp [hmem])
      have hcomma : Folded [','] := .of_unbroken (by decide)
      have hall := ((hlines line (by simp)).append hcomma).append hrest
      simpa [List.intercalate_cons_cons] using hall

theorem folded_arguments {head : String} {parts : List String} {closing : String}
    (hhead : Unbroken head.toList) (hclosing : Unbroken closing.toList)
    (hparts : ∀ part ∈ parts, Folded part.toList) :
    Folded (head ++ ", ".intercalate parts ++ closing).toList := by
  rw [String.toList_append, String.toList_append, String.toList_intercalate]
  refine ((Folded.of_unbroken hhead).append ?_).append (.of_unbroken hclosing)
  refine folded_intercalate (.of_unbroken (by decide)) ?_
  intro part hpart
  obtain ⟨text, hmem, rfl⟩ := List.mem_map.1 hpart
  exact hparts text hmem

mutual

/-- The code of an expression goes over to a new line only to continue it. -/
theorem folded_render : (expr : Expr) → (level : Int) → {text : String} →
    expr.keepsLines = true → expr.render level = .ok text → Folded text.toList
  | .absent, level, text, _, h => by
    rw [render] at h
    cases h
    trivial
  | .bare, level, text, _, h => by
    rw [render] at h
    cases h
  | .ref name, level, text, hkeeps, h => by
    rw [render] at h
    cases h
    rw [keepsLines, decide_eq_true_eq] at hkeeps
    exact .of_unbroken hkeeps
  | .raw code, level, text, hkeeps, h => by
    rw [render] at h
    cases h
    rw [keepsLines, decide_eq_true_eq] at hkeeps
    exact .of_unbroken hkeeps
  | .call name args options, level, text, hkeeps, h => by
    rw [render] at h
    obtain ⟨texts, htexts, h⟩ := bind_eq_ok_iff.1 h
    cases h
    simp only [keepsLines, Bool.and_eq_true, decide_eq_true_eq] at hkeeps
    have hargs := folded_renderAll args level hkeeps.2 htexts
    refine folded_arguments (by simp [String.toList_append, hkeeps.1.1]; decide) (by decide) ?_
    intro part hpart
    split at hpart
    · exact hargs part hpart
    · rcases List.mem_append.1 hpart with hmem | hmem
      · exact hargs part hmem
      · rw [List.mem_singleton.1 hmem]
        exact .of_unbroken (Options.unbroken_render hkeeps.1.2)
  | .apply callee args, level, text, hkeeps, h => by
    rw [render] at h
    obtain ⟨texts, htexts, h⟩ := bind_eq_ok_iff.1 h
    cases h
    simp only [keepsLines, Bool.and_eq_true, decide_eq_true_eq] at hkeeps
    exact folded_arguments (by simp [String.toList_append, hkeeps.1]; decide) (by decide)
      (folded_renderAll args level hkeeps.2 htexts)
  | .array items, level, text, hkeeps, h => by
    rw [render] at h
    obtain ⟨texts, htexts, h⟩ := bind_eq_ok_iff.1 h
    cases h
    rw [keepsLines] at hkeeps
    exact folded_arguments (by decide) (by decide) (folded_renderAll items level hkeeps htexts)
  | .object fields, level, text, hkeeps, h => by
    rw [render] at h
    obtain ⟨lines, hlines, h⟩ := bind_eq_ok_iff.1 h
    rw [keepsLines] at hkeeps
    have hfields := folded_renderFields fields level hkeeps hlines
    cases lines with
    | nil =>
      cases h
      exact .of_unbroken (by decide)
    | cons line rest =>
      cases h
      have hopen : Folded ['{'] := .of_unbroken (by decide)
      have hbody :
          Folded ('\n' :: ",\n".toList.intercalate ((line :: rest).map String.toList)) := by
        refine folded_feed_intercalate (by simp) ?_
        intro other hmem
        obtain ⟨code, hcode, rfl⟩ := List.mem_map.1 hmem
        exact hfields code hcode
      have hclose : Folded ('\n' :: (List.replicate (2 * level.toNat) ' ' ++ ['}'])) :=
        folded_feed ⟨_, _, .brace, List.prefix_refl _⟩
          (.of_unbroken (unbroken_append.2 ⟨unbroken_replicate _, by decide⟩))
      have hall := (hopen.append hbody).append hclose
      simpa [String.toList_append, String.toList_intercalate, toList_indentation] using hall
  | .recursive name body, level, text, hkeeps, h => by
    rw [render] at h
    obtain ⟨code, hcode, h⟩ := bind_eq_ok_iff.1 h
    cases h
    simp only [keepsLines, Bool.and_eq_true, decide_eq_true_eq] at hkeeps
    have hbody := folded_render body level hkeeps.2 hcode
    simp only [String.toList_append]
    refine Folded.append (Folded.append (.of_unbroken ?_) hbody) (.of_unbroken (by decide))
    simp only [unbroken_append]
    exact ⟨⟨by decide, hkeeps.1⟩, by decide⟩

/-- The same for several expressions. -/
theorem folded_renderAll : (exprs : List Expr) → (level : Int) → {texts : List String} →
    keepsLinesAll exprs = true → renderAll level exprs = .ok texts →
    ∀ text ∈ texts, Folded text.toList
  | [], level, texts, _, h => by
    rw [renderAll] at h
    cases h
    simp
  | expr :: rest, level, texts, hkeeps, h => by
    rw [renderAll] at h
    obtain ⟨code, hcode, h⟩ := bind_eq_ok_iff.1 h
    obtain ⟨codes, hcodes, h⟩ := bind_eq_ok_iff.1 h
    cases h
    rw [keepsLinesAll, Bool.and_eq_true] at hkeeps
    intro text hmem
    rcases List.mem_cons.1 hmem with rfl | hmem
    · exact folded_render expr level hkeeps.1 hcode
    · exact folded_renderAll rest level hkeeps.2 hcodes text hmem

/-- The same for the lines of fields, each after a line feed. -/
theorem folded_renderFields : (fields : List (String × Expr)) → (level : Int) →
    {lines : List String} → keepsLinesFields fields = true →
    renderFields level fields = .ok lines → ∀ line ∈ lines, Folded ('\n' :: line.toList)
  | [], level, lines, _, h => by
    rw [renderFields] at h
    cases h
    simp
  | (name, value) :: rest, level, lines, hkeeps, h => by
    rw [renderFields] at h
    obtain ⟨code, hcode, h⟩ := bind_eq_ok_iff.1 h
    obtain ⟨codes, hcodes, h⟩ := bind_eq_ok_iff.1 h
    cases h
    simp only [keepsLinesFields, Bool.and_eq_true, decide_eq_true_eq] at hkeeps
    intro line hmem
    rcases List.mem_cons.1 hmem with rfl | hmem
    · exact folded_feed (continues_fieldLine hkeeps.1.1.2 level code)
        (folded_fieldLine hkeeps.1.1.1 level (folded_render value (level + 1) hkeeps.1.2 hcode))
    · exact folded_renderFields rest level hkeeps.2 hcodes line hmem

end

end Expr

end Schemata

import Mathlib.Logic.Function.Iterate
import Schemata.Proofs.Schema.Folding
import Schemata.Proofs.Schema.Nesting

/-!
# Blocks inside of blocks

The code of a declaration stands in the code of the file on lines of its own. A namespace moves the
lines inside of it to the right, and with them what a declaration keeps over several lines, so deep
in a file a block is found with other white space where its lines begin, and otherwise as it is.
-/

namespace Schemata.Text

/-! ### Other white space at line ends -/

/-- The second text is the first one with other white space where its lines end. -/
inductive Relined : List Char → List Char → Prop where
  | nil : Relined [] []
  | keep (c : Char) {old new : List Char} (h : Relined old new) : Relined (c :: old) (c :: new)
  | boundary {c : Char} {gap old new : List Char} (hc : isLineBreak c = true)
      (hgap : ∀ d ∈ gap, isBlank d = true) (h : Relined old new) : Relined (c :: old) (gap ++ new)

namespace Relined

variable {old new : List Char}

theorem refl (chars : List Char) : Relined chars chars := by
  induction chars with
  | nil => exact .nil
  | cons c chars ih => exact .keep c ih

theorem exists_append {first second : List Char} (h : Relined (first ++ second) new) :
    ∃ first' second', new = first' ++ second' ∧ Relined first first' ∧
      Relined second second' := by
  induction first generalizing new with
  | nil => exact ⟨[], new, rfl, .nil, h⟩
  | cons c first ih =>
    rw [List.cons_append] at h
    cases h with
    | keep _ h =>
      obtain ⟨first', second', rfl, hfirst, hsecond⟩ := ih h
      exact ⟨c :: first', second', rfl, .keep c hfirst, hsecond⟩
    | boundary hc hgap h =>
      obtain ⟨first', second', rfl, hfirst, hsecond⟩ := ih h
      exact ⟨_, second', (List.append_assoc ..).symm, .boundary hc hgap hfirst, hsecond⟩

theorem eq_of_unbroken (h : Relined old new) (hold : Unbroken old) : new = old := by
  induction h with
  | nil => rfl
  | keep c h ih => rw [ih (unbroken_cons.1 hold).2]
  | boundary hc hgap h ih =>
    rw [(unbroken_cons.1 hold).1] at hc
    cases hc

theorem exists_of_unbroken {first second : List Char} (h : Relined (first ++ second) new)
    (hfirst : Unbroken first) : ∃ second', new = first ++ second' ∧ Relined second second' := by
  obtain ⟨first', second', rfl, hfirst', hsecond⟩ := h.exists_append
  exact ⟨second', by rw [hfirst'.eq_of_unbroken hfirst], hsecond⟩

theorem blank (h : Relined old new) (hold : ∀ c ∈ old, isBlank c = true) :
    ∀ c ∈ new, isBlank c = true := by
  induction h with
  | nil => exact hold
  | keep c h ih =>
    rw [List.forall_mem_cons] at hold ⊢
    exact ⟨hold.1, ih hold.2⟩
  | boundary hc hgap h ih =>
    rw [List.forall_mem_cons] at hold
    exact List.forall_mem_append.2 ⟨hgap, ih hold.2⟩

theorem trans {between : List Char} (h : Relined old between) (h' : Relined between new) :
    Relined old new := by
  induction h generalizing new with
  | nil => exact h'
  | keep c h ih =>
    cases h' with
    | keep _ h' => exact .keep c (ih h')
    | boundary hc hgap h' => exact .boundary hc hgap (ih h')
  | boundary hc hgap h ih =>
    obtain ⟨gap', new', rfl, hgap', h'⟩ := h'.exists_append
    exact .boundary hc (hgap'.blank hgap) (ih h')

theorem mem_of_mem (h : Relined old new) {c : Char} (hc : isLineBreak c = false)
    (hmem : c ∈ old) : c ∈ new := by
  obtain ⟨front, back, rfl⟩ := List.append_of_mem hmem
  obtain ⟨front', back', rfl, -, hback⟩ := h.exists_append
  obtain ⟨rest, rfl, -⟩ := exists_of_unbroken (show Relined ([c] ++ back) back' from hback)
    (by simpa using hc)
  simp

theorem head_dropBlanks (h : Relined old new) :
    (dropBlanks new).head? = (dropBlanks old).head? := by
  induction h with
  | nil => rfl
  | keep c h ih =>
    cases hblank : isBlank c with
    | true => simpa [dropBlanks, hblank] using ih
    | false => simp [dropBlanks, hblank]
  | @boundary c gap old new hc hgap h ih =>
    have hblank := isBlank_of_isLineBreak hc
    rw [dropBlanks, List.dropWhile_append_of_pos hgap, dropBlanks, List.dropWhile_cons,
      if_pos hblank]
    exact ih

end Relined

/-! ### Lines of one's own -/

/-- A text stands in another one on lines of its own. -/
def StandsOnLines (text whole : List Char) : Prop :=
  ∃ front back, whole = front ++ (text ++ back) ∧
    (front = [] ∨ ∃ rest, front = rest ++ ['\n']) ∧ (back = [] ∨ ∃ rest, back = '\n' :: rest)

theorem StandsOnLines.refl (text : List Char) : StandsOnLines text text :=
  ⟨[], [], by simp, Or.inl rfl, Or.inl rfl⟩

theorem StandsOnLines.trans {text between whole : List Char} (h : StandsOnLines text between)
    (h' : StandsOnLines between whole) : StandsOnLines text whole := by
  obtain ⟨front, back, rfl, hfront, hback⟩ := h
  obtain ⟨front', back', rfl, hfront', hback'⟩ := h'
  refine ⟨front' ++ front, back ++ back', by simp, ?_, ?_⟩
  · rcases hfront with rfl | ⟨rest, rfl⟩
    · simpa using hfront'
    · exact Or.inr ⟨front' ++ rest, by simp⟩
  · rcases hback with rfl | ⟨rest, rfl⟩
    · simpa using hback'
    · exact Or.inr ⟨rest ++ back', rfl⟩

theorem intercalate_append {α : Type} {separator : List α} {first second : List (List α)}
    (hfirst : first ≠ []) (hsecond : second ≠ []) :
    separator.intercalate (first ++ second) =
      separator.intercalate first ++ (separator ++ separator.intercalate second) := by
  induction first with
  | nil => exact absurd rfl hfirst
  | cons part rest ih =>
    cases rest with
    | nil =>
      obtain ⟨next, more, rfl⟩ := List.exists_cons_of_ne_nil hsecond
      simp
    | cons next rest =>
      rw [List.cons_append, List.cons_append, List.intercalate_cons_cons, ← List.cons_append,
        ih (by simp), List.intercalate_cons_cons]
      simp

/-- One of several parts with separators between them. -/
theorem exists_intercalate_of_mem {α : Type} (separator : List α) {text : List α}
    {texts : List (List α)} (h : text ∈ texts) :
    ∃ opening closing, separator.intercalate texts = opening ++ (text ++ closing) ∧
      (opening = [] ∨ ∃ more, opening = more ++ separator) ∧
      (closing = [] ∨ ∃ more, closing = separator ++ more) := by
  obtain ⟨before, after, rfl⟩ := List.append_of_mem h
  have hafter : ∃ closing, separator.intercalate (text :: after) = text ++ closing ∧
      (closing = [] ∨ ∃ more, closing = separator ++ more) := by
    cases after with
    | nil => exact ⟨[], by simp, Or.inl rfl⟩
    | cons next after =>
      exact ⟨separator ++ separator.intercalate (next :: after),
        by rw [List.intercalate_cons_cons, List.append_assoc], Or.inr ⟨_, rfl⟩⟩
  obtain ⟨closing, hclosing, hends⟩ := hafter
  cases before with
  | nil => exact ⟨[], closing, hclosing, Or.inl rfl, hends⟩
  | cons first before =>
    refine ⟨separator.intercalate (first :: before) ++ separator, closing, ?_,
      Or.inr ⟨_, rfl⟩, hends⟩
    rw [intercalate_append (List.cons_ne_nil _ _) (List.cons_ne_nil _ _), hclosing,
      List.append_assoc]

/-- Where line feeds stand between texts, some of them in a row stand on lines of their own. -/
theorem standsOnLines_intercalate {separator : List Char}
    (hfirst : ∃ rest, separator = '\n' :: rest) (hlast : ∃ rest, separator = rest ++ ['\n'])
    (before : List (List Char)) {texts : List (List Char)} (after : List (List Char))
    (hne : texts ≠ []) :
    StandsOnLines (separator.intercalate texts)
      (separator.intercalate (before ++ (texts ++ after))) := by
  have hafter : StandsOnLines (separator.intercalate texts)
      (separator.intercalate (texts ++ after)) := by
    cases after with
    | nil => simpa using StandsOnLines.refl _
    | cons text after =>
      obtain ⟨rest, rfl⟩ := hfirst
      exact ⟨[], _, intercalate_append hne (by simp), Or.inl rfl, Or.inr ⟨_, rfl⟩⟩
  refine hafter.trans ?_
  cases before with
  | nil => exact .refl _
  | cons text before =>
    obtain ⟨rest, rfl⟩ := hlast
    refine ⟨_, [], ?_, Or.inr ⟨(rest ++ ['\n']).intercalate (text :: before) ++ rest, rfl⟩,
      Or.inl rfl⟩
    rw [intercalate_append (by simp) (by simp [hne])]
    simp

/-! ### Moving lines to the right -/

/-- The lines of a text, each but the empty ones moved two blanks to the right. -/
def indented (chars : List Char) : List Char :=
  ['\n'].intercalate ((splitLines chars).map fun line => indentLine line.body)

theorem bodies_of_standsOnLines {text whole : List Char} (h : StandsOnLines text whole) :
    ∃ before after, (splitLines whole).map Line.body =
      before ++ ((splitLines text).map Line.body ++ after) := by
  obtain ⟨front, back, rfl, hfront, hback⟩ := h
  have hlines : ∃ after, (splitLines (text ++ back)).map Line.body =
      (splitLines text).map Line.body ++ after := by
    rcases hback with rfl | ⟨rest, rfl⟩
    · exact ⟨[], by simp⟩
    · rw [splitLines_feed_append, List.map_append]
      rcases bodies_splitLines_feed text with hsame | hmore
      · exact ⟨_, by rw [hsame]⟩
      · exact ⟨_, by rw [hmore, List.append_assoc]⟩
  obtain ⟨after, hafter⟩ := hlines
  rcases hfront with rfl | ⟨rest, rfl⟩
  · exact ⟨[], after, hafter⟩
  · refine ⟨(splitLines (rest ++ ['\n'])).map Line.body, after, ?_⟩
    rw [List.append_assoc, List.singleton_append, splitLines_feed_append, List.map_append, hafter]

/-- What stands on lines of its own does so when all lines are moved. -/
theorem StandsOnLines.indented {text whole : List Char} (h : StandsOnLines text whole)
    (hne : text ≠ []) : StandsOnLines (indented text) (indented whole) := by
  obtain ⟨before, after, hbodies⟩ := bodies_of_standsOnLines h
  have hmap : ∀ chars, (splitLines chars).map (fun line => indentLine line.body) =
      ((splitLines chars).map Line.body).map indentLine := by simp
  rw [Text.indented, Text.indented, hmap whole, hbodies, List.map_append, List.map_append, ← hmap]
  refine standsOnLines_intercalate ⟨[], rfl⟩ ⟨[], rfl⟩ _ _ ?_
  simpa using splitLines_ne_nil hne

/-- A text with its lines moved but for the first one. -/
def hanging (chars : List Char) : List Char :=
  match splitLines chars with
  | [] => []
  | line :: lines => line.body ++ lines.flatMap fun other => '\n' :: indentLine other.body

theorem intercalate_cons_eq (line : List Char) (lines : List (List Char)) :
    ['\n'].intercalate (line :: lines) = line ++ lines.flatMap ('\n' :: ·) := by
  induction lines generalizing line with
  | nil => simp
  | cons next lines ih =>
    rw [List.intercalate_cons_cons, ih, List.flatMap_cons]
    simp

theorem indented_eq (chars : List Char) :
    ∃ gap, indented chars = gap ++ hanging chars ∧ ∀ c ∈ gap, isBlank c = true := by
  rw [indented, hanging]
  cases splitLines chars with
  | nil => exact ⟨[], rfl, by simp⟩
  | cons line lines =>
    simp only [List.map_cons, intercalate_cons_eq, List.flatMap_map]
    rw [indentLine]
    split
    · exact ⟨[], rfl, by simp⟩
    · exact ⟨[' ', ' '], rfl, List.all_eq_true.1 rfl⟩

theorem relined_hanging (chars : List Char) : Relined chars (hanging chars) := by
  -- behind a line boundary the text goes on with white space and the next line
  have hboundary : ∀ {c : Char} {rest : List Char}, isLineBreak c = true →
      Relined rest (hanging rest) → Relined (c :: rest)
        ((splitLines rest).flatMap fun other => '\n' :: indentLine other.body) := by
    intro c rest hc h
    rw [hanging] at h
    cases hlines : splitLines rest with
    | nil =>
      rw [hlines] at h
      exact .boundary hc (by simp : ∀ d ∈ ([] : List Char), isBlank d = true) h
    | cons line lines =>
      rw [hlines] at h
      rw [List.flatMap_cons, indentLine]
      split
      · exact @Relined.boundary c ['\n'] _ _ hc (List.all_eq_true.1 rfl) h
      · exact @Relined.boundary c ['\n', ' ', ' '] _ _ hc (List.all_eq_true.1 rfl) h
  fun_induction splitLines chars with
  | case1 => exact .nil
  | case2 rest ih =>
    have hreturn : Relined ('\r' :: '\n' :: rest) ([] ++ _) :=
      .boundary (by decide) (by simp) (hboundary (c := '\n') (by decide) ih)
    simpa [hanging, splitLines] using hreturn
  | case3 c rest hrest hbreak ih =>
    have hhanging : hanging (c :: rest) =
        (splitLines rest).flatMap fun other => '\n' :: indentLine other.body := by
      rw [hanging, splitLines.eq_3 c rest hrest, if_pos hbreak]
      rfl
    rw [hhanging]
    exact hboundary hbreak ih
  | case4 c rest hrest hbreak hnil ih =>
    have hhanging : hanging (c :: rest) = c :: hanging rest := by
      rw [hanging, splitLines_cons (by simpa using hbreak), hanging, hnil]
      rfl
    rw [hhanging]
    exact .keep c ih
  | case5 c rest hrest hbreak line lines hcons ih =>
    have hhanging : hanging (c :: rest) = c :: hanging rest := by
      rw [hanging, splitLines_cons (by simpa using hbreak), hanging, hcons]
      rfl
    rw [hhanging]
    exact .keep c ih

/-- However often all lines are moved, the text is there, behind white space and with other white
space where its lines end. -/
theorem exists_shown (text : List Char) (depth : Nat) :
    ∃ gap shown, indented^[depth] text = gap ++ shown ∧ (∀ c ∈ gap, isBlank c = true) ∧
      Relined text shown := by
  induction depth with
  | zero => exact ⟨[], text, rfl, by simp, .refl text⟩
  | succ depth ih =>
    obtain ⟨gap, shown, hmoved, hgap, hshown⟩ := ih
    obtain ⟨lead, hindented, hlead⟩ := indented_eq (gap ++ shown)
    obtain ⟨gap', shown', hsplit, hgap', hshown'⟩ := (relined_hanging (gap ++ shown)).exists_append
    refine ⟨lead ++ gap', shown', ?_, List.forall_mem_append.2 ⟨hlead, hgap'.blank hgap⟩,
      hshown.trans hshown'⟩
    rw [Function.iterate_succ_apply', hmoved, hindented, hsplit, List.append_assoc]

/-- There is something on the lines of a text. -/
def Filled (text : List Char) : Prop := ∃ c ∈ text, isLineBreak c = false

theorem Filled.iterate {text : List Char} (h : Filled text) (depth : Nat) :
    Filled (indented^[depth] text) := by
  obtain ⟨gap, shown, hmoved, -, hshown⟩ := exists_shown text depth
  obtain ⟨c, hmem, hc⟩ := h
  exact ⟨c, by simp [hmoved, hshown.mem_of_mem hc hmem], hc⟩

theorem Filled.ne_nil {text : List Char} (h : Filled text) : text ≠ [] := by
  obtain ⟨c, hmem, -⟩ := h
  exact List.ne_nil_of_mem hmem

theorem StandsOnLines.iterate {text whole : List Char} (h : StandsOnLines text whole)
    (htext : Filled text) (depth : Nat) :
    StandsOnLines (Text.indented^[depth] text) (Text.indented^[depth] whole) := by
  induction depth with
  | zero => exact h
  | succ depth ih =>
    rw [Function.iterate_succ_apply', Function.iterate_succ_apply']
    exact ih.indented (htext.iterate depth).ne_nil

theorem indented_cons {c : Char} (hc : isLineBreak c = false) (rest : List Char) :
    indented (c :: rest) = ' ' :: ' ' :: hanging (c :: rest) := by
  rw [indented, hanging, splitLines_cons hc]
  cases splitLines rest with
  | nil => simp [indentLine]
  | cons line lines => simp [intercalate_cons_eq, List.flatMap_map, Line.cons, indentLine]

/-- The first line of a text is moved by two blanks each time. -/
theorem exists_iterate_indented {first : List Char} (h : Unbroken first) (hne : first ≠ [])
    (rest : List Char) (depth : Nat) :
    ∃ rest', indented^[depth] (first ++ rest) =
      List.replicate (2 * depth) ' ' ++ (first ++ rest') := by
  induction depth with
  | zero => exact ⟨rest, rfl⟩
  | succ depth ih =>
    obtain ⟨moved, hmoved⟩ := ih
    have hline : Unbroken (List.replicate (2 * depth) ' ' ++ first) := by
      rw [unbroken_append]
      refine ⟨fun c hc => ?_, h⟩
      rw [(List.mem_replicate.1 hc).2]
      decide
    obtain ⟨c, line, hcons⟩ := List.exists_cons_of_ne_nil
      (show List.replicate (2 * depth) ' ' ++ first ≠ [] by simp [hne])
    rw [← List.append_assoc, hcons] at hmoved
    rw [hcons] at hline
    obtain ⟨rest', hrest, -⟩ := Relined.exists_of_unbroken
      (show Relined ((c :: line) ++ moved) _ from relined_hanging (c :: (line ++ moved))) hline
    refine ⟨rest', ?_⟩
    rw [Function.iterate_succ_apply', hmoved, List.cons_append,
      indented_cons (unbroken_cons.1 hline).1, hrest, ← hcons]
    simp [Nat.mul_succ, List.replicate_succ]

theorem StandsOnLines.filled {text whole : List Char} (h : StandsOnLines text whole)
    (htext : Filled text) : Filled whole := by
  obtain ⟨front, back, rfl, -, -⟩ := h
  obtain ⟨c, hmem, hc⟩ := htext
  exact ⟨c, by simp [hmem], hc⟩

end Schemata.Text

namespace Schemata

open Text

theorem toList_indentLines (text : String) : (indentLines text).toList = indented text.toList := by
  rw [indentLines, indented, Text.join, String.toList_intercalate, lineTexts, List.map_map,
    List.map_map]
  congr 2
  funext line
  cases hbody : line.body with
  | nil => simp [indentLine, hbody]
  | cons c body => simp [indentLine, hbody]

/-- A text is shown in another one: on lines of its own, moved to the right, and with other white
space where its lines end. -/
def ShownIn (text whole : List Char) : Prop :=
  ∃ gap shown, (∀ c ∈ gap, isBlank c = true) ∧ Relined text shown ∧
    StandsOnLines (gap ++ shown) whole

theorem standsOnLines_of_mem {texts : List String} {text : String} (h : text ∈ texts) :
    StandsOnLines text.toList (Text.join "\n\n" texts).toList := by
  obtain ⟨before, after, rfl⟩ := List.append_of_mem h
  have hstands := @standsOnLines_intercalate "\n\n".toList ⟨['\n'], rfl⟩ ⟨['\n'], rfl⟩
    (before.map String.toList) [text.toList] (after.map String.toList) (by simp)
  rw [Text.join, String.toList_intercalate]
  simpa using hstands

theorem standsOnLines_scope {name keyword body : String} {exported : Bool}
    (hbody : indentLines body ≠ "") :
    StandsOnLines (indentLines body).toList (scopeText name exported keyword body).toList := by
  refine ⟨(exportWord exported ++ keyword ++ " " ++ name ++ " \x7b\n").toList, "\n\x7d".toList, ?_,
    Or.inr ⟨(exportWord exported ++ keyword ++ " " ++ name ++ " \x7b").toList, ?_⟩,
    Or.inr ⟨['}'], rfl⟩⟩
  · rw [scopeText]
    simp [hbody, String.toList_append]
  · simp [String.toList_append]

namespace Declaration

theorem renderAll_cons_eq_ok {member : Declaration} {rest : List Declaration}
    {texts : List String} (h : renderAll (member :: rest) = .ok texts) :
    ∃ text more, member.render = .ok text ∧ renderAll rest = .ok more ∧ texts = text :: more := by
  rw [renderAll] at h
  obtain ⟨text, htext, h⟩ := bind_eq_ok_iff.1 h
  obtain ⟨more, hmore, h⟩ := bind_eq_ok_iff.1 h
  cases h
  exact ⟨text, more, htext, hmore, rfl⟩

theorem exists_text_of_mem {body : List Declaration} {texts : List String}
    (h : renderAll body = .ok texts) {member : Declaration} (hmember : member ∈ body) :
    ∃ text ∈ texts, member.render = .ok text := by
  induction body generalizing texts with
  | nil => cases hmember
  | cons first rest ih =>
    obtain ⟨text, more, htext, hmore, rfl⟩ := renderAll_cons_eq_ok h
    rcases List.mem_cons.1 hmember with rfl | hmember
    · exact ⟨text, List.mem_cons_self, htext⟩
    · obtain ⟨other, hother, hrender⟩ := ih hmore hmember
      exact ⟨other, List.mem_cons_of_mem _ hother, hrender⟩

/-- The code of a declaration stands on lines of its own in the code of one around it, moved once
for each namespace between them. -/
theorem NestedAt.standsOnLines {inner outer : Declaration} {depth : Nat}
    (h : NestedAt inner depth outer) {whole : String} (hwhole : outer.render = .ok whole) :
    ∃ text, inner.render = .ok text ∧
      (Filled text.toList → StandsOnLines (indented^[depth] text.toList) whole.toList) := by
  induction h generalizing whole with
  | self => exact ⟨whole, hwhole, fun _ => .refl _⟩
  | @inside depth name keyword exported body member hmember h ih =>
    rw [render] at hwhole
    obtain ⟨texts, htexts, hwhole⟩ := bind_eq_ok_iff.1 hwhole
    cases hwhole
    obtain ⟨block, hblock, hrender⟩ := exists_text_of_mem htexts hmember
    obtain ⟨text, htext, hstands⟩ := ih hrender
    refine ⟨text, htext, fun hfilled => ?_⟩
    have hmoved := ((hstands hfilled).trans (standsOnLines_of_mem hblock)).indented
      (hfilled.iterate depth).ne_nil
    rw [← Function.iterate_succ_apply' indented, ← toList_indentLines] at hmoved
    refine hmoved.trans (standsOnLines_scope ?_)
    intro hempty
    have hne := (hmoved.filled (hfilled.iterate _)).ne_nil
    rw [hempty] at hne
    exact hne rfl

end Declaration

/-- Each declaration of a file, at any depth, stands in the code of the file. -/
theorem Module.standsOnLines_render {module : Module} {library code : String}
    (hcode : module.render library = .ok code) {declaration : Declaration}
    (hdeclaration : declaration ∈ Declaration.nestedOf module.declarations) :
    ∃ text, declaration.render = .ok text ∧ (Filled text.toList →
      ∃ depth, StandsOnLines (indented^[depth] text.toList) code.toList) := by
  rw [render] at hcode
  obtain ⟨texts, htexts, hcode⟩ := bind_eq_ok_iff.1 hcode
  cases hcode
  obtain ⟨outer, houter, depth, hnested⟩ :=
    Declaration.exists_nestedAt_of_mem_nestedOf module.declarations hdeclaration
  obtain ⟨block, hblock, hrender⟩ := Declaration.exists_text_of_mem htexts houter
  obtain ⟨text, htext, hstands⟩ := hnested.standsOnLines hrender
  refine ⟨text, htext, fun hfilled => ⟨depth, ?_⟩⟩
  -- the block is not left out, since something stands in it
  have hne : block ≠ "" := by
    rintro rfl
    have hwhole := hstands hfilled
    exact (hwhole.filled (hfilled.iterate depth)).ne_nil rfl
  have hkept : block ∈ (module.header library :: texts).filter (· != "") := by
    simpa [hblock] using hne
  refine ((hstands hfilled).trans (standsOnLines_of_mem hkept)).trans ?_
  exact ⟨[], ['\n'], by simp [String.toList_append], Or.inl rfl, Or.inr ⟨[], rfl⟩⟩

/-- So it is shown in the code of the file. -/
theorem Module.shownIn_render {module : Module} {library code : String}
    (hcode : module.render library = .ok code) {declaration : Declaration}
    (hdeclaration : declaration ∈ Declaration.nestedOf module.declarations) {text : String}
    (htext : declaration.render = .ok text) (hfilled : Filled text.toList) :
    ShownIn text.toList code.toList := by
  obtain ⟨own, hown, hstands⟩ := module.standsOnLines_render hcode hdeclaration
  rw [htext] at hown
  cases hown
  obtain ⟨depth, hplace⟩ := hstands hfilled
  obtain ⟨gap, shown, hmoved, hgap, hshown⟩ := exists_shown text.toList depth
  exact ⟨gap, shown, hgap, hshown, hmoved ▸ hplace⟩

end Schemata

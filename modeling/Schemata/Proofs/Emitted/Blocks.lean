import Schemata.Proofs.Emitted.StaticLines

/-!
# Blocks of emitted code

Each declaration is rendered as a block of lines. A block is laid out as a list of emitted lines
whose text is the code of the declaration and whose lines that are no static type lines are the code
of its values. Namespaces indent the blocks inside them, and blank lines stand between blocks, so
blocks are put together as the declarations are.
-/

namespace Schemata

open Text Emitted

/-- Lines, their text, and the text of those that are no static type lines. -/
structure Laid (lines : List EmittedLine) (text values : String) : Prop where
  text_eq : text.toList ++ ['\n'] = linesText lines
  values_eq : values.toList ++ ['\n'] = linesText (keptLines lines)
  ends : ∃ init last, lines = init ++ [last] ∧ last.isStatic = false ∧ last.chars ≠ []

/-- Some line that is left bounds a type parameter. -/
def BoundsParameter (lines : List EmittedLine) : Prop :=
  ∃ line ∈ keptLines lines, " TSchema>".toList <:+: line.chars

namespace Laid

variable {lines others : List EmittedLine} {text values text' values' : String}

theorem join (h : Laid lines text values) (h' : Laid others text' values') :
    Laid (lines ++ EmittedLine.blank :: others) (text ++ "\n\n" ++ text')
      (values ++ "\n\n" ++ values') where
  text_eq := by
    rw [linesText_append, linesText_cons, ← h.text_eq, ← h'.text_eq]
    simp [String.toList_append]
  values_eq := by
    rw [keptLines_append, keptLines_cons_of_kept rfl, linesText_append, linesText_cons,
      ← h.values_eq, ← h'.values_eq]
    simp [String.toList_append]
  ends := by
    obtain ⟨init, last, rfl, hkept, hne⟩ := h'.ends
    exact ⟨lines ++ EmittedLine.blank :: init, last, by simp, hkept, hne⟩

/-- The last line is there in both texts. -/
theorem text_ne_empty (h : Laid lines text values) : text ≠ "" ∧ values ≠ "" := by
  obtain ⟨init, last, rfl, hkept, hne⟩ := h.ends
  obtain ⟨c, rest, hlast⟩ := List.exists_cons_of_ne_nil hne
  constructor
  · rintro rfl
    have htext := congrArg List.length h.text_eq
    simp [hlast] at htext
    omega
  · rintro rfl
    have hvalues := congrArg List.length h.values_eq
    rw [keptLines_append, keptLines_cons_of_kept hkept] at hvalues
    simp [hlast] at hvalues
    omega

theorem indentLines_eq {text : String} {init : List EmittedLine} {last : EmittedLine}
    (htext : text.toList ++ ['\n'] = linesText (init ++ [last])) (hne : last.chars ≠ []) :
    (indentLines text).toList ++ ['\n'] =
      linesText ((init ++ [last]).map EmittedLine.indent) := by
  have hchars : text.toList ++ ['\n'] = unlines (init.map (·.chars) ++ [last.chars]) := by
    rw [htext, linesText]
    simp
  rw [indentLines_append_feed hchars _ hne, linesText]
  · exact congrArg unlines (by simp [EmittedLine.indent, Function.comp_def])
  · intro line hmem
    rw [← List.map_singleton, ← List.map_append] at hmem
    obtain ⟨emitted, -, rfl⟩ := List.mem_map.1 hmem
    exact emitted.unbroken

theorem indent (h : Laid lines text values) :
    Laid (lines.map EmittedLine.indent) (indentLines text) (indentLines values) := by
  obtain ⟨init, last, rfl, hkept, hne⟩ := h.ends
  refine ⟨indentLines_eq h.text_eq hne, ?_, init.map EmittedLine.indent, last.indent, by simp,
    hkept, ?_⟩
  · have hvalues := h.values_eq
    rw [keptLines_append, keptLines_cons_of_kept hkept] at hvalues
    rw [keptLines_map_indent, keptLines_append, keptLines_cons_of_kept hkept]
    exact indentLines_eq hvalues hne
  · obtain ⟨c, rest, hlast⟩ := List.exists_cons_of_ne_nil hne
    simp [EmittedLine.indent, indentLine, hlast]

end Laid

/-- The block of a namespace: its lines stand two blanks deeper between the braces. -/
theorem Laid.scope {lines : List EmittedLine} {text values : String} (h : Laid lines text values)
    {keyword : String} (hkeyword : keyword ∈ ["const", "enum", "namespace", "module"])
    (exported : Bool) {name : String} (hname : Unbroken (name.toList ++ " \x7b".toList)) :
    Laid (EmittedLine.keyword hkeyword exported hname :: lines.map EmittedLine.indent ++
      [EmittedLine.closing]) (scopeText name exported keyword text)
      (scopeText name exported keyword values) := by
  have hinner := h.indent
  obtain ⟨htext, hvalues⟩ := hinner.text_ne_empty
  refine ⟨?_, ?_, _, _, rfl, rfl, by decide⟩
  · rw [linesText_append, linesText_cons, ← hinner.text_eq, scopeText]
    simp [htext, String.toList_append, keywordLine]
  · rw [List.cons_append, keptLines_cons_of_kept rfl, keptLines_append, keptLines_cons_of_kept rfl,
      linesText_cons, linesText_append, ← hinner.values_eq, scopeText]
    simp [hvalues, String.toList_append, keywordLine, keptLines]

theorem laid_emptyScope {keyword : String}
    (hkeyword : keyword ∈ ["const", "enum", "namespace", "module"]) (exported : Bool)
    {name : String} (hname : Unbroken (name.toList ++ " \x7b".toList)) :
    Laid [EmittedLine.keyword hkeyword exported hname, EmittedLine.closing]
      (scopeText name exported keyword "") (scopeText name exported keyword "") := by
  have htext : (scopeText name exported keyword "").toList ++ ['\n'] =
      linesText [EmittedLine.keyword hkeyword exported hname, EmittedLine.closing] := by
    have hinner : indentLines "" = "" := rfl
    rw [scopeText, hinner]
    simp [String.toList_append, keywordLine]
  exact ⟨htext, htext, [_], _, rfl, rfl, by decide⟩

/-- The block of an enumeration has no static type line. -/
theorem laid_enumeration {name : String} (hname : Unbroken name.toList) (exported : Bool)
    {members : List String} (hmembers : ∀ member ∈ members, Unbroken member.toList) :
    ∃ lines, Laid lines (enumerationText name exported members)
      (enumerationText name exported members) := by
  have hlist : Unbroken (", ".intercalate members).toList := by
    rw [String.toList_intercalate]
    refine unbroken_intercalate (by decide) ?_
    intro part hpart
    obtain ⟨member, hmem, rfl⟩ := List.mem_map.1 hpart
    exact hmembers member hmem
  obtain ⟨body, hbody, hunbroken⟩ : ∃ body : String,
      (if ", ".intercalate members == "" then "\x7b\x7d"
        else "\x7b " ++ ", ".intercalate members ++ " \x7d") = body ∧ Unbroken body.toList := by
    refine ⟨_, rfl, ?_⟩
    split
    · decide
    · simp only [String.toList_append, unbroken_append]
      exact ⟨⟨by decide, hlist⟩, by decide⟩
  have hopen : Unbroken (name.toList ++ ("Enum ".toList ++ body.toList)) := by
    simp only [unbroken_append]
    exact ⟨hname, by decide, hunbroken⟩
  have hvalue : Unbroken (name.toList ++ (" = Type.Enum(".toList ++ (name.toList ++
      "Enum)".toList))) := by
    simp only [unbroken_append]
    exact ⟨hname, by decide, hname, by decide⟩
  refine ⟨[EmittedLine.keyword (by simp : "enum" ∈ _) exported hopen, EmittedLine.blank,
    EmittedLine.keyword (by simp : "const" ∈ _) exported hvalue], ?_⟩
  have htext : (enumerationText name exported members).toList ++ ['\n'] = linesText
      [EmittedLine.keyword (by simp : "enum" ∈ _) exported hopen, EmittedLine.blank,
        EmittedLine.keyword (by simp : "const" ∈ _) exported hvalue] := by
    rw [enumerationText]
    simp only [hbody]
    simp [String.toList_append, keywordLine]
  exact ⟨htext, htext, [_, _], _, rfl, rfl, by simp [keywordLine]⟩

/-- What stands between the equals sign of a schema constant and its expression. -/
def parameterHead (parameters : List String) : List Char :=
  if parameters.isEmpty then []
  else '<' :: (boundParameters parameters ++ ">(".toList ++
    (", ".intercalate (parameters.map fun p => p ++ ": " ++ p)).toList ++ ") => ".toList)

theorem toList_valueLines (name : String) (exported : Bool) (parameters : List String)
    (body : String) :
    (valueLines name exported parameters body).toList = keywordLine exported "const"
      (name.toList ++ (" = ".toList ++ (parameterHead parameters ++ body.toList))) := by
  rw [valueLines, parameterHead, keywordLine]
  split <;> simp [String.toList_append, boundParameters]

theorem unbroken_parameterHead {parameters : List String}
    (h : ∀ parameter ∈ parameters, IsName parameter.toList) :
    Unbroken (parameterHead parameters) := by
  rw [parameterHead]
  split
  · simp
  · have harguments :
        Unbroken (", ".intercalate (parameters.map fun p => p ++ ": " ++ p)).toList := by
      rw [String.toList_intercalate]
      refine unbroken_intercalate (by decide) ?_
      intro part hpart
      simp only [List.map_map, List.mem_map, Function.comp_apply] at hpart
      obtain ⟨parameter, hmem, rfl⟩ := hpart
      simp only [String.toList_append, unbroken_append]
      exact ⟨⟨(h parameter hmem).unbroken, by decide⟩, (h parameter hmem).unbroken⟩
    simp only [unbroken_cons, unbroken_append]
    exact ⟨by decide, ⟨⟨unbroken_boundParameters h, by decide⟩, harguments⟩, by decide⟩

/-- The last type parameter has its bound in front of the closing bracket. -/
theorem bound_mem_boundParameters {parameters : List String} (hne : parameters ≠ [])
    (rest : List Char) :
    " TSchema>".toList <:+: boundParameters parameters ++ '>' :: rest := by
  induction parameters with
  | nil => exact absurd rfl hne
  | cons parameter others ih =>
    cases others with
    | nil => exact ⟨parameter.toList ++ " extends".toList, rest, by simp [boundParameters]⟩
    | cons next others =>
      have hcons : boundParameters (parameter :: next :: others) =
          (parameter ++ " extends TSchema, ").toList ++ boundParameters (next :: others) := by
        simp [boundParameters, String.intercalate_cons_cons]
      rw [hcons, List.append_assoc]
      exact List.infix_append_of_infix_right (ih (by simp))

theorem exists_continued {more : List (List Char)}
    (h : ∀ line ∈ more, Unbroken line ∧ Continues line) :
    ∃ lines : List EmittedLine, lines.map (·.chars) = more ∧
      ∀ line ∈ lines, line.isStatic = false ∧ line.chars ≠ [] := by
  induction more with
  | nil => exact ⟨[], rfl, by simp⟩
  | cons chars more ih =>
    obtain ⟨lines, rfl, hlines⟩ := ih fun line hmem => h line (by simp [hmem])
    obtain ⟨hunbroken, hcontinues⟩ := h chars (by simp)
    refine ⟨EmittedLine.continued hunbroken hcontinues :: lines, rfl, ?_⟩
    intro line hmem
    rcases List.mem_cons.1 hmem with rfl | hmem
    · refine ⟨rfl, ?_⟩
      exact hcontinues.ne_nil
    · exact hlines line hmem

/-- The block of a schema is its static type line and the lines of its value. -/
theorem laid_schema {name : String} (hname : IsName name.toList) (exported : Bool)
    {parameters : List String} (hparameters : ∀ parameter ∈ parameters, IsName parameter.toList)
    {body : String} (hbody : Folded body.toList) :
    ∃ lines, Laid lines
        (staticLine name exported parameters ++ "\n" ++ valueLines name exported parameters body)
        (valueLines name exported parameters body) ∧
      (parameters ≠ [] → BoundsParameter lines) := by
  obtain ⟨first, more, hlines, hfirst, hmore⟩ := hbody.exists_lines
  obtain ⟨continued, rfl, hcontinued⟩ := exists_continued hmore
  have hunbroken :
      Unbroken (name.toList ++ (" = ".toList ++ (parameterHead parameters ++ first))) := by
    simp only [unbroken_append]
    exact ⟨hname.unbroken, by decide, unbroken_parameterHead hparameters, hfirst⟩
  let value := EmittedLine.keyword (by simp : "const" ∈ _) exported hunbroken
  have hkept : keptLines (value :: continued) = value :: continued := by
    refine List.filter_eq_self.2 ?_
    intro line hmem
    rcases List.mem_cons.1 hmem with rfl | hmem
    · rfl
    · rw [(hcontinued line hmem).1]
      rfl
  have hvalue : (valueLines name exported parameters body).toList ++ ['\n'] =
      linesText (value :: continued) := by
    rw [toList_valueLines, keywordLine_append]
    simp only [List.append_assoc]
    rw [hlines, linesText_cons, linesText, EmittedLine.keyword_chars, keywordLine_append,
      unlines_cons]
    simp
  refine ⟨EmittedLine.static hname exported hparameters :: value :: continued, ⟨?_, ?_, ?_⟩, ?_⟩
  · rw [linesText_cons, ← hvalue]
    simp [String.toList_append, EmittedLine.static]
  · rw [keptLines_cons_of_static rfl, hkept, hvalue]
  · -- the last line is the value line or a continuation
    have hne : (value :: continued) ≠ [] := by simp
    refine ⟨EmittedLine.static hname exported hparameters :: (value :: continued).dropLast,
      (value :: continued).getLast hne, ?_, ?_⟩
    · rw [List.cons_append, List.dropLast_concat_getLast hne]
    · rcases List.mem_cons.1 (List.getLast_mem hne) with hlast | hlast
      · rw [hlast]
        exact ⟨rfl, by simp [value, keywordLine]⟩
      · exact hcontinued _ hlast
  · intro hgeneric
    refine ⟨value, by rw [keptLines_cons_of_static rfl, hkept]; simp, ?_⟩
    have hempty : parameters.isEmpty = false := by simpa using hgeneric
    rw [EmittedLine.keyword_chars, keywordLine, parameterHead, hempty]
    refine List.infix_append_of_infix_right (List.infix_append_of_infix_right (List.infix_cons
      (List.infix_append_of_infix_right (List.infix_append_of_infix_right ?_))))
    simp only [Bool.false_eq_true, if_false, List.cons_append, List.append_assoc]
    exact List.infix_cons (bound_mem_boundParameters hgeneric _)

/-- A block of code beside the same block without static types; of a generic one a bound is left. -/
def Block (generic : Bool) (text values : String) : Prop :=
  ∃ lines, Laid lines text values ∧ (generic = true → BoundsParameter lines)

/-- Blocks beside the same blocks without static types. -/
inductive Blocks : Bool → List String → List String → Prop where
  | nil : Blocks false [] []
  | cons {generic generic' : Bool} {text values : String} {texts rest : List String}
    (hblock : Block generic text values) (hrest : Blocks generic' texts rest) :
    Blocks (generic || generic') (text :: texts) (values :: rest)

theorem BoundsParameter.append_left {lines : List EmittedLine} (h : BoundsParameter lines)
    (others : List EmittedLine) : BoundsParameter (lines ++ others) := by
  obtain ⟨line, hmem, hoccurs⟩ := h
  exact ⟨line, by simp [hmem], hoccurs⟩

theorem BoundsParameter.append_right {lines : List EmittedLine} (h : BoundsParameter lines)
    (others : List EmittedLine) : BoundsParameter (others ++ lines) := by
  obtain ⟨line, hmem, hoccurs⟩ := h
  exact ⟨line, by simp [hmem], hoccurs⟩

theorem BoundsParameter.indent {lines : List EmittedLine} (h : BoundsParameter lines) :
    BoundsParameter (lines.map EmittedLine.indent) := by
  obtain ⟨line, hmem, hoccurs⟩ := h
  refine ⟨line.indent, ?_, ?_⟩
  · rw [keptLines_map_indent]
    exact List.mem_map_of_mem hmem
  · simp only [EmittedLine.indent, indentLine]
    split
    · exact hoccurs
    · exact List.infix_cons (List.infix_cons hoccurs)

theorem Block.join {generic generic' : Bool} {text values text' values' : String}
    (h : Block generic text values) (h' : Block generic' text' values') :
    Block (generic || generic') (text ++ "\n\n" ++ text') (values ++ "\n\n" ++ values') := by
  obtain ⟨lines, hlaid, hbound⟩ := h
  obtain ⟨others, hlaid', hbound'⟩ := h'
  refine ⟨_, hlaid.join hlaid', ?_⟩
  intro hgeneric
  rcases Bool.or_eq_true_iff.1 hgeneric with hhere | hthere
  · exact (hbound hhere).append_left _
  · rw [← List.singleton_append, ← List.append_assoc]
    exact (hbound' hthere).append_right _

/-- Blocks with blank lines between them are one block. -/
theorem Blocks.join {generic : Bool} {texts values : List String} (h : Blocks generic texts values)
    (hne : texts ≠ []) : Block generic (Text.join "\n\n" texts) (Text.join "\n\n" values) := by
  induction h with
  | nil => exact absurd rfl hne
  | @cons generic generic' text value texts rest hblock hrest ih =>
    cases hrest with
    | nil => simpa [Text.join] using hblock
    | cons hnext hmore =>
      rw [Text.join, Text.join, String.intercalate_cons_cons, String.intercalate_cons_cons]
      exact hblock.join (ih (by simp))

theorem Blocks.filter {generic : Bool} {texts values : List String}
    (h : Blocks generic texts values) :
    texts.filter (· != "") = texts ∧ values.filter (· != "") = values := by
  induction h with
  | nil => exact ⟨rfl, rfl⟩
  | cons hblock _ ih =>
    obtain ⟨lines, hlaid, -⟩ := hblock
    obtain ⟨htext, hvalues⟩ := hlaid.text_ne_empty
    simp [htext, hvalues, ih.1, ih.2]

/-! ### The import header -/

theorem trimChars_eq {first last : Char} (middle : List Char) (hfirst : isBlank first = false)
    (hlast : isBlank last = false) :
    trimChars (first :: (middle ++ [last])) = first :: (middle ++ [last]) := by
  apply trimChars_of_edges
  · simpa using hfirst
  · rw [← List.cons_append, List.getLast?_concat]
    simpa using hlast

/-- The import header as it is written. -/
theorem toList_importHeader (library : String) {names : List String} (hne : names ≠ []) :
    (importHeader library names).toList = "import \x7b ".toList ++
      ((", ".intercalate names).toList ++ (" \x7d from ".toList ++
        ('\'' :: (library.toList ++ ['\''])))) := by
  have hempty : names.isEmpty = false := by simpa using hne
  have htext :
      ("import \x7b " ++ ", ".intercalate names ++ " \x7d from '" ++ library ++ "'").toList =
        'i' :: ("mport \x7b ".toList ++ ((", ".intercalate names).toList ++
          (" \x7d from '".toList ++ library.toList)) ++ ['\'']) := by
    simp [String.toList_append]
  rw [importHeader, hempty, if_neg (by simp), Text.trim, htext,
    trimChars_eq _ (by decide) (by decide)]
  simp

theorem importHeader_ne_empty (library : String) {names : List String} (hne : names ≠ []) :
    importHeader library names ≠ "" := by
  intro hempty
  have hchars := toList_importHeader library hne
  rw [hempty] at hchars
  simp at hchars

theorem unbroken_importHeader {library : String} (hlibrary : Unbroken library.toList)
    (generic : Bool) : Unbroken (importHeader library (importNames true generic)).toList := by
  rw [toList_importHeader library (by cases generic <;> decide)]
  simp only [unbroken_append, unbroken_cons]
  exact ⟨by decide, by cases generic <;> decide, by decide, by decide, hlibrary, by decide, by simp⟩

end Schemata

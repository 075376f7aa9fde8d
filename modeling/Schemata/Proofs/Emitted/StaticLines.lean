import Schemata.Emitted.StaticLines
import Schemata.Proofs.Emitted.Pattern

/-!
# Dropping static type lines

The static type line of a schema is read as one to its end, and no other line that the renderer
writes is. So emitted code is a list of lines that know whether they are static type lines, and the
pass over the text drops exactly those.
-/

namespace Schemata.Emitted

open Text

/-! ### Static type lines -/

theorem unbroken_exportWord (exported : Bool) : Unbroken (exportWord exported).toList := by
  cases exported <;> decide

theorem unbroken_keywordLine {keyword : String} {rest : List Char} (exported : Bool)
    (hkeyword : Unbroken keyword.toList) (hrest : Unbroken rest) :
    Unbroken (keywordLine exported keyword rest) := by
  rw [keywordLine, unbroken_append, unbroken_append, unbroken_cons]
  exact ⟨unbroken_exportWord exported, hkeyword, by decide, hrest⟩

/-- Type parameters with their bound, as they stand between angle brackets. -/
def boundParameters (parameters : List String) : List Char :=
  (", ".intercalate (parameters.map (· ++ " extends TSchema"))).toList

theorem forall_mem_intercalate {p : Char → Prop} {separator : List Char} {parts : List (List Char)}
    (hseparator : ∀ c ∈ separator, p c) (hparts : ∀ part ∈ parts, ∀ c ∈ part, p c) :
    ∀ c ∈ separator.intercalate parts, p c := by
  induction parts with
  | nil => simp
  | cons part rest ih =>
    cases rest with
    | nil => simpa using hparts part (by simp)
    | cons next rest =>
      intro c hc
      rw [List.intercalate_cons_cons, List.mem_append, List.mem_append] at hc
      rcases hc with (hc | hc) | hc
      · exact hparts part (by simp) c hc
      · exact hseparator c hc
      · exact ih (fun other hmem => hparts other (by simp [hmem])) c hc

/-- No character of the type parameters ends the search for their closing bracket. -/
theorem boundParameters_chars {parameters : List String}
    (h : ∀ parameter ∈ parameters, IsName parameter.toList) :
    ∀ c ∈ boundParameters parameters, c ≠ '=' ∧ c ≠ '>' ∧ isLineBreak c = false := by
  have hplain : ∀ chars : List Char,
      chars.all (fun c => c != '=' && c != '>' && !isLineBreak c) = true →
        ∀ c ∈ chars, c ≠ '=' ∧ c ≠ '>' ∧ isLineBreak c = false := by
    intro chars hchars c hc
    simpa [and_assoc] using List.all_eq_true.1 hchars c hc
  rw [boundParameters, String.toList_intercalate]
  refine forall_mem_intercalate (hplain ", ".toList (by decide)) ?_
  intro part hpart c hc
  simp only [List.map_map, List.mem_map, Function.comp_apply] at hpart
  obtain ⟨parameter, hmem, rfl⟩ := hpart
  rw [String.toList_append, List.mem_append] at hc
  rcases hc with hc | hc
  · have hname := (h parameter hmem).2 c hc
    refine ⟨?_, ?_, isLineBreak_eq_false_of_isNameChar hname⟩ <;> rintro rfl <;>
      exact absurd hname (by decide)
  · exact hplain " extends TSchema".toList (by decide) c hc

theorem afterParameters?_append {inner : List Char} (h : ∀ c ∈ inner, c ≠ '=' ∧ c ≠ '\n')
    (rest : List Char) :
    afterParameters? (inner ++ '>' :: ' ' :: '=' :: rest) = some (' ' :: '=' :: rest) := by
  have hpass : ∀ c ∈ inner, (c != '=' && c != '\n') = true := by
    intro c hc
    obtain ⟨hequals, hfeed⟩ := h c hc
    simp [hequals, hfeed]
  have hreach : (inner ++ '>' :: ' ' :: '=' :: rest).takeWhile (fun c => c != '=' && c != '\n') =
      inner ++ ['>', ' '] := by
    rw [List.takeWhile_append_of_pos hpass]
    rfl
  have hclosed : (inner ++ ['>', ' ']).reverse.dropWhile (· != '>') = '>' :: inner.reverse := by
    simp
  rw [afterParameters?, hreach, hclosed]
  simp

theorem afterStaticType?_append {more : List Char} (hmore : Unbroken more) (rest : List Char) :
    afterStaticType? (" = Static<".toList ++ (more ++ '\n' :: rest)) = some rest := by
  have hpass : ∀ c ∈ "Static<".toList ++ more, (c != '\n') = true := by
    intro c hc
    have hbreak : isLineBreak c = false := unbroken_append.2 ⟨by decide, hmore⟩ c hc
    rw [bne_iff_ne]
    rintro rfl
    exact absurd hbreak (by decide)
  change some ((("Static<".toList ++ (more ++ '\n' :: rest)).dropWhile (· != '\n')).drop 1) = _
  rw [← List.append_assoc, List.dropWhile_append_of_pos hpass]
  rfl

/-- What follows the name of the type on a static type line. -/
def staticTail (value : List Char) (parameters : List String) : List Char :=
  if parameters.isEmpty then " = Static<typeof ".toList ++ (value ++ ['>'])
  else '<' :: (boundParameters parameters ++ ("> = Static<ReturnType<typeof ".toList ++
    (value ++ '<' :: ((", ".intercalate parameters).toList ++ ">>>".toList))))

theorem staticLine_eq (name : String) (exported : Bool) (parameters : List String) :
    (staticLine name exported parameters).toList =
      keywordLine exported "type" (name.toList ++ staticTail name.toList parameters) := by
  rw [staticLine, keywordLine, staticTail]
  split <;> simp [String.toList_append, boundParameters]

theorem unbroken_parameters {parameters : List String}
    (h : ∀ parameter ∈ parameters, IsName parameter.toList) :
    Unbroken (", ".intercalate parameters).toList := by
  rw [String.toList_intercalate]
  refine unbroken_intercalate (by decide) ?_
  intro part hpart
  obtain ⟨parameter, hmem, rfl⟩ := List.mem_map.1 hpart
  exact (h parameter hmem).unbroken

theorem unbroken_boundParameters {parameters : List String}
    (h : ∀ parameter ∈ parameters, IsName parameter.toList) :
    Unbroken (boundParameters parameters) :=
  fun c hc => (boundParameters_chars h c hc).2.2

theorem unbroken_staticTail {value : List Char} (hvalue : Unbroken value) {parameters : List String}
    (h : ∀ parameter ∈ parameters, IsName parameter.toList) :
    Unbroken (staticTail value parameters) := by
  rw [staticTail]
  split
  · simp only [unbroken_append]
    exact ⟨by decide, hvalue, by decide⟩
  · simp only [unbroken_append, unbroken_cons]
    exact ⟨by decide, unbroken_boundParameters h, by decide, hvalue, by decide,
      unbroken_parameters h, by decide⟩

theorem unbroken_staticLine {name : String} (hname : IsName name.toList) (exported : Bool)
    {parameters : List String} (h : ∀ parameter ∈ parameters, IsName parameter.toList) :
    Unbroken (staticLine name exported parameters).toList := by
  rw [staticLine_eq]
  exact unbroken_keywordLine exported (by decide)
    (unbroken_append.2 ⟨hname.unbroken, unbroken_staticTail hname.unbroken h⟩)

/-- The static type line of a schema is read as one, up to its line feed. -/
theorem afterStaticLine?_staticLine {name : String} (hname : IsName name.toList) (exported : Bool)
    {parameters : List String} (h : ∀ parameter ∈ parameters, IsName parameter.toList)
    (rest : List Char) :
    afterStaticLine? ((staticLine name exported parameters).toList ++ '\n' :: rest) =
      some rest := by
  rw [staticLine_eq, keywordLine_append, List.append_assoc, afterStaticLine?, afterKeyword?_type,
    dropBlanks_name hname, staticTail]
  split
  · have hend : Unbroken ("typeof ".toList ++ (name.toList ++ ['>'])) := by
      simp only [unbroken_append]
      exact ⟨by decide, hname.unbroken, by decide⟩
    rw [Option.bind_some, spanName?_append hname (by rintro c ⟨⟩; decide)]
    have hread := afterStaticType?_append hend rest
    simpa [skipParameters?] using hread
  · have hinner : ∀ c ∈ boundParameters parameters, c ≠ '=' ∧ c ≠ '\n' := by
      intro c hc
      obtain ⟨hequals, -, hbreak⟩ := boundParameters_chars h c hc
      refine ⟨hequals, ?_⟩
      rintro rfl
      exact absurd hbreak (by decide)
    have hend : Unbroken ("ReturnType<typeof ".toList ++
        (name.toList ++ '<' :: ((", ".intercalate parameters).toList ++ ">>>".toList))) := by
      simp only [unbroken_append, unbroken_cons]
      exact ⟨by decide, hname.unbroken, by decide, unbroken_parameters h, by decide⟩
    rw [Option.bind_some, spanName?_append hname (by rintro c ⟨⟩; decide)]
    have hread := afterStaticType?_append hend rest
    have hskip := afterParameters?_append hinner
    simpa [skipParameters?, hskip] using hread

/-! ### Blocks as lists of lines -/

theorem unbroken_keyword {word : String} (hword : word ∈ ["const", "enum", "namespace", "module"]) :
    Unbroken word.toList := by
  simp only [List.mem_cons, List.not_mem_nil, or_false] at hword
  rcases hword with rfl | rfl | rfl | rfl <;> decide

/-- A line of emitted code that knows whether it is read as a static type line. -/
structure EmittedLine where
  chars : List Char
  isStatic : Bool
  unbroken : Unbroken chars
  read : ∀ rest, afterStaticLine? (chars ++ '\n' :: rest) = if isStatic then some rest else none

namespace EmittedLine

def static {name : String} (hname : IsName name.toList) (exported : Bool) {parameters : List String}
    (h : ∀ parameter ∈ parameters, IsName parameter.toList) : EmittedLine where
  chars := (staticLine name exported parameters).toList
  isStatic := true
  unbroken := unbroken_staticLine hname exported h
  read rest := by rw [afterStaticLine?_staticLine hname exported h, if_pos rfl]

/-- A line on which no type declaration begins. -/
def kept {chars : List Char} (hunbroken : Unbroken chars)
    (h : ∀ rest, afterKeyword? "type" (chars ++ rest) = none) : EmittedLine where
  chars := chars
  isStatic := false
  unbroken := hunbroken
  read rest := by
    rw [afterStaticLine?, h]
    rfl

/-- The line moved two blanks to the right, unless it is empty. -/
def indent (line : EmittedLine) : EmittedLine where
  chars := indentLine line.chars
  isStatic := line.isStatic
  unbroken := by
    rw [indentLine]
    split
    · exact line.unbroken
    · simpa using ⟨by decide, line.unbroken⟩
  read rest := by
    rw [indentLine]
    split
    · exact line.read rest
    · rw [← line.read rest]
      simp [afterStaticLine?]

/-- A line that begins with a keyword other than that of a type. -/
def keyword {word : String} (hword : word ∈ ["const", "enum", "namespace", "module"])
    (exported : Bool) {rest : List Char} (hrest : Unbroken rest) : EmittedLine :=
  @kept (keywordLine exported word rest)
    (unbroken_keywordLine exported (unbroken_keyword hword) hrest)
    (fun more => by rw [keywordLine_append, afterKeyword?_type_keywordLine hword])

def continued {chars : List Char} (hunbroken : Unbroken chars) (h : Continues chars) :
    EmittedLine :=
  kept hunbroken fun rest => afterKeyword?_of_continues (by decide) (h.append rest)

@[simp] theorem keyword_chars {word : String}
    (hword : word ∈ ["const", "enum", "namespace", "module"]) (exported : Bool) {rest : List Char}
    (hrest : Unbroken rest) :
    (keyword hword exported hrest).chars = keywordLine exported word rest := rfl

/-- The line between two blocks. -/
def blank : EmittedLine where
  chars := []
  isStatic := false
  unbroken := by simp
  read rest := rfl

@[simp] theorem blank_chars : blank.chars = [] := rfl

def closing : EmittedLine := @kept ['}'] (by decide) (fun _ => rfl)

@[simp] theorem closing_chars : closing.chars = ['}'] := rfl

end EmittedLine

def linesText (lines : List EmittedLine) : List Char := unlines (lines.map (·.chars))

def keptLines (lines : List EmittedLine) : List EmittedLine :=
  lines.filter fun line => !line.isStatic

@[simp] theorem linesText_append (first second : List EmittedLine) :
    linesText (first ++ second) = linesText first ++ linesText second := by
  simp [linesText]

@[simp] theorem linesText_cons (line : EmittedLine) (lines : List EmittedLine) :
    linesText (line :: lines) = line.chars ++ '\n' :: linesText lines := by
  simp [linesText]

@[simp] theorem linesText_nil : linesText [] = [] := rfl

@[simp] theorem keptLines_append (first second : List EmittedLine) :
    keptLines (first ++ second) = keptLines first ++ keptLines second := by
  simp [keptLines]

theorem keptLines_cons_of_kept {line : EmittedLine} (h : line.isStatic = false)
    (lines : List EmittedLine) : keptLines (line :: lines) = line :: keptLines lines := by
  simp [keptLines, h]

theorem keptLines_cons_of_static {line : EmittedLine} (h : line.isStatic = true)
    (lines : List EmittedLine) : keptLines (line :: lines) = keptLines lines := by
  simp [keptLines, h]

theorem keptLines_map_indent (lines : List EmittedLine) :
    keptLines (lines.map EmittedLine.indent) = (keptLines lines).map EmittedLine.indent := by
  induction lines with
  | nil => rfl
  | cons line lines ih =>
    rw [List.map_cons]
    cases h : line.isStatic with
    | false =>
      have hindent : line.indent.isStatic = false := h
      rw [keptLines_cons_of_kept h, keptLines_cons_of_kept hindent, ih, List.map_cons]
    | true =>
      have hindent : line.indent.isStatic = true := h
      rw [keptLines_cons_of_static h, keptLines_cons_of_static hindent, ih]

/-- One line: the pass drops it or keeps it, and goes on behind its line feed. -/
theorem dropStaticLines_line (line : EmittedLine) (rest : List Char) :
    dropStaticLines (line.chars ++ '\n' :: rest) =
      (if line.isStatic then [] else line.chars ++ ['\n']) ++ dropStaticLines rest := by
  rw [dropStaticLines, line.read]
  cases line.isStatic with
  | true => simp [show rest.length < line.chars.length + (rest.length + 1) by omega]
  | false =>
    have hpass : ∀ c ∈ line.chars, (c != '\n') = true := by
      intro c hc
      rw [bne_iff_ne]
      rintro rfl
      exact absurd (line.unbroken '\n' hc) (by decide)
    have hline : (line.chars ++ '\n' :: rest).takeWhile (· != '\n') = line.chars := by
      rw [List.takeWhile_append_of_pos hpass]
      simp
    have hdrop : (line.chars ++ '\n' :: rest).drop (line.chars.length + 1) = rest := by
      rw [List.drop_append]
      simp
    have htake : (line.chars ++ '\n' :: rest).take (line.chars.length + 1) =
        line.chars ++ ['\n'] := by
      rw [List.take_append, List.take_of_length_le (by omega)]
      simp
    simp only [Bool.false_eq_true, if_false, hline, hdrop, htake]
    rw [if_pos]
    simp only [List.length_append, List.length_cons]
    omega

/-- The whole text: exactly the static type lines go. -/
theorem dropStaticLines_linesText (lines : List EmittedLine) :
    dropStaticLines (linesText lines) = linesText (keptLines lines) := by
  induction lines with
  | nil =>
    rw [linesText_nil, dropStaticLines]
    rfl
  | cons line lines ih =>
    rw [linesText_cons, dropStaticLines_line, ih]
    cases h : line.isStatic with
    | true => rw [keptLines_cons_of_static h, if_pos rfl, List.nil_append]
    | false =>
      rw [keptLines_cons_of_kept h, linesText_cons]
      simp

end Schemata.Emitted

import Schemata.Proofs.Emitted.NewNames
import Schemata.Proofs.Emitted.Skeleton

/-!
# Renamed blocks

The names of declarations are changed in the finished code, line by line and name by name. A block
of rendered code is renamed with the type parameters of its own declaration hidden, up to the blank
line behind it; the names it declares are read off its first two lines.
-/

namespace Schemata.Emitted

open Text

/-! ### Lines -/

theorem isEmpty_trimChars {chars : List Char} {c : Char} (hmem : c ∈ chars)
    (hblank : isBlank c = false) : (trimChars chars).isEmpty = false := by
  cases hcases : (trimChars chars).isEmpty with
  | false => rfl
  | true =>
    rw [List.isEmpty_iff, trimChars, List.reverse_eq_nil_iff, dropBlanks,
      List.dropWhile_eq_nil_iff] at hcases
    -- the first character that is left is no blank, so nothing is left
    have hnil : dropBlanks chars = [] := by
      cases hleft : dropBlanks chars with
      | nil => rfl
      | cons d rest =>
        have hhead := List.head?_dropWhile_not isBlank chars
        rw [show chars.dropWhile isBlank = d :: rest from hleft] at hhead
        have hd := hcases d (by simp [hleft])
        simp [hd] at hhead
    have hall := List.dropWhile_eq_nil_iff.1 hnil c hmem
    rw [hall] at hblank
    cases hblank

@[simp] theorem withoutFeed_feed (body : List Char) : Line.withoutFeed ⟨body, ['\n']⟩ = body := by
  simp [Line.withoutFeed]

/-- A line that is not blank and begins no declaration, however it goes on. -/
structure Headless (line : List Char) : Prop where
  filled : ∃ c ∈ line, isBlank c = false
  noType : ∀ rest, afterKeyword? "type" (line ++ rest) = none
  noConst : ∀ rest, afterKeyword? "const" (line ++ rest) = none

theorem headless_of_continues {line : List Char} (h : Continues line) : Headless line where
  filled := by
    obtain ⟨blanks, opening, hopening, tail, rfl⟩ := h
    obtain ⟨c, rest, rfl, hblank⟩ := head_opening hopening
    exact ⟨c, by simp, hblank⟩
  noType rest := afterKeyword?_of_continues (by decide) (h.append rest)
  noConst rest := afterKeyword?_of_continues (by decide) (h.append rest)

theorem headless_importHeader (library : String) {words : List String} (hne : words ≠ []) :
    Headless (importHeader library words).toList := by
  rw [Schemata.toList_importHeader library hne]
  exact ⟨⟨'i', by simp, by decide⟩, fun _ => rfl, fun _ => rfl⟩

theorem Headless.staticDeclaration? {line : List Char} (h : Headless line) :
    staticDeclaration? line = none :=
  staticDeclaration?_of_none (by simpa using h.noType [])

theorem Headless.valueDeclaration? {line : List Char} (h : Headless line) (rest : List Char) :
    valueDeclaration? (line ++ rest) = none := valueDeclaration?_of_none (h.noConst rest)

/-- What is hidden stays hidden on the lines of a block. -/
theorem hiddenAt_headless (hidden : List (List Char)) {line : List Char} (h : Headless line) :
    hiddenAt hidden ⟨line, ['\n']⟩ = hidden := by
  obtain ⟨c, hmem, hblank⟩ := h.filled
  have hvalue := h.valueDeclaration? []
  rw [List.append_nil] at hvalue
  rw [hiddenAt, withoutFeed_feed, isEmpty_trimChars hmem hblank, h.staticDeclaration?, hvalue]
  rfl

/-- The head of a block hides its type parameters. -/
theorem hiddenAt_head (hidden : List (List Char)) {line : List Char} {c : Char} (hmem : c ∈ line)
    (hblank : isBlank c = false)
    (h : (staticDeclaration? line).isSome = true ∨ (valueDeclaration? line).isSome = true) :
    hiddenAt hidden ⟨line, ['\n']⟩ = lineParameters line := by
  rw [hiddenAt, withoutFeed_feed, isEmpty_trimChars hmem hblank]
  rcases h with h | h <;> simp [h]

theorem hiddenAt_blank (hidden : List (List Char)) : hiddenAt hidden ⟨[], ['\n']⟩ = [] := rfl

theorem renameLine_of_none (names : NewNames) (hidden : List (List Char)) {line : List Char}
    (h : staticDeclaration? line = none) :
    renameLine names hidden ⟨line, ['\n']⟩ =
      renameValues (names.values.visible hidden) (line ++ ['\n']) := by
  rw [renameLine, withoutFeed_feed, h]
  rfl

theorem renameText_line (names : Names) {line : List Char} (h : Unbroken line) :
    renameText names none (line ++ ['\n']) = renameValues names (line ++ ['\n']) := by
  rw [renameText_none, splitLines_append_feed h]
  simp [splitLines, Line.chars]

theorem Rewrites.renameText_feed {names : Names} {source target : List Char}
    (h : Rewrites names source target) :
    renameText names none (source ++ ['\n']) = target ++ ['\n'] := by
  rw [h ['\n'] (stops_feed []), Emitted.renameText_feed, renameText_none]
  rfl

/-- A static type line gets the new name of its type, and what follows it is rewritten. -/
theorem renameLine_static (names : NewNames) (hidden : List (List Char)) {name : List Char}
    (hname : IsName name) (exported : Bool) (value : List Char) (parameters : List String)
    (hunbroken : Unbroken (staticTail value parameters)) {target : List Char}
    (h : Rewrites (names.values.visible hidden) (staticTail value parameters) target) :
    renameLine names hidden
        ⟨keywordLine exported "type" (name ++ staticTail value parameters), ['\n']⟩ =
      keywordLine exported "type" ((names.types.get? name).getD name ++ target) ++ ['\n'] := by
  have hsplit : ∀ rest, keywordLine exported "type" rest = keywordLine exported "type" [] ++ rest :=
    fun rest => (keywordLine_append exported "type" [] rest).symm
  have hhead : (keywordLine exported "type" (name ++ staticTail value parameters)).take
      ((keywordLine exported "type" (name ++ staticTail value parameters)).length -
        (staticTail value parameters).length - name.length) = keywordLine exported "type" [] := by
    rw [hsplit]
    refine List.take_left' ?_
    simp only [List.length_append]
    omega
  have htail : (Line.chars
      ⟨keywordLine exported "type" (name ++ staticTail value parameters), ['\n']⟩).drop
        ((keywordLine exported "type" []).length + name.length) =
          staticTail value parameters ++ ['\n'] := by
    rw [Line.chars, hsplit (name ++ _)]
    simp only [List.append_assoc]
    rw [← List.append_assoc]
    refine List.drop_left' ?_
    rw [List.length_append]
  rw [renameLine, withoutFeed_feed, staticDeclaration?_staticLine hname]
  simp only
  rw [hhead, htail]
  have htext : renameValues (names.values.visible hidden)
      (staticTail value parameters ++ ['\n']) = target ++ ['\n'] := by
    rw [← renameText_line _ hunbroken, h.renameText_feed]
  have hvisible : (names.values.filter fun entry => !hidden.contains entry.1) =
      names.values.visible hidden := rfl
  rw [hvisible, htext, hsplit (_ ++ target)]
  simp

/-- Lines on which nothing new is hidden are renamed one by one. -/
theorem renameLines_lines (names : NewNames) {hidden : List (List Char)}
    {lines : List (List Char)} (h : ∀ line ∈ lines,
      hiddenAt hidden ⟨line, ['\n']⟩ = hidden ∧ staticDeclaration? line = none)
    (rest : List Line) :
    renameLines names hidden (lines.map (fun line => ⟨line, ['\n']⟩) ++ rest) =
      (lines.flatMap fun line => renameValues (names.values.visible hidden) (line ++ ['\n'])) ++
        renameLines names hidden rest := by
  induction lines with
  | nil => rfl
  | cons line lines ih =>
    obtain ⟨hhidden, hstatic⟩ := h line (by simp)
    rw [List.map_cons, List.cons_append, renameLines]
    simp only [hhidden]
    rw [renameLine_of_none names hidden hstatic, ih fun other hmem => h other (by simp [hmem]),
      List.flatMap_cons, List.append_assoc]

/-- A text over several such lines is rewritten as a whole. -/
theorem renameLines_text (names : NewNames) {hidden : List (List Char)}
    {source target : List Char} {lines : List (List Char)}
    (hlines : source ++ ['\n'] = unlines lines) (hunbroken : ∀ line ∈ lines, Unbroken line)
    (hsteady : ∀ line ∈ lines,
      hiddenAt hidden ⟨line, ['\n']⟩ = hidden ∧ staticDeclaration? line = none)
    (h : Rewrites (names.values.visible hidden) source target) (rest : List Char) :
    renameLines names hidden (splitLines (source ++ '\n' :: rest)) =
      target ++ '\n' :: renameLines names hidden (splitLines rest) := by
  have htarget : (lines.flatMap fun line =>
      renameValues (names.values.visible hidden) (line ++ ['\n'])) = target ++ ['\n'] := by
    have hsplit := splitLines_unlines_append hunbroken []
    rw [List.append_nil] at hsplit
    rw [← h.renameText_feed, hlines, renameText_none, hsplit]
    simp [splitLines, List.flatMap_map, Line.chars]
  rw [append_feed_eq hlines, splitLines_unlines_append hunbroken, renameLines_lines names hsteady,
    htarget]
  simp

/-! ### Blocks -/

/-- A block becomes another one, whatever follows it. -/
def RenamesBlock (names : NewNames) (source target : List Char) : Prop :=
  ∃ hidden, ∀ rest, renameLines names [] (splitLines (source ++ '\n' :: rest)) =
    target ++ '\n' :: renameLines names hidden (splitLines rest)

/-- A blank line stays, and behind it nothing is hidden any more. -/
theorem renameLines_blank (names : NewNames) (hidden : List (List Char)) (rest : List Char) :
    renameLines names hidden (splitLines ('\n' :: rest)) =
      '\n' :: renameLines names [] (splitLines rest) := by
  have hlines := splitLines_append_feed unbroken_nil rest
  rw [List.nil_append] at hlines
  have hfeed : isNameChar '\n' = false := by decide
  have hblank : renameLine names [] ⟨[], ['\n']⟩ = ['\n'] := by
    rw [renameLine_of_none names [] rfl, List.nil_append, renameValues, pieces_feed]
    simp [Piece.rename, renameCode, hfeed]
  rw [hlines, renameLines, hiddenAt_blank, hblank]
  rfl

theorem renamesBlock_nil (names : NewNames) : RenamesBlock names [] [] :=
  ⟨[], renameLines_blank names []⟩

theorem RenamesBlock.join {names : NewNames} {source target source' target' : List Char}
    (h : RenamesBlock names source target) (h' : RenamesBlock names source' target') :
    RenamesBlock names (source ++ ("\n\n".toList ++ source'))
      (target ++ ("\n\n".toList ++ target')) := by
  obtain ⟨hidden, hfirst⟩ := h
  obtain ⟨hidden', hsecond⟩ := h'
  refine ⟨hidden', ?_⟩
  intro rest
  have hsource : source ++ ("\n\n".toList ++ source') ++ '\n' :: rest =
      source ++ '\n' :: '\n' :: (source' ++ '\n' :: rest) := by simp
  rw [hsource, hfirst, renameLines_blank, hsecond]
  simp

/-- The import header is a block that stays. -/
theorem renamesBlock_importHeader {names : NewNames} (hnames : names.values.Proper)
    {library : String} (hunbroken : Unbroken library.toList) (hquote : '\'' ∉ library.toList)
    (hback : '\\' ∉ library.toList) (generic : Bool) :
    RenamesBlock names (importHeader library (importNames true generic)).toList
      (importHeader library (importNames true generic)).toList := by
  have hheadless := headless_importHeader library
    (show importNames true generic ≠ [] by cases generic <;> decide)
  have hline : (importHeader library (importNames true generic)).toList ++ ['\n'] =
      unlines [(importHeader library (importNames true generic)).toList] := by simp
  refine ⟨[], renameLines_text names hline ?_ ?_
    (rewrites_importHeader (hnames.visible []) hunbroken hquote hback generic)⟩
  · simpa using unbroken_importHeader hunbroken generic
  · simpa using ⟨hiddenAt_headless [] hheadless, hheadless.staticDeclaration?⟩

/-- The lines of a value are its head and lines that begin nothing. -/
theorem exists_valueLines (name : List Char) (exported : Bool) {parameters : List String}
    (hparameters : ∀ parameter ∈ parameters, IsName parameter.toList) {body : String}
    (hfolded : Folded body.toList) (hsolid : Expr.Solid body) :
    ∃ c first more, isBlank c = false ∧ c ≠ '<' ∧
      Unbroken (parameterHead parameters ++ c :: first) ∧
      keywordLine exported "const" (name ++ (" = ".toList ++ (parameterHead parameters ++
        body.toList))) ++ ['\n'] =
          unlines (keywordLine exported "const" (name ++ (" = ".toList ++ (parameterHead parameters
            ++ c :: first))) :: more) ∧
      ∀ line ∈ more, Unbroken line ∧ Headless line := by
  obtain ⟨first, more, hlines, hfirst, hmore⟩ := hfolded.exists_lines
  obtain ⟨c, rest, hchars, hblank, hangle⟩ := hsolid
  rw [hchars] at hlines
  cases first with
  | nil =>
    -- the body does not begin with a line feed
    have hfeed : c = '\n' := (List.cons.inj hlines).1
    rw [hfeed] at hblank
    cases hblank
  | cons d first =>
    have hcd : c = d := (List.cons.inj hlines).1
    subst hcd
    refine ⟨c, first, more, hblank, hangle, ?_, ?_, ?_⟩
    · rw [unbroken_append]
      exact ⟨unbroken_parameterHead hparameters, hfirst⟩
    · rw [keywordLine_append, hchars]
      simp only [List.append_assoc]
      rw [hlines, unlines_cons, unlines_cons, keywordLine_append]
      simp
    · intro line hmem
      exact ⟨(hmore line hmem).1, headless_of_continues (hmore line hmem).2⟩

/-- The block of a schema: the static type line and the lines of the value. -/
def schemaBlock (type value : List Char) (exported : Bool) (parameters : List String)
    (body : List Char) : List Char :=
  keywordLine exported "type" (type ++ staticTail value parameters) ++
    '\n' :: keywordLine exported "const"
      (value ++ (" = ".toList ++ (parameterHead parameters ++ body)))

theorem declaredValues_headless {lines : List (List Char)}
    (h : ∀ line ∈ lines, Unbroken line ∧ Headless line) (rest : List Char) :
    declaredValues true (unlines lines ++ rest) = declaredValues true rest := by
  induction lines with
  | nil => rfl
  | cons line lines ih =>
    obtain ⟨hunbroken, hheadless⟩ := h line (by simp)
    rw [unlines_cons, List.append_assoc, List.cons_append,
      declaredValues_line hunbroken.feed_not_mem (hheadless.valueDeclaration? _),
      ih fun other hmem => h other (by simp [hmem])]

theorem declaredTypes_lines {lines : List (List Char)}
    (h : ∀ line ∈ lines, Unbroken line ∧ staticDeclaration? line = none) (rest : List Char) :
    declaredTypes (unlines lines ++ rest) = declaredTypes rest := by
  have hnone : (lines.map fun line => (⟨line, ['\n']⟩ : Line)).filterMap
      (fun line => (staticDeclaration? line.body).map Prod.fst) = [] := by
    rw [List.filterMap_eq_nil_iff]
    intro line hmem
    obtain ⟨body, hbody, rfl⟩ := List.mem_map.1 hmem
    simp [(h body hbody).2]
  rw [declaredTypes, splitLines_unlines_append fun line hmem => (h line hmem).1,
    List.filterMap_append, hnone]
  rfl

section Schema

variable {name : List Char} (hname : IsName name) (exported : Bool) {parameters : List String}
  (hparameters : ∀ parameter ∈ parameters, IsName parameter.toList)

include hname

theorem exists_mem_keywordLine (keyword : String) (rest : List Char) :
    ∃ c ∈ keywordLine exported keyword (name ++ rest), isBlank c = false := by
  obtain ⟨c, tail, rfl⟩ := List.exists_cons_of_ne_nil hname.1
  exact ⟨c, by simp [keywordLine], isBlank_eq_false_of_isNameChar (hname.2 c (by simp))⟩

include hparameters

theorem hiddenAt_staticLine (hidden : List (List Char)) (value : List Char) :
    hiddenAt hidden
        ⟨keywordLine exported "type" (name ++ staticTail value parameters), ['\n']⟩ =
      parameters.map String.toList := by
  obtain ⟨c, hmem, hblank⟩ :=
    exists_mem_keywordLine hname exported "type" (staticTail value parameters)
  have htype := staticDeclaration?_staticLine hname exported value parameters
  rw [hiddenAt_head hidden hmem hblank (Or.inl (by simp [htype])),
    lineParameters_staticLine hname exported value hparameters]

theorem hiddenAt_valueLine (hidden : List (List Char)) {c : Char} (hblank : isBlank c = false)
    (hangle : c ≠ '<') (first : List Char) :
    hiddenAt hidden ⟨keywordLine exported "const"
        (name ++ (" = ".toList ++ (parameterHead parameters ++ c :: first))), ['\n']⟩ =
      parameters.map String.toList := by
  obtain ⟨d, hmem, hfilled⟩ := exists_mem_keywordLine hname exported "const"
    (" = ".toList ++ (parameterHead parameters ++ c :: first))
  have hvalue := valueDeclaration?_valueLine hname exported (parameterHead parameters ++ c :: first)
  rw [hiddenAt_head hidden hmem hfilled (Or.inr (by rw [hvalue]; rfl)),
    lineParameters_valueLine hname exported hparameters hblank hangle]

variable {body : String} (hfolded : Folded body.toList) (hsolid : Expr.Solid body)

include hfolded hsolid

/-- On the lines of a value its type parameters stay hidden, and none is a static type line. -/
theorem exists_steadyLines :
    ∃ lines, keywordLine exported "const" (name ++ (" = ".toList ++ (parameterHead parameters ++
        body.toList))) ++ ['\n'] = unlines lines ∧
      ∀ line ∈ lines, Unbroken line ∧ staticDeclaration? line = none ∧
        hiddenAt (parameters.map String.toList) ⟨line, ['\n']⟩ =
          parameters.map String.toList := by
  obtain ⟨c, first, more, hblank, hangle, hunbroken, hlines, hmore⟩ :=
    exists_valueLines name exported hparameters hfolded hsolid
  refine ⟨_, hlines, ?_⟩
  intro line hmem
  rcases List.mem_cons.1 hmem with rfl | hmem
  · refine ⟨unbroken_keywordLine exported (by decide) ?_, ?_, ?_⟩
    · rw [unbroken_append, unbroken_append]
      exact ⟨hname.unbroken, by decide, hunbroken⟩
    · exact staticDeclaration?_of_none (afterKeyword?_type_keywordLine (by simp) exported _)
    · exact hiddenAt_valueLine hname exported hparameters _ hblank hangle first
  · obtain ⟨hline, hheadless⟩ := hmore line hmem
    exact ⟨hline, hheadless.staticDeclaration?, hiddenAt_headless _ hheadless⟩

/-- The block of a schema is renamed with its own type parameters hidden. -/
theorem renamesBlock_schema {names : NewNames} (hnames : names.values.Proper)
    (hown : name ∉ parameters.map String.toList) {target : List Char}
    (hbody : Rewrites (names.values.visible (parameters.map String.toList)) body.toList target) :
    RenamesBlock names (schemaBlock name name exported parameters body.toList)
      (schemaBlock ((names.types.get? name).getD name) ((names.values.get? name).getD name)
        exported parameters target) := by
  have hproper := hnames.visible (parameters.map String.toList)
  have hkept : ∀ parameter ∈ parameters, IsName parameter.toList ∧
      (names.values.visible (parameters.map String.toList)).get? parameter.toList = none :=
    fun parameter hmem => ⟨hparameters parameter hmem,
      names.values.get?_visible_of_mem (List.mem_map_of_mem hmem)⟩
  have htail := rewrites_staticTail hproper hname hkept
  have hvalue := rewrites_valueLines hproper exported hname hkept hbody
  rw [names.values.get?_visible_of_not_mem hown] at htail hvalue
  have hunbroken := unbroken_staticTail hname.unbroken hparameters
  obtain ⟨lines, hlines, hsteady⟩ :=
    exists_steadyLines hname exported hparameters hfolded hsolid
  refine ⟨parameters.map String.toList, ?_⟩
  intro rest
  rw [schemaBlock, List.append_assoc, List.cons_append,
    splitLines_append_feed (unbroken_keywordLine exported (by decide)
      (unbroken_append.2 ⟨hname.unbroken, hunbroken⟩)),
    renameLines, hiddenAt_staticLine hname exported hparameters,
    renameLine_static names _ hname exported name parameters hunbroken htail,
    renameLines_text names hlines (fun line hmem => (hsteady line hmem).1)
      (fun line hmem => ⟨(hsteady line hmem).2.2, (hsteady line hmem).2.1⟩) hvalue]
  simp [schemaBlock]

/-- The block of a schema declares one value. -/
theorem declaredValues_schema (rest : List Char) :
    declaredValues true (schemaBlock name name exported parameters body.toList ++ '\n' :: rest) =
      name :: declaredValues true rest := by
  obtain ⟨c, first, more, -, -, hunbroken, hlines, hmore⟩ :=
    exists_valueLines name exported hparameters hfolded hsolid
  have htail := unbroken_staticTail hname.unbroken hparameters
  have hstatic : Unbroken (keywordLine exported "type" (name ++ staticTail name parameters)) :=
    unbroken_keywordLine exported (by decide) (unbroken_append.2 ⟨hname.unbroken, htail⟩)
  rw [schemaBlock, List.append_assoc, List.cons_append, append_feed_eq hlines,
    declaredValues_line hstatic.feed_not_mem, unlines_cons, List.append_assoc, List.cons_append,
    declaredValues_valueLine hname exported hunbroken.feed_not_mem,
    declaredValues_headless hmore]
  rw [keywordLine_append]
  exact valueDeclaration?_of_none (afterKeyword?_const_type exported _)

/-- The block of a schema declares one type. -/
theorem declaredTypes_schema (rest : List Char) :
    declaredTypes (schemaBlock name name exported parameters body.toList ++ '\n' :: rest) =
      name :: declaredTypes rest := by
  obtain ⟨lines, hlines, hsteady⟩ :=
    exists_steadyLines hname exported hparameters hfolded hsolid
  have htail := unbroken_staticTail hname.unbroken hparameters
  have hstatic : Unbroken (keywordLine exported "type" (name ++ staticTail name parameters)) :=
    unbroken_keywordLine exported (by decide) (unbroken_append.2 ⟨hname.unbroken, htail⟩)
  have hrest := declaredTypes_lines
    (fun line hmem => ⟨(hsteady line hmem).1, (hsteady line hmem).2.1⟩) rest
  rw [declaredTypes] at hrest
  rw [schemaBlock, List.append_assoc, List.cons_append, append_feed_eq hlines, declaredTypes,
    splitLines_append_feed hstatic, List.filterMap_cons, hrest, staticDeclaration?_staticLine hname]
  rfl

end Schema

end Schemata.Emitted

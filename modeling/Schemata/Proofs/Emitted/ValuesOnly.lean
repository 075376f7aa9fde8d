import Schemata.Proofs.Emitted.Blocks
import Schemata.Proofs.Schema.Nesting

/-!
# Values without static types

Files may be wanted without static types. The type lines are taken out of the finished code, and
what is left is the code of the values alone: the same rendering in which schemas have no type line
and the import header brings in what the values need.
-/

namespace Schemata

open Text Emitted

namespace Declaration

mutual

/-- The code of a declaration without static types. -/
def renderValues : Declaration → Except RenderError String
  | .schema name exported body parameters => do
    return valueLines name exported parameters (← body.render 0)
  | .enumeration name exported members => .ok (enumerationText name exported members)
  | .scope name exported keyword body => do
    return scopeText name exported keyword (Text.join "\n\n" (← renderAllValues body))
  | .verbatim text => .ok text
  | .bare => .error .unknownDeclaration

def renderAllValues : List Declaration → Except RenderError (List String)
  | [] => .ok []
  | declaration :: rest => do
    let text ← renderValues declaration
    return text :: (← renderAllValues rest)

end

/-- No text in the declaration itself breaks a line, and its names are names. -/
def keepsLines : Declaration → Bool
  | .schema name _ body parameters =>
    decide (IsName name.toList) && parameters.all (fun p => decide (IsName p.toList)) &&
      body.keepsLines
  | .enumeration name _ members =>
    decide (IsName name.toList) && members.all fun member => decide (Unbroken member.toList)
  | .scope name _ keyword _ =>
    (keyword == "namespace" || keyword == "module") && decide (Unbroken name.toList)
  | .verbatim _ | .bare => false

end Declaration

namespace Module

/-- Whether a generic schema is declared at some depth. -/
def hasGeneric (module : Module) : Bool :=
  (Declaration.nestedOf module.declarations).any Declaration.isGeneric

/-- The code of a file without static types. -/
def renderValues (library : String) (module : Module) : Except RenderError String := do
  let blocks ← Declaration.renderAllValues module.declarations
  let header := importHeader library (if module.hasGeneric then ["Type", "TSchema"] else ["Type"])
  return Text.join "\n\n" ((header :: blocks).filter (· != "")) ++ "\n"

end Module

/-! ### Two renderings side by side -/

/-- Two renderings fail alike, or their results are related. -/
inductive Outcomes {α β : Type} (related : α → β → Prop) :
    Except RenderError α → Except RenderError β → Prop where
  | error (fault : RenderError) : Outcomes related (.error fault) (.error fault)
  | ok {first : α} {second : β} (h : related first second) :
    Outcomes related (.ok first) (.ok second)

namespace Outcomes

theorem bind {α β γ δ : Type} {related : α → β → Prop} {result : γ → δ → Prop}
    {first : Except RenderError α} {second : Except RenderError β}
    {next : α → Except RenderError γ} {other : β → Except RenderError δ}
    (h : Outcomes related first second)
    (hnext : ∀ a b, related a b → Outcomes result (next a) (other b)) :
    Outcomes result (first >>= next) (second >>= other) := by
  cases h with
  | error fault => exact .error fault
  | ok h => exact hnext _ _ h

/-- A rendering beside itself. -/
theorem same {α : Type} (outcome : Except RenderError α) :
    Outcomes (fun first second => first = second ∧ outcome = .ok first) outcome outcome := by
  cases outcome with
  | error fault => exact .error fault
  | ok value => exact .ok ⟨rfl, rfl⟩

theorem map_eq {α β : Type} {function : α → β} {first : Except RenderError α}
    {second : Except RenderError β} (h : Outcomes (fun a b => function a = b) first second) :
    first.map function = second := by
  cases h with
  | error fault => rfl
  | ok h => exact congrArg Except.ok h

end Outcomes

namespace Declaration

mutual

/-- A declaration and its values give the same block but for static type lines, or both fail. -/
theorem block_render : (declaration : Declaration) →
    (∀ inner ∈ declaration.nested, inner.keepsLines = true) →
    Outcomes (Block (declaration.nested.any isGeneric)) declaration.render declaration.renderValues
  | .schema name exported body parameters, h => by
    have hkeeps := h (.schema name exported body parameters) (by simp [nested])
    simp only [keepsLines, Bool.and_eq_true, decide_eq_true_eq, List.all_eq_true] at hkeeps
    obtain ⟨⟨hname, hparameters⟩, hbody⟩ := hkeeps
    rw [render, renderValues]
    refine (Outcomes.same (body.render 0)).bind ?_
    rintro text values ⟨rfl, htext⟩
    obtain ⟨lines, hlaid, hbound⟩ :=
      laid_schema hname exported hparameters (Expr.folded_render body 0 hbody htext)
    refine .ok ⟨lines, hlaid, ?_⟩
    intro hgeneric
    exact hbound (by simpa [nested, isGeneric] using hgeneric)
  | .enumeration name exported members, h => by
    have hkeeps := h (.enumeration name exported members) (by simp [nested])
    simp only [keepsLines, Bool.and_eq_true, decide_eq_true_eq, List.all_eq_true] at hkeeps
    obtain ⟨lines, hlaid⟩ := laid_enumeration hkeeps.1.unbroken exported hkeeps.2
    rw [render, renderValues]
    exact .ok ⟨lines, hlaid, by simp [nested, isGeneric]⟩
  | .scope name exported keyword body, h => by
    have hkeeps := h (.scope name exported keyword body) (by simp [nested])
    simp only [keepsLines, Bool.and_eq_true, Bool.or_eq_true, beq_iff_eq, decide_eq_true_eq]
      at hkeeps
    have hkeyword : keyword ∈ ["const", "enum", "namespace", "module"] := by
      rcases hkeeps.1 with rfl | rfl <;> simp
    have hname : Unbroken (name.toList ++ " \x7b".toList) :=
      unbroken_append.2 ⟨hkeeps.2, by decide⟩
    rw [render, renderValues]
    refine (blocks_renderAll body fun inner hmem => h inner (by simp [nested, hmem])).bind ?_
    intro texts values hblocks
    have hany : (nested (.scope name exported keyword body)).any isGeneric =
        (nestedOf body).any isGeneric := by
      simp [nested, isGeneric]
    rw [hany]
    by_cases hempty : texts = []
    · subst hempty
      generalize (nestedOf body).any isGeneric = generic at hblocks
      cases hblocks
      exact .ok ⟨_, laid_emptyScope hkeyword exported hname, by simp⟩
    · obtain ⟨lines, hlaid, hbound⟩ := hblocks.join hempty
      refine .ok ⟨_, hlaid.scope hkeyword exported hname, ?_⟩
      intro hgeneric
      rw [List.cons_append, ← List.singleton_append]
      exact ((hbound hgeneric).indent.append_left _).append_right _
  | .verbatim text, h => by
    have hkeeps := h (.verbatim text) (by simp [nested])
    cases hkeeps
  | .bare, h => by
    have hkeeps := h .bare (by simp [nested])
    cases hkeeps

/-- The same for several declarations, block by block. -/
theorem blocks_renderAll : (declarations : List Declaration) →
    (∀ inner ∈ nestedOf declarations, inner.keepsLines = true) →
    Outcomes (Blocks ((nestedOf declarations).any isGeneric)) (renderAll declarations)
      (renderAllValues declarations)
  | [], _ => by
    rw [renderAll, renderAllValues]
    exact .ok .nil
  | declaration :: rest, h => by
    rw [renderAll, renderAllValues]
    refine (block_render declaration fun inner hmem => h inner (by simp [nestedOf, hmem])).bind ?_
    intro text values hblock
    refine (blocks_renderAll rest fun inner hmem => h inner (by simp [nestedOf, hmem])).bind ?_
    intro texts others hblocks
    rw [nestedOf, List.any_append]
    exact .ok (.cons hblock hblocks)

end

end Declaration

/-! ### The import header -/

theorem importLine?_of_importHere? {chars : List Char} {found : ImportLine}
    (h : importHere? chars = some found) : importLine? true chars = some found := by
  cases chars with
  | nil => cases h
  | cons c rest => rw [importLine?, if_pos rfl, h]

/-- The import header is found where it stands. -/
theorem importLine?_importHeader {library : String} (hlibrary : Unbroken library.toList)
    {names : List String} (hne : names ≠ []) (hnames : '}' ∉ (", ".intercalate names).toList)
    (rest : List Char) :
    importLine? true ((importHeader library names).toList ++ '\n' :: rest) =
      some ⟨[], ' ' :: ((", ".intercalate names).toList ++ [' ']),
        '\'' :: (library.toList ++ ['\'']), '\n' :: rest⟩ := by
  refine importLine?_of_importHere? ?_
  let inner := ' ' :: ((", ".intercalate names).toList ++ [' '])
  let source := '\'' :: (library.toList ++ ['\''])
  have hchars : (importHeader library names).toList ++ '\n' :: rest =
      "import \x7b".toList ++ (inner ++ ("\x7d from ".toList ++ (source ++ '\n' :: rest))) := by
    rw [toList_importHeader library hne]
    simp [inner, source]
  have hinner : ∀ c ∈ inner, (c != '}') = true := by
    intro c hc
    rw [bne_iff_ne]
    rintro rfl
    exact hnames (by simpa [inner] using hc)
  have hsource : ∀ c ∈ source, (c != '\n') = true := by
    intro c hc
    have hunbroken : Unbroken source := by
      simp only [source, unbroken_cons, unbroken_append]
      exact ⟨by decide, hlibrary, by decide, by simp⟩
    rw [bne_iff_ne]
    rintro rfl
    exact absurd (hunbroken '\n' hc) (by decide)
  rw [importHere?, after?_eq_some_iff.2 hchars]
  simp only [Option.bind_eq_bind, Option.bind_some]
  rw [List.takeWhile_append_of_pos hinner, List.dropWhile_append_of_pos hinner]
  have htail : after? "\x7d from " (("\x7d from ".toList ++ (source ++ '\n' :: rest)).dropWhile
      (· != '}')) = some (source ++ '\n' :: rest) := after?_eq_some_iff.2 rfl
  rw [htail, Option.bind_some, List.takeWhile_append_of_pos hsource,
    List.dropWhile_append_of_pos hsource]
  simp [inner, source]

/-- A name with its own boundaries is found wherever it stands. -/
theorem containsWord_of_infix {text : List Char} (h : " TSchema>".toList <:+: text)
    (inside : Bool) :
    containsWord "TSchema".toList inside text = true := by
  obtain ⟨before, after, rfl⟩ := h
  induction before generalizing inside with
  | nil => simp [containsWord, isWord]
  | cons c before ih => rw [List.cons_append, List.cons_append, containsWord, ih, Bool.or_true]

def headerLine {library : String} (hlibrary : Unbroken library.toList) (generic : Bool) :
    EmittedLine :=
  @EmittedLine.kept (importHeader library (importNames true generic)).toList
    (unbroken_importHeader hlibrary generic)
    (fun rest => by
      rw [toList_importHeader library (by cases generic <;> decide)]
      rfl)

@[simp] theorem headerLine_chars {library : String} (hlibrary : Unbroken library.toList)
    (generic : Bool) : (headerLine hlibrary generic).chars =
      (importHeader library (importNames true generic)).toList := rfl

/-- Below the import header the static type lines go, and the header keeps what is needed. -/
theorem stripStatic_linesText {library : String} (hlibrary : Unbroken library.toList)
    (generic : Bool) (lines : List EmittedLine)
    (hbound : generic = true → BoundsParameter lines) :
    stripStatic (String.ofList (linesText (headerLine hlibrary generic :: lines))) =
      String.ofList ((importHeader library
        (if generic then ["Type", "TSchema"] else ["Type"])).toList ++
          '\n' :: linesText (keptLines lines)) := by
  have hfound := importLine?_importHeader hlibrary
    (show importNames true generic ≠ [] by cases generic <;> decide)
    (by cases generic <;> decide) (linesText (keptLines lines))
  have hneeded : neededImports
      (((splitCommas (' ' :: ((", ".intercalate (importNames true generic)).toList ++ [' ']))).map
        trimChars).filter (!·.isEmpty)) ('\n' :: linesText (keptLines lines)) =
      (if generic then ["Type", "TSchema"] else ["Type"]).map String.toList := by
    cases generic with
    | false =>
      have hnames : (((splitCommas (' ' :: ((", ".intercalate (importNames true false)).toList ++
          [' ']))).map trimChars).filter (!·.isEmpty)) = ["Type".toList, "Static".toList] := by
        decide
      rw [hnames, neededImports]
      split <;> rfl
    | true =>
      have hnames : (((splitCommas (' ' :: ((", ".intercalate (importNames true true)).toList ++
          [' ']))).map trimChars).filter (!·.isEmpty)) =
            ["Type".toList, "Static".toList, "TSchema".toList] := by
        decide
      obtain ⟨line, hmem, hoccurs⟩ := hbound rfl
      have hword : containsWord "TSchema".toList false ('\n' :: linesText (keptLines lines)) := by
        refine containsWord_of_infix (List.infix_cons (hoccurs.trans ?_)) false
        obtain ⟨before, after, hsplit⟩ := List.append_of_mem hmem
        rw [hsplit, linesText_append, linesText_cons]
        exact List.infix_append_of_infix_right (List.infix_append_left)
      rw [hnames, neededImports, hword]
      rfl
  have hkept : keptLines (headerLine hlibrary generic :: lines) =
      headerLine hlibrary generic :: keptLines lines := keptLines_cons_of_kept rfl lines
  rw [stripStatic, String.toList_ofList, dropStaticLines_linesText, hkept, linesText_cons,
    headerLine_chars, hfound]
  simp only [List.nil_append]
  rw [hneeded, toList_importHeader library (by cases generic <;> simp), String.toList_intercalate]
  simp

/-- The pass over the whole code of a file, block by block. -/
theorem stripStatic_blocks {library : String} (hlibrary : Unbroken library.toList) {generic : Bool}
    {texts values : List String} (h : Blocks generic texts values) :
    stripStatic (Text.join "\n\n" (importHeader library (importNames true generic) :: texts) ++
        "\n") =
      Text.join "\n\n" (importHeader library (if generic then ["Type", "TSchema"] else ["Type"]) ::
        values) ++ "\n" := by
  by_cases hempty : texts = []
  · subst hempty
    cases h
    have hstrip := stripStatic_linesText hlibrary false [] (by simp)
    have hcode : Text.join "\n\n" [importHeader library (importNames true false)] ++ "\n" =
        String.ofList (linesText [headerLine hlibrary false]) := by
      simp [Text.join]
    rw [hcode, hstrip, ← String.toList_inj]
    simp [Text.join, keptLines]
  · obtain ⟨lines, hlaid, hbound⟩ := h.join hempty
    have hstrip := stripStatic_linesText hlibrary generic (EmittedLine.blank :: lines)
      (fun hgeneric => (hbound hgeneric).append_right [_])
    have hvalues : values ≠ [] := by
      rintro rfl
      cases h
      exact hempty rfl
    have hcode :
        Text.join "\n\n" (importHeader library (importNames true generic) :: texts) ++ "\n" =
          String.ofList
            (linesText (headerLine hlibrary generic :: EmittedLine.blank :: lines)) := by
      rw [← String.toList_inj, Text.join, String.intercalate_cons_of_ne_nil hempty,
        String.toList_ofList, linesText_cons, linesText_cons, ← hlaid.text_eq,
        headerLine_chars]
      simp [Text.join]
    rw [hcode, hstrip, keptLines_cons_of_kept rfl, linesText_cons, ← hlaid.values_eq,
      ← String.toList_inj, Text.join, Text.join, String.intercalate_cons_of_ne_nil hvalues]
    simp

/-- An enumeration, and a generic schema with a key that looks like a keyword inside namespaces. -/
def boxFile : Module where
  declarations := [
    .enumeration "Side" false ["Left", "Right = 2"],
    .scope "Outer" true "namespace" [
      .scope "Inner" false "module" [
        .schema "Box" true (.call "Object" [.object [("type", .ref "T")]] []) ["T"]]]]
  usesSchema := true
  usesGenerics := true

end Schemata

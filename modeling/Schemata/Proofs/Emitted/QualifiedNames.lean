import Schemata.Proofs.Emitted.DeclaredValues
import Schemata.Proofs.Emitted.MemberNames
import Schemata.Proofs.Schema.LeafTexts
import Schemata.Proofs.Schema.Mentions

/-!
# Qualified names

A member of a namespace is referred to from outside by its qualified name, the name of the namespace
and that of the member with a point between them. Where the constant of the member is declared, on a
line inside of the namespace, the renaming gives it its new name; in a qualified name it stands
behind a point and stays. So a reference goes on meaning the member only if the member keeps its
name.
-/

namespace Schemata

namespace Emitted

open Text

/-! ### Lines of constants -/

/-- A line that declares a constant up to its name, moved to the right. -/
def constantHead (margin : Nat) (exported : Bool) : List Char :=
  List.replicate margin ' ' ++ (exportWord exported ++ "const ").toList

theorem constantHead_append (margin : Nat) (exported : Bool) (rest : List Char) :
    constantHead margin exported ++ rest =
      List.replicate margin ' ' ++ keywordLine exported "const" rest := by
  simp [constantHead, keywordLine, String.toList_append]

theorem unbroken_constantHead (margin : Nat) (exported : Bool) :
    Unbroken (constantHead margin exported) := by
  rw [constantHead, unbroken_append]
  refine ⟨fun c hc => ?_, by cases exported <;> decide⟩
  rw [(List.mem_replicate.1 hc).2]
  decide

theorem afterKeyword?_moved (keyword : String) (margin : Nat) (chars : List Char) :
    afterKeyword? keyword (List.replicate margin ' ' ++ chars) = afterKeyword? keyword chars := by
  induction margin with
  | zero => rfl
  | succ margin ih => rw [List.replicate_succ, List.cons_append, afterKeyword?_blank, ih]

section

variable {name : List Char} (hname : IsName name) (margin : Nat) (exported : Bool)
  (value : List Char)

theorem staticDeclaration?_constantLine :
    staticDeclaration? (constantHead margin exported ++ (name ++ (" = ".toList ++ value))) =
      none := by
  refine staticDeclaration?_of_none ?_
  rw [constantHead_append, afterKeyword?_moved, afterKeyword?_type_keywordLine (by simp)]

include hname

theorem valueDeclaration?_constantLine :
    valueDeclaration? (constantHead margin exported ++ (name ++ (" = ".toList ++ value))) =
      some (name, ' ' :: value) := by
  rw [constantHead_append, ← valueDeclaration?_valueLine hname exported value, valueDeclaration?,
    valueDeclaration?, afterKeyword?_moved]

theorem hiddenAt_constantLine (hidden : List (List Char)) :
    hiddenAt hidden ⟨constantHead margin exported ++ (name ++ (" = ".toList ++ value)), ['\n']⟩ =
      lineParameters (constantHead margin exported ++ (name ++ (" = ".toList ++ value))) := by
  obtain ⟨c, rest, rfl⟩ := List.exists_cons_of_ne_nil hname.1
  refine hiddenAt_head hidden (c := c) (by simp)
    (isBlank_eq_false_of_isNameChar (hname.2 c List.mem_cons_self)) (Or.inr ?_)
  rw [valueDeclaration?_constantLine hname]
  rfl

theorem reference_constantHead (rest : List Char) :
    Reference (constantHead margin exported) name (" = ".toList ++ rest) := by
  have hlast : (constantHead margin exported).getLast? = some ' ' := by
    rw [constantHead, String.toList_append, ← List.append_assoc,
      List.getLast?_append_of_ne_nil _ (by simp)]
    rfl
  refine ⟨hname, ?_, ?_, ?_, ?_, ?_⟩
  · rw [hlast]
    rintro c ⟨⟩
    decide
  · rintro c ⟨⟩
    decide
  · refine List.forall_mem_append.2 ⟨fun c hc => ?_, ?_⟩
    · rw [(List.mem_replicate.1 hc).2]
      decide
    · cases exported <;> exact List.forall_iff_forall_mem.1 (by decide)
  · rw [hlast]
    decide
  · change some '=' ≠ some ':'
    decide

end

/-- A text up to the beginning of one of its lines. -/
def LineStart (front : List Char) : Prop := front = [] ∨ front.getLast? = some '\n'

theorem LineStart.of_cases {front : List Char} (h : front = [] ∨ ∃ rest, front = rest ++ ['\n']) :
    LineStart front := h.imp_right List.getLast?_eq_some_iff.2

theorem LineStart.append {front more : List Char} (h : LineStart front) (hmore : LineStart more) :
    LineStart (front ++ more) := by
  rcases hmore with rfl | hlast
  · rwa [List.append_nil]
  · refine Or.inr ?_
    obtain ⟨init, rfl⟩ := List.getLast?_eq_some_iff.1 hlast
    rw [← List.append_assoc, List.getLast?_concat]

theorem splitLines_of_lineStart {front line : List Char} (hfront : LineStart front)
    (hline : Unbroken line) (back : List Char) :
    splitLines (front ++ (line ++ '\n' :: back)) =
      splitLines front ++ ⟨line, ['\n']⟩ :: splitLines back := by
  rcases hfront with rfl | hfront
  · simp [splitLines, splitLines_append_feed hline]
  · obtain ⟨init, rfl⟩ := List.getLast?_eq_some_iff.1 hfront
    rw [List.append_assoc, List.singleton_append, splitLines_feed_append,
      splitLines_append_feed hline]

section

variable {typeTemplate valueTemplate : String} {chars : List Char} {names : NewNames}
  (h : names.From typeTemplate valueTemplate chars) {front name value back : List Char}
  {margin : Nat} {exported : Bool} (hname : IsName name) (hfront : LineStart front)
  (hvalue : Unbroken value)
  (hchars : chars = front ++
    ((constantHead margin exported ++ (name ++ (" = ".toList ++ value))) ++ '\n' :: back))

include hname hfront hchars

/-- The constant of a line is declared in the text. -/
theorem mem_declaredValues_constantLine : name ∈ declaredValues true chars := by
  have hread := valueDeclaration?_constantLine hname margin exported (value ++ '\n' :: back)
  have hmem := mem_declaredValues hread
    (show front = [] ∧ true = true ∨ _ from hfront.imp_left fun hnil => ⟨hnil, rfl⟩)
  rw [hchars]
  simpa using hmem

include h hvalue

/-- Where it is declared it has its new name, unless a type parameter on the line hides it. -/
theorem respellsAt_constantLine :
    RespellsAt (NewName typeTemplate valueTemplate chars) chars (applyNames names chars)
      (front ++ constantHead margin exported) name
      (if name ∈ lineParameters (constantHead margin exported ++ (name ++ (" = ".toList ++ value)))
        then name else (names.values.get? name).getD name) := by
  have hunbroken :
      Unbroken (constantHead margin exported ++ (name ++ (" = ".toList ++ value))) := by
    rw [unbroken_append, unbroken_append, unbroken_append]
    exact ⟨unbroken_constantHead margin exported, hname.unbroken, by decide, hvalue⟩
  have hsplit := splitLines_of_lineStart hfront hunbroken back
  rw [← hchars] at hsplit
  have hpart : CodePart ⟨constantHead margin exported ++ (name ++ (" = ".toList ++ value)), ['\n']⟩
      [] (constantHead margin exported ++ (name ++ (" = ".toList ++ (value ++ ['\n'])))) := by
    have hwhole : CodePart ⟨constantHead margin exported ++ (name ++ (" = ".toList ++ value)),
        ['\n']⟩ [] _ := .whole fun head other rest hform => by
          have hread := staticDeclaration?_eq_some_iff.2 ⟨head, hform⟩
          rw [staticDeclaration?_constantLine] at hread
          cases hread
    simpa [Line.chars] using hwhole
  have hnew := respellsAt_reference h hsplit hpart (reference_constantHead hname margin exported _)
  rw [flatMap_chars_splitLines, List.nil_append, List.foldl_append, List.foldl_cons, List.foldl_nil,
    hiddenAt_constantLine hname] at hnew
  split
  · rename_i hmem
    rwa [Names.get?_visible_of_mem _ hmem] at hnew
  · rename_i hmem
    rwa [Names.get?_visible_of_not_mem _ hmem] at hnew

end

end Emitted

open Text Emitted

/-! ### Constants inside of namespaces -/

/-- The constant that a declaration declares, and whether it is exported. -/
def Declaration.constant? : Declaration → Option (String × Bool)
  | .schema name exported _ _ | .enumeration name exported _ => some (name, exported)
  | .scope _ _ _ _ | .verbatim _ | .bare => none

/-- A line inside of a namespace in the code of a file, which declares a constant. The code is cut
before and behind the namespace, the namespace above and below the line, and the line at the
name. -/
structure ConstantPlace where
  before : List Char
  above : List Char
  head : List Char
  name : List Char
  value : List Char
  below : List Char
  after : List Char

namespace ConstantPlace

def line (place : ConstantPlace) : List Char := place.head ++ (place.name ++ place.value)

def block (place : ConstantPlace) : List Char := place.above ++ (place.line ++ place.below)

def text (place : ConstantPlace) : List Char := place.before ++ (place.block ++ place.after)

def front (place : ConstantPlace) : List Char := place.before ++ place.above ++ place.head

/-- The constant of that name is declared on the line, which belongs to the namespace itself and not
to one inside of it. -/
structure Shows (place : ConstantPlace) (scope : Declaration) (name : String) (exported : Bool) :
    Prop where
  block : ∃ text depth, scope.render = .ok text ∧ place.block = indented^[depth] text.toList ∧
    place.head = constantHead (2 * (depth + 1)) exported
  name : place.name = name.toList
  value : ∃ rest, place.value = " = ".toList ++ rest ∧ Unbroken rest
  begins : LineStart (place.before ++ place.above)
  ends : (place.below ++ place.after).head? = some '\n'

end ConstantPlace

theorem standsOnLines_last (front head rest : String) :
    StandsOnLines (head.toList ++ rest.toList) (front ++ "\n" ++ (head ++ rest)).toList :=
  ⟨(front ++ "\n").toList, [], by simp, Or.inr ⟨front.toList, by simp⟩, Or.inl rfl⟩

theorem exists_constantLine {member : Declaration} {name text : String} {exported : Bool}
    (hconstant : member.constant? = some (name, exported)) (htext : member.render = .ok text) :
    ∃ rest, StandsOnLines ((exportWord exported ++ "const " ++ name ++ " = ").toList ++ rest)
      text.toList := by
  cases member with
  | schema own mark body parameters =>
    cases hconstant
    rw [Declaration.render] at htext
    obtain ⟨code, -, htext⟩ := bind_eq_ok_iff.1 htext
    cases htext
    exact ⟨_, standsOnLines_last _ _ _⟩
  | enumeration own mark members =>
    cases hconstant
    rw [Declaration.render] at htext
    cases htext
    have htext : enumerationText name exported members = (exportWord exported ++ "enum " ++ name ++
        "Enum " ++ (if ", ".intercalate members == "" then "\x7b\x7d"
          else "\x7b " ++ ", ".intercalate members ++ " \x7d") ++ "\n") ++ "\n" ++
        (exportWord exported ++ "const " ++ name ++ " = " ++
          ("Type.Enum(" ++ name ++ "Enum)")) := by
      rw [enumerationText, ← String.toList_inj]
      simp [String.toList_append]
    rw [htext]
    exact ⟨_, standsOnLines_last _ _ _⟩
  | scope _ _ _ _ => cases hconstant
  | verbatim _ => cases hconstant
  | bare => cases hconstant

theorem Module.getLast?_render {module : Module} {library code : String}
    (hcode : module.render library = .ok code) : code.toList.getLast? = some '\n' := by
  rw [render] at hcode
  obtain ⟨texts, -, hcode⟩ := bind_eq_ok_iff.1 hcode
  cases hcode
  rw [String.toList_append]
  exact List.getLast?_concat

/-- Where a text ends in a line feed, each of its lines does. -/
theorem exists_line_end {first rest below after : List Char} (hfirst : Unbroken first)
    (hrest : FeedsOnly rest) (hbelow : below = [] ∨ ∃ more, below = '\n' :: more)
    (hafter : after = [] ∨ ∃ more, after = '\n' :: more)
    (hlast : (first ++ (rest ++ (below ++ after))).getLast? = some '\n') :
    ∃ value below', rest ++ below = value ++ below' ∧ Unbroken value ∧
      (below' ++ after).head? = some '\n' := by
  by_cases hfeed : '\n' ∈ rest
  · obtain ⟨value, more, rfl, hvalue⟩ := List.eq_append_cons_of_mem hfeed
    rw [feedsOnly_append] at hrest
    exact ⟨value, '\n' :: more ++ below, by simp, hrest.1.unbroken hvalue, rfl⟩
  · refine ⟨rest, below, rfl, hrest.unbroken hfeed, ?_⟩
    rcases hbelow with rfl | ⟨more, rfl⟩
    · rcases hafter with rfl | ⟨more, rfl⟩
      · have hmem := List.mem_of_getLast? hlast
        simp only [List.append_nil, List.mem_append, hfeed, or_false] at hmem
        exact absurd hmem hfirst.feed_not_mem
      · rfl
    · rfl

theorem filled_scopeText (name : String) (exported : Bool) (keyword body : String) :
    Filled (scopeText name exported keyword body).toList :=
  ⟨'}', by simp [scopeText, String.toList_append], by decide⟩

/-- In the code of a namespace, however often that is moved, each of its constants is declared on a
line which is moved once more. -/
theorem exists_movedLine {scope keyword : String} {mark : Bool} {body : List Declaration}
    {member : Declaration} (hmember : member ∈ body) {name : String} {exported : Bool}
    (hconstant : member.constant? = some (name, exported)) (hname : IsName name.toList)
    {text : String} (htext : (Declaration.scope scope mark keyword body).render = .ok text)
    (depth : Nat) :
    ∃ rest, FeedsOnly rest ∧ StandsOnLines
      (constantHead (2 * (depth + 1)) exported ++ (name.toList ++ (" = ".toList ++ rest)))
      (indented^[depth] text.toList) := by
  obtain ⟨own, hown, hmoved⟩ := (Declaration.NestedAt.inside hmember .self).standsOnLines htext
  obtain ⟨rest, hline⟩ := exists_constantLine hconstant hown
  have hfirst : Unbroken (exportWord exported ++ "const " ++ name ++ " = ").toList := by
    simp only [String.toList_append, unbroken_append]
    exact ⟨⟨⟨by cases exported <;> decide, by decide⟩, hname.unbroken⟩, by decide⟩
  have hfilled : Filled ((exportWord exported ++ "const " ++ name ++ " = ").toList ++ rest) :=
    ⟨'=', by simp [String.toList_append], by decide⟩
  -- the line stands in the namespace, moved once, and then moves along with it
  have hinside := (hline.indented hfilled.ne_nil).trans (hmoved (hline.filled hfilled))
  have hstands := hinside.iterate (hfilled.iterate 1) depth
  rw [← Function.iterate_succ_apply indented] at hstands
  obtain ⟨rest', hrest⟩ := exists_iterate_indented hfirst (by simp) rest (depth + 1)
  have hfeeds : FeedsOnly (indented^[depth + 1]
      ((exportWord exported ++ "const " ++ name ++ " = ").toList ++ rest)) := by
    rw [Function.iterate_succ_apply', ← String.toList_ofList (l := indented^[depth] _),
      ← toList_indentLines]
    exact feedsOnly_indentLines _
  rw [hrest] at hstands hfeeds
  rw [feedsOnly_append, feedsOnly_append] at hfeeds
  refine ⟨rest', hfeeds.2.2, ?_⟩
  simpa only [constantHead, String.toList_append, List.append_assoc] using hstands

/-- The code of a file declares each constant of a namespace on a line inside of the namespace. -/
theorem Module.exists_constantPlace {module : Module} {library code : String}
    (hcode : module.render library = .ok code) {scope keyword : String} {mark : Bool}
    {body : List Declaration}
    (hscope : .scope scope mark keyword body ∈ Declaration.nestedOf module.declarations)
    {member : Declaration} (hmember : member ∈ body) {name : String} {exported : Bool}
    (hconstant : member.constant? = some (name, exported)) (hname : IsName name.toList) :
    ∃ place : ConstantPlace, place.text = code.toList ∧
      place.Shows (.scope scope mark keyword body) name exported := by
  obtain ⟨text, htext, hstands⟩ := module.standsOnLines_render hcode hscope
  have hfilled : Filled text.toList := by
    have hrender := htext
    rw [Declaration.render] at hrender
    obtain ⟨texts, -, hrender⟩ := bind_eq_ok_iff.1 hrender
    cases hrender
    exact filled_scopeText _ _ _ _
  obtain ⟨depth, before, after, hwhole, hbefore, hafter⟩ := hstands hfilled
  obtain ⟨rest, hfeeds, above, below, hblock, habove, hbelow⟩ :=
    exists_movedLine hmember hconstant hname htext depth
  have hhead :
      Unbroken (constantHead (2 * (depth + 1)) exported ++ (name.toList ++ " = ".toList)) := by
    rw [unbroken_append, unbroken_append]
    exact ⟨unbroken_constantHead _ _, hname.unbroken, by decide⟩
  have hlast := module.getLast?_render hcode
  have hcodeLine : code.toList = (before ++ above) ++
      ((constantHead (2 * (depth + 1)) exported ++ (name.toList ++ " = ".toList)) ++
        (rest ++ (below ++ after))) := by
    rw [hwhole, hblock]
    simp only [List.append_assoc]
  rw [hcodeLine, List.getLast?_append_of_ne_nil _ (by simp)] at hlast
  obtain ⟨value, below', hcut, hvalue, hends⟩ :=
    exists_line_end hhead hfeeds hbelow hafter hlast
  have hblockLine : indented^[depth] text.toList = above ++
      ((constantHead (2 * (depth + 1)) exported ++ (name.toList ++ (" = ".toList ++ value))) ++
        below') := by
    rw [hblock]
    simp only [List.append_assoc, hcut]
  refine ⟨⟨before, above, constantHead (2 * (depth + 1)) exported, name.toList,
    " = ".toList ++ value, below', after⟩, ?_, ⟨⟨text, depth, htext, hblockLine.symm, rfl⟩, rfl,
      ⟨value, rfl, hvalue⟩, ?_, hends⟩⟩
  · rw [hwhole, hblockLine]
    rfl
  · exact (LineStart.of_cases hbefore).append (LineStart.of_cases habove)

/-! ### References to members -/

/-- A member of a namespace is referred to in a text by its qualified name, and all that stands in
front of its own name is `before`. -/
def QualifiedAt (chars scope name before : List Char) : Prop :=
  ∃ front rest, before = front ++ (scope ++ ['.']) ∧ chars = before ++ (name ++ rest) ∧
    (∀ c ∈ front.getLast?, isNameChar c = false) ∧ ∀ c ∈ rest.head?, isNameChar c = false

/-- A reference that a declaration makes by a qualified name is in the code. -/
theorem Module.exists_qualifiedAt {module : Module} {library code : String}
    (hcode : module.render library = .ok code) {scope name : String}
    (hscope : Unbroken scope.toList) (hname : IsName name.toList) {referrer : Declaration}
    (hreferrer : referrer ∈ Declaration.nestedOf module.declarations)
    (hrefers : referrer.RefersTo (scope ++ "." ++ name)) :
    ∃ before, QualifiedAt code.toList scope.toList name.toList before := by
  obtain ⟨text, htext, -⟩ := module.standsOnLines_render hcode hreferrer
  have hword : Unbroken (scope ++ "." ++ name).toList := by
    simp only [String.toList_append, unbroken_append]
    exact ⟨⟨hscope, by decide⟩, hname.unbroken⟩
  obtain ⟨front, back, hparts, hfront, hback⟩ := module.exists_apart hcode hreferrer htext hword
    (by simp [String.toList_append]) (hrefers.standsApart htext)
  refine ⟨_, front, back, rfl, ?_, hfront, hback⟩
  rw [hparts]
  simp [String.toList_append]

/-- Renaming the code of a file in which a constant is declared inside of a namespace and referred
to by its qualified name. The reference keeps the name of the constant behind the point, wherever it
stands. The constant itself is declared by its new name, unless a type parameter on its own line
hides it. -/
theorem renameDeclarations_qualified (session : Session) (typeTemplate valueTemplate : String)
    {module : Module} {library code : String} (hcode : module.render library = .ok code)
    (hfills : FillsNames typeTemplate valueTemplate code.toList) {scope keyword : String}
    {mark : Bool} {body : List Declaration}
    (hscope : .scope scope mark keyword body ∈ Declaration.nestedOf module.declarations)
    (hunbroken : Unbroken scope.toList) {member : Declaration} (hmember : member ∈ body)
    {name : String} {exported : Bool} (hconstant : member.constant? = some (name, exported))
    (hname : IsName name.toList) {referrer : Declaration}
    (hreferrer : referrer ∈ Declaration.nestedOf module.declarations)
    (hrefers : referrer.RefersTo (scope ++ "." ++ name)) :
    ∃ out other, (Run.on session
        (renameDeclarations (.str typeTemplate) (.str valueTemplate) code)).1 = .ok out ∧
      fillTemplate valueTemplate name = .ok other ∧
      (∃ before, QualifiedAt code.toList scope.toList name.toList before) ∧
      (∀ before, QualifiedAt code.toList scope.toList name.toList before →
        RespellsAt (NewName typeTemplate valueTemplate code.toList) code.toList out.toList
          before name.toList name.toList) ∧
      ∃ place : ConstantPlace, place.text = code.toList ∧
        place.Shows (.scope scope mark keyword body) name exported ∧
        RespellsAt (NewName typeTemplate valueTemplate code.toList) code.toList out.toList
          place.front name.toList
          (if name.toList ∈ lineParameters place.line then name.toList else other.toList) := by
  obtain ⟨names, hfrom, hout⟩ := exists_renamed session hfills
  obtain ⟨place, hplace, hshows⟩ := module.exists_constantPlace hcode hscope hmember hconstant hname
  obtain ⟨value, hvalue, hunbrokenValue⟩ := hshows.value
  obtain ⟨-, depth, -, -, hhead⟩ := hshows.block
  obtain ⟨back, hback⟩ : ∃ back, place.below ++ place.after = '\n' :: back :=
    List.head?_eq_some_iff.1 hshows.ends
  have hchars : code.toList = (place.before ++ place.above) ++
      ((constantHead (2 * (depth + 1)) exported ++ (name.toList ++ (" = ".toList ++ value))) ++
        '\n' :: back) := by
    rw [← hplace, ConstantPlace.text, ConstantPlace.block, ConstantPlace.line, ← hback, ← hhead,
      ← hshows.name, ← hvalue]
    simp only [List.append_assoc]
  have hdeclared := mem_declaredValues_constantLine hname hshows.begins hchars
  have hconstantAt := respellsAt_constantLine hfrom hname hshows.begins hunbrokenValue hchars
  rw [← hhead, ← hvalue, ← hshows.name] at hconstantAt
  have hfill := hfrom.values.every name.toList hdeclared
  rw [String.ofList_toList] at hfill
  refine ⟨_, _, hout, hfill, module.exists_qualifiedAt hcode hunbroken hname hreferrer hrefers, ?_,
    place, hplace, hshows, ?_⟩
  · rintro before ⟨front, rest, rfl, hparts, -, hstop⟩
    rw [String.toList_ofList]
    exact respellsAt_behind_point hfrom hparts hname (by simp) hstop
  · rw [String.toList_ofList, String.toList_ofList, ← hshows.name]
    exact hconstantAt

/-- `export type A = string`, which stands inside of a namespace. -/
def memberAlias : Declaration := .schema "A" true (.constant "String") []

/-- `type T = N.A`. -/
def memberReferrer : Declaration := .schema "T" false (.ref "N.A") []

def memberFile : Module where
  declarations := [.scope "N" false "namespace" [memberAlias], memberReferrer]
  usesSchema := true
  usesGenerics := false

def memberCode : String :=
  "import \x7b Type, Static \x7d from 'typebox'\n\nnamespace N \x7b\n" ++
    "  export type A = Static<typeof A>\n  export const A = Type.String()\n\x7d\n\n" ++
    "type T = Static<typeof T>\nconst T = N.A\n"

theorem render_memberFile : memberFile.render "typebox" = .ok memberCode := by decide +kernel

theorem fillsNames_memberCode :
    FillsNames plainTemplate "\x7bname\x7dSchema" memberCode.toList := by
  obtain ⟨hvalues, htypes⟩ : declaredValues true memberCode.toList = [['A'], ['T']] ∧
      declaredTypes memberCode.toList = [['A'], ['T']] := by decide +kernel
  constructor
  · rw [hvalues, Fills, List.forall_mem_cons, List.forall_mem_singleton]
    exact ⟨⟨"ASchema", by decide +kernel, by decide⟩, ⟨"TSchema", by decide +kernel, by decide⟩⟩
  · rw [htypes, Fills, List.forall_mem_cons, List.forall_mem_singleton]
    exact ⟨⟨"A", by decide +kernel, by decide⟩, ⟨"T", by decide +kernel, by decide⟩⟩

theorem renameDeclarations_memberFile :
    ∃ out, (Run.on emptySession (renameDeclarations (.str plainTemplate)
        (.str "\x7bname\x7dSchema") memberCode)).1 = .ok out ∧
      ∃ before, QualifiedAt memberCode.toList ['N'] ['A'] before ∧
        RespellsAt (NewName plainTemplate "\x7bname\x7dSchema" memberCode.toList)
          memberCode.toList out.toList before ['A'] ['A'] := by
  have hscope : .scope "N" false "namespace" [memberAlias] ∈
      Declaration.nestedOf memberFile.declarations := List.mem_cons_self
  have hreferrer : memberReferrer ∈ Declaration.nestedOf memberFile.declarations :=
    List.mem_cons_of_mem _ (List.mem_cons_of_mem _ List.mem_cons_self)
  have hrefers : memberReferrer.RefersTo ("N" ++ "." ++ "A") :=
    ⟨("N.A", []), List.mem_cons_self, rfl⟩
  obtain ⟨out, other, hout, -, ⟨before, hplace⟩, hkept, -⟩ := renameDeclarations_qualified
    emptySession plainTemplate "\x7bname\x7dSchema" render_memberFile fillsNames_memberCode
    hscope (by decide) List.mem_cons_self rfl (by decide) hreferrer hrefers
  exact ⟨out, hout, before, hplace, hkept before hplace⟩

/-- The code of the file under new names for its values, up to the reference. -/
def renamedMemberLead : String :=
  "import \x7b Type, Static \x7d from 'typebox'\n\nnamespace N \x7b\n" ++
    "  export type A = Static<typeof ASchema>\n  export const ASchema = Type.String()\n\x7d\n\n" ++
    "type T = Static<typeof TSchema>\nconst TSchema ="

def renamedMemberCode : String := renamedMemberLead ++ " N.A\n"

theorem exists_qualifiedAt_renamedMemberCode :
    ∃ before, QualifiedAt renamedMemberCode.toList ['N'] ['A'] before := by
  refine ⟨_, renamedMemberLead.toList ++ [' '], ['\n'], rfl, ?_, ?_, ?_⟩
  · rw [renamedMemberCode, String.toList_append]
    simp
  · rw [List.getLast?_concat]
    rintro c ⟨⟩
    decide
  · rintro c ⟨⟩
    decide

/-- The reference does not go along with the constant: there is no value left that it could mean. -/
theorem not_follows_memberFile :
    memberFile.render "typebox" = .ok memberCode ∧
      FillsNames plainTemplate "\x7bname\x7dSchema" memberCode.toList ∧
      memberReferrer.RefersTo "N.A" ∧
      ¬∃ out shown, (Run.on emptySession (renameDeclarations (.str plainTemplate)
          (.str "\x7bname\x7dSchema") memberCode)).1 = .ok out ∧
        shown ∈ declaredValues true out.toList ∧
        ∀ before name, QualifiedAt out.toList ['N'] name before → name = shown := by
  refine ⟨render_memberFile, fillsNames_memberCode, ⟨("N.A", []), List.mem_cons_self, rfl⟩, ?_⟩
  rintro ⟨out, shown, hout, hdeclared, hfollows⟩
  have hrun : (Run.on emptySession (renameDeclarations (.str plainTemplate)
      (.str "\x7bname\x7dSchema") memberCode)).1.toOption = some renamedMemberCode := by
    decide +kernel
  rw [hout] at hrun
  obtain rfl : out = renamedMemberCode := Option.some.inj hrun
  obtain ⟨before, hplace⟩ := exists_qualifiedAt_renamedMemberCode
  rw [← hfollows _ _ hplace] at hdeclared
  exact absurd hdeclared (by decide +kernel)

end Schemata

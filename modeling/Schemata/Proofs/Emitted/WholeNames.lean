import Schemata.Proofs.Emitted.Literals
import Schemata.Proofs.Emitted.RenamedModule
import Schemata.Proofs.Emitted.StaticForms

/-!
# Renaming whole names

Whatever text is renamed, the outcome is the text with other names in it: a declared value may have
become its new name, the name behind the keyword of a static type its own, and nothing else has
changed. Where a value stands as a reference in plain code, and where a static type is declared, the
new name is there. A step of the renaming is one line, so this is shown of a line and carried along
the text, where a name never goes on from one line to the next.
-/

namespace Schemata.Emitted

open Text

/-! ### Renaming a line -/

theorem Names.get?_of_visible {names : Names} {hidden : List (List Char)} {name other : List Char}
    (h : (names.visible hidden).get? name = some other) : names.get? name = some other := by
  by_cases hmem : name ∈ hidden
  · rw [names.get?_visible_of_mem hmem] at h
    cases h
  · rwa [names.get?_visible_of_not_mem hmem] at h

theorem Names.isName_getD {names : Names} (hnames : ∀ entry ∈ names, IsName entry.2)
    {name : List Char} (hname : IsName name) : IsName ((names.get? name).getD name) := by
  cases hget : names.get? name with
  | none => exact hname
  | some other => exact hnames _ (Names.mem_of_get? hget)

structure NewNames.Named (names : NewNames) : Prop where
  values : ∀ entry ∈ names.values, IsName entry.2
  types : ∀ entry ∈ names.types, IsName entry.2

theorem NewNames.Named.visible {names : NewNames} (h : names.Named) (hidden : List (List Char)) :
    ∀ entry ∈ names.values.visible hidden, IsName entry.2 :=
  fun entry hentry => h.values entry (List.mem_of_mem_filter hentry)

/-- The part of a line that is renamed as code, behind the part that is not: all of the line, or
what follows the name of the static type that it declares. -/
inductive CodePart (line : Line) : List Char → List Char → Prop where
  | whole (h : ∀ head name rest, ¬StaticForm line.body head name rest) : CodePart line [] line.chars
  | behind {head name rest : List Char} (h : StaticForm line.body head name rest) :
      CodePart line (head ++ name) (rest ++ line.ending)

theorem exists_codePart (line : Line) : ∃ lead code, CodePart line lead code := by
  by_cases h : ∃ head name rest, StaticForm line.body head name rest
  · obtain ⟨head, name, rest, hform⟩ := h
    exact ⟨_, _, .behind hform⟩
  · exact ⟨[], line.chars, .whole fun head name rest hform => h ⟨head, name, rest, hform⟩⟩

theorem CodePart.chars_eq {line : Line} {lead code : List Char} (h : CodePart line lead code) :
    line.chars = lead ++ code := by
  cases h with
  | whole h => rfl
  | behind h =>
    rw [Line.chars, h.line_eq]
    simp only [List.append_assoc]

theorem CodePart.apart {line : Line} {lead code : List Char} (h : CodePart line lead code) :
    Apart lead code := by
  cases h with
  | whole h => exact Or.inl (by simp)
  | behind h => exact Or.inr (h.stop_append _)

theorem renameLine_whole (names : NewNames) (hidden : List (List Char)) {line : Line}
    (hending : ∀ c ∈ line.ending, isLineBreak c = true)
    (h : ∀ head name rest, ¬StaticForm line.body head name rest) :
    renameLine names hidden line = renameValues (names.values.visible hidden) line.chars := by
  cases hread : staticDeclaration? (Line.withoutFeed line) with
  | none =>
    rw [renameLine, hread]
    rfl
  | some found =>
    obtain ⟨head, hform⟩ := staticDeclaration?_eq_some_iff.1 hread
    obtain ⟨rest, hbody, -⟩ := hform.exists_of_breaks fun c hc =>
      hending c (List.mem_of_mem_filter hc)
    exact absurd hbody (h head found.1 rest)

theorem renameLine_behind (names : NewNames) (hidden : List (List Char)) {line : Line}
    {head name rest : List Char} (h : StaticForm line.body head name rest) :
    renameLine names hidden line = head ++ (names.types.get? name).getD name ++
      renameValues (names.values.visible hidden) (rest ++ line.ending) := by
  have hform := h.append (line.ending.filter (· != '\n'))
  have hread : staticDeclaration? (Line.withoutFeed line) =
      some (name, rest ++ line.ending.filter (· != '\n')) :=
    staticDeclaration?_eq_some_iff.2 ⟨head, hform⟩
  have htake : (Line.withoutFeed line).take ((Line.withoutFeed line).length -
      (rest ++ line.ending.filter (· != '\n')).length - name.length) = head := by
    rw [show Line.withoutFeed line = _ from hform.line_eq]
    refine List.take_left' ?_
    simp only [List.length_append]
    omega
  have hdrop : line.chars.drop (head.length + name.length) = rest ++ line.ending := by
    rw [Line.chars, h.line_eq, List.append_assoc, List.append_assoc, ← List.append_assoc,
      ← List.length_append, List.drop_left]
  rw [renameLine, hread]
  simp only [htake, hdrop]
  rfl

/-- What may stand for a name on a line: the new name of a value, or that of the static type which
the line declares. -/
def LineName (names : NewNames) (line : Line) (before place name other : List Char) : Prop :=
  names.values.get? name = some other ∨ names.types.get? name = some other ∧
    ∃ head rest, StaticForm line.body head name rest ∧ place = before ++ head

section

variable {names : NewNames} (hnames : names.Named) (hidden : List (List Char))

include hnames

theorem respells_code (line : Line) (before place chars : List Char) :
    Respells (LineName names line before) place chars
      (renameValues (names.values.visible hidden) chars) := by
  have houtside := renamesOutside_renameValues (hnames.visible hidden) chars
  exact (houtside.respells place).mono fun _ _ _ hget => Or.inl (Names.get?_of_visible hget)

/-- The part of a line that is no code: only the name of the type may be another. -/
theorem CodePart.exists_renameLine {line : Line} {lead code : List Char}
    (h : CodePart line lead code) (hending : ∀ c ∈ line.ending, isLineBreak c = true)
    (before : List Char) :
    ∃ lead', renameLine names hidden line =
        lead' ++ renameValues (names.values.visible hidden) code ∧
      Respells (LineName names line before) before lead lead' := by
  cases h with
  | whole h => exact ⟨[], renameLine_whole names hidden hending h, .nil⟩
  | @behind head name rest h =>
    refine ⟨_, renameLine_behind names hidden h, ?_⟩
    have hblank := h.head.last_blank
    have hnew : (names.types.get? name).getD name = name ∨
        LineName names line before (before ++ head) name ((names.types.get? name).getD name) := by
      cases hget : names.types.get? name with
      | none => exact Or.inl rfl
      | some other => exact Or.inr (Or.inr ⟨hget, head, rest, h, rfl⟩)
    refine (Respells.refl before head).append ?_
      (Or.inl fun c hc => isNameChar_eq_false_of_isBlank (hblank c hc))
    simpa using Respells.name h.name (Names.isName_getD hnames.types h.name) (by simp) hnew .nil

/-- One line: a declared value may become its new name, and so may the name of a static type. -/
theorem respells_renameLine {line : Line} (hending : ∀ c ∈ line.ending, isLineBreak c = true)
    (before : List Char) :
    Respells (LineName names line before) before line.chars (renameLine names hidden line) := by
  obtain ⟨lead, code, hpart⟩ := exists_codePart line
  obtain ⟨lead', hline, hlead⟩ := hpart.exists_renameLine hnames hidden hending before
  rw [hline, hpart.chars_eq]
  exact hlead.append (respells_code hnames hidden line before _ code) hpart.apart

end

theorem renameLines_append (names : NewNames) (hidden : List (List Char))
    (first second : List Line) :
    renameLines names hidden (first ++ second) = renameLines names hidden first ++
      renameLines names (first.foldl hiddenAt hidden) second := by
  induction first generalizing hidden with
  | nil => rfl
  | cons line first ih =>
    rw [List.cons_append, renameLines, renameLines, ih, List.foldl_cons, List.append_assoc]

theorem applyNames_of_splitLines (names : NewNames) {chars : List Char} {earlier later : List Line}
    {line : Line} (hsplit : splitLines chars = earlier ++ line :: later) :
    applyNames names chars = renameLines names [] earlier ++
      (renameLine names ((earlier ++ [line]).foldl hiddenAt []) line ++
        renameLines names ((earlier ++ [line]).foldl hiddenAt []) later) := by
  rw [applyNames, hsplit, renameLines_append, renameLines, List.foldl_append]
  rfl

/-- All lines: what holds of each of them, in its place, holds of the text. -/
theorem respells_renameLines {may : List Char → List Char → List Char → Prop} {names : NewNames}
    {lines : List Line} (hchain : lines.IsChain fun line _ => line.ending ≠ [])
    (hendings : ∀ line ∈ lines, ∀ c ∈ line.ending, isLineBreak c = true) (before : List Char)
    (hline : ∀ hidden earlier line later, lines = earlier ++ line :: later →
      Respells may (before ++ earlier.flatMap Line.chars) line.chars
        (renameLine names hidden line)) (hidden : List (List Char)) :
    Respells may before (lines.flatMap Line.chars) (renameLines names hidden lines) := by
  induction lines generalizing before hidden with
  | nil => exact .nil
  | cons line lines ih =>
    rw [List.forall_mem_cons] at hendings
    rw [List.isChain_cons] at hchain
    have hrest := ih hchain.2 hendings.2 (before ++ line.chars)
      (fun hidden earlier other later heq => by
        have hplace := hline hidden (line :: earlier) other later (by rw [heq]; rfl)
        simpa using hplace) (hiddenAt hidden line)
    have hfirst := hline (hiddenAt hidden line) [] line lines rfl
    rw [List.flatMap_nil, List.append_nil] at hfirst
    rw [List.flatMap_cons, renameLines]
    refine hfirst.append hrest ?_
    cases lines with
    | nil => exact Or.inr (by simp)
    | cons next lines => exact (endsLine_chars (hchain.1 next (by simp)) hendings.1).apart _

/-! ### New names by templates -/

/-- A template turns each of some names into a name. -/
def Fills (template : String) (declared : List (List Char)) : Prop :=
  ∀ name ∈ declared, ∃ other,
    fillTemplate template (String.ofList name) = .ok other ∧ IsName other.toList

theorem Fills.eraseDups {template : String} {declared : List (List Char)}
    (h : Fills template declared) : Fills template declared.eraseDups :=
  fun name hname => h name (List.mem_eraseDups.1 hname)

/-- A template turns each of some names into itself. -/
def Retains (template : String) (declared : List (List Char)) : Prop :=
  ∀ name ∈ declared, fillTemplate template (String.ofList name) = .ok (String.ofList name)

structure FillsNames (typeTemplate valueTemplate : String) (chars : List Char) : Prop where
  values : Fills valueTemplate (declaredValues true chars)
  types : Fills typeTemplate (declaredTypes chars)

/-- The new names are those that a template gives to some names; one that is missing stays. -/
structure Names.From (template : String) (declared : List (List Char)) (names : Names) : Prop where
  entries : ∀ entry ∈ names, entry.1 ∈ declared ∧
    fillTemplate template (String.ofList entry.1) = .ok (String.ofList entry.2) ∧ IsName entry.2
  every : ∀ name ∈ declared, fillTemplate template (String.ofList name) =
    .ok (String.ofList ((names.get? name).getD name))

/-- The new names are those that the templates give to declared names. -/
structure NewNames.From (typeTemplate valueTemplate : String) (chars : List Char)
    (names : NewNames) : Prop where
  values : names.values.From valueTemplate (declaredValues true chars)
  types : names.types.From typeTemplate (declaredTypes chars)

theorem NewNames.From.named {typeTemplate valueTemplate : String} {chars : List Char}
    {names : NewNames} (h : names.From typeTemplate valueTemplate chars) : names.Named where
  values entry hentry := (h.values.entries entry hentry).2.2
  types entry hentry := (h.types.entries entry hentry).2.2

theorem from_nil {template : String} {declared : List (List Char)} (h : Retains template declared) :
    Names.From template declared [] :=
  ⟨by simp, h⟩

theorem exists_fillAll {template : String} {declared : List (List Char)}
    (h : Fills template declared) :
    ∃ filled : Names, fillAll template declared = .ok filled ∧ filled.From template declared := by
  induction declared with
  | nil => exact ⟨[], rfl, from_nil (by simp [Retains])⟩
  | cons name names ih =>
    obtain ⟨other, hother, hname⟩ := h name (by simp)
    obtain ⟨filled, hfilled, hfrom⟩ := ih fun name hmem => h name (by simp [hmem])
    refine ⟨(name, other.toList) :: filled, ?_, ?_, ?_⟩
    · rw [fillAll] at hfilled ⊢
      rw [List.mapM_cons, hother, hfilled]
      rfl
    · refine List.forall_mem_cons.2 ⟨⟨by simp, by simpa using hother, hname⟩, ?_⟩
      intro entry hentry
      obtain ⟨hmem, hfill⟩ := hfrom.entries entry hentry
      exact ⟨by simp [hmem], hfill⟩
    · intro asked hasked
      by_cases hsame : name = asked
      · subst hsame
        simpa [Names.get?] using hother
      · have hfill := hfrom.every asked
          ((List.mem_cons.1 hasked).resolve_left fun heq => hsame heq.symm)
        simpa [Names.get?, hsame] using hfill

/-- The names that change are enough. -/
theorem Names.From.changed {template : String} {declared : List (List Char)} {names : Names}
    (h : names.From template declared) :
    Names.From template declared (names.filter fun entry => entry.1 != entry.2) where
  entries entry hentry := h.entries entry (List.mem_of_mem_filter hentry)
  every name hname := by
    rw [getD_get?_changed]
    · exact h.every name hname
    · intro entry hentry other hother hsame
      have hfirst := (h.entries entry hentry).2.1
      rw [hsame, (h.entries other hother).2.1] at hfirst
      exact String.ofList_injective (Except.ok.inj hfirst).symm

theorem Names.From.of_eraseDups {template : String} {declared : List (List Char)} {names : Names}
    (h : names.From template declared.eraseDups) : names.From template declared where
  entries entry hentry := by
    obtain ⟨hmem, hfill⟩ := h.entries entry hentry
    exact ⟨List.mem_eraseDups.1 hmem, hfill⟩
  every name hname := h.every name (List.mem_eraseDups.2 hname)

theorem exists_newNames {typeTemplate valueTemplate : String} {chars : List Char}
    (h : FillsNames typeTemplate valueTemplate chars) :
    ∃ names, newNames typeTemplate valueTemplate chars = .ok names ∧
      names.From typeTemplate valueTemplate chars := by
  obtain ⟨values, hvalues, hfrom⟩ := exists_fillAll h.values.eraseDups
  obtain ⟨types, htypes, hfrom'⟩ := exists_fillAll h.types.eraseDups
  exact ⟨_, by rw [newNames, hvalues, htypes]; rfl, hfrom.of_eraseDups.changed, hfrom'.of_eraseDups⟩

/-! ### Names in their places -/

/-- A name stands right behind the keyword on a line that declares a static type. -/
def StaticNameAt (chars before name : List Char) : Prop :=
  ∃ earlier line later head rest, splitLines chars = earlier ++ line :: later ∧
    StaticForm line.body head name rest ∧ before = earlier.flatMap Line.chars ++ head

/-- A name stands as a reference in the code of a line, where no type parameter hides it. -/
def ReferenceAt (chars before name : List Char) : Prop :=
  ∃ earlier line later lead front rest, splitLines chars = earlier ++ line :: later ∧
    CodePart line lead (front ++ (name ++ rest)) ∧ Reference front name rest ∧
    name ∉ (earlier ++ [line]).foldl hiddenAt [] ∧
    before = earlier.flatMap Line.chars ++ (lead ++ front)

theorem StaticNameAt.mem_declaredTypes {chars before name : List Char}
    (h : StaticNameAt chars before name) : name ∈ declaredTypes chars := by
  obtain ⟨earlier, line, later, head, rest, hlines, hform, -⟩ := h
  refine List.mem_filterMap.2 ⟨line, by simp [hlines], ?_⟩
  rw [staticDeclaration?_eq_some_iff.2 ⟨head, hform⟩]
  rfl

/-- The new name that a name may have: a declared value is named by one template, the type that a
static type line declares by the other. -/
inductive NewName (typeTemplate valueTemplate : String) (chars : List Char) :
    List Char → List Char → List Char → Prop where
  | value {before name other : List Char} (hname : name ∈ declaredValues true chars)
      (hfill : fillTemplate valueTemplate (String.ofList name) = .ok (String.ofList other)) :
      NewName typeTemplate valueTemplate chars before name other
  | type {before name other : List Char} (hplace : StaticNameAt chars before name)
      (hfill : fillTemplate typeTemplate (String.ofList name) = .ok (String.ofList other)) :
      NewName typeTemplate valueTemplate chars before name other

/-- The new name that a name has to have: a declared value wherever it is referred to, a static type
where it is declared. -/
inductive DueName (typeTemplate valueTemplate : String) (chars : List Char) :
    List Char → List Char → List Char → Prop where
  | value {before name other : List Char} (hname : name ∈ declaredValues true chars)
      (hplace : ReferenceAt chars before name)
      (hfill : fillTemplate valueTemplate (String.ofList name) = .ok (String.ofList other)) :
      DueName typeTemplate valueTemplate chars before name other
  | type {before name other : List Char} (hplace : StaticNameAt chars before name)
      (hfill : fillTemplate typeTemplate (String.ofList name) = .ok (String.ofList other)) :
      DueName typeTemplate valueTemplate chars before name other

section

variable {typeTemplate valueTemplate : String} {chars : List Char} {names : NewNames}
  (h : names.From typeTemplate valueTemplate chars) {earlier later : List Line} {line : Line}

include h

theorem newName_of_lineName (hsplit : splitLines chars = earlier ++ line :: later)
    {place name other : List Char}
    (hname : LineName names line (earlier.flatMap Line.chars) place name other) :
    NewName typeTemplate valueTemplate chars place name other := by
  rcases hname with hvalue | ⟨htype, head, rest, hform, hplace⟩
  · obtain ⟨hname, hfill, -⟩ := h.values.entries _ (Names.mem_of_get? hvalue)
    exact .value hname hfill
  · obtain ⟨-, hfill, -⟩ := h.types.entries _ (Names.mem_of_get? htype)
    exact .type ⟨earlier, line, later, head, rest, hsplit, hform, hplace⟩ hfill

/-- Lines in their place. -/
theorem respells_lines {lines : List Line}
    (hsplit : splitLines chars = earlier ++ (lines ++ later)) (hidden : List (List Char)) :
    Respells (NewName typeTemplate valueTemplate chars) (earlier.flatMap Line.chars)
      (lines.flatMap Line.chars) (renameLines names hidden lines) := by
  have hchain := isChain_splitLines chars
  have hendings := @isLineBreak_of_mem_ending chars
  rw [hsplit] at hchain hendings
  refine respells_renameLines (hchain.right_of_append.left_of_append)
    (fun line hline => hendings line (by simp [hline])) _ ?_ hidden
  rintro hidden before line after rfl
  have hplace : splitLines chars = (earlier ++ before) ++ line :: (after ++ later) := by
    rw [hsplit]
    simp
  rw [← List.flatMap_append]
  exact (respells_renameLine h.named hidden (hendings line (by simp)) _).mono
    fun _ _ _ => newName_of_lineName h hplace

theorem respells_applyNames :
    Respells (NewName typeTemplate valueTemplate chars) [] chars (applyNames names chars) := by
  have hlines := respells_lines h
    (show splitLines chars = [] ++ (splitLines chars ++ []) by simp) []
  rwa [flatMap_chars_splitLines] at hlines

/-- What becomes of a name on its line becomes of it in the text. -/
theorem respellsAt_line (hsplit : splitLines chars = earlier ++ line :: later)
    {front name other rest front' rest' : List Char} (hchars : line.chars = front ++ (name ++ rest))
    (hline : renameLine names ((earlier ++ [line]).foldl hiddenAt []) line =
      front' ++ (other ++ rest'))
    (hfront : Respells (LineName names line (earlier.flatMap Line.chars))
      (earlier.flatMap Line.chars) front front')
    (hrest : Respells (LineName names line (earlier.flatMap Line.chars))
      (earlier.flatMap Line.chars ++ front ++ name) rest rest') :
    RespellsAt (NewName typeTemplate valueTemplate chars) chars (applyNames names chars)
      (earlier.flatMap Line.chars ++ front) name other := by
  have hmono := fun place name other => @newName_of_lineName _ _ _ _ h _ _ _ hsplit place name other
  have hearlier := respells_lines h
    (show splitLines chars = [] ++ (earlier ++ line :: later) by simp [hsplit]) []
  have hlater := respells_lines h
    (show splitLines chars = (earlier ++ [line]) ++ (later ++ []) by simp [hsplit])
    ((earlier ++ [line]).foldl hiddenAt [])
  -- no name goes on behind the end of the line, so the three texts may be put together again
  have hapart : Apart rest (later.flatMap Line.chars) := by
    cases later with
    | nil => exact Or.inr (by simp)
    | cons next later =>
      have hends := endsLine_lines
        (show splitLines chars = (earlier ++ [line]) ++ next :: later by simp [hsplit])
      rw [List.flatMap_append, List.flatMap_singleton, hchars] at hends
      exact hends.of_append.of_append.of_append.apart _
  refine ⟨rest ++ later.flatMap Line.chars, renameLines names [] earlier ++ front',
    rest' ++ renameLines names ((earlier ++ [line]).foldl hiddenAt []) later, ?_, ?_,
    hearlier.append (hfront.mono hmono) ((endsLine_lines hsplit).apart _),
    (hrest.mono hmono).append ?_ hapart⟩
  · have hwhole := flatMap_chars_splitLines chars
    rw [hsplit, List.flatMap_append, List.flatMap_cons, hchars] at hwhole
    simpa using hwhole.symm
  · rw [applyNames_of_splitLines names hsplit, hline]
    simp only [List.append_assoc]
  · rw [List.flatMap_append, List.flatMap_singleton, hchars] at hlater
    simpa using hlater

/-- A reference becomes the new name of its value, unless the value is hidden on the line. -/
theorem respellsAt_reference (hsplit : splitLines chars = earlier ++ line :: later)
    {lead front name rest : List Char} (hpart : CodePart line lead (front ++ (name ++ rest)))
    (href : Reference front name rest) :
    RespellsAt (NewName typeTemplate valueTemplate chars) chars (applyNames names chars)
      (earlier.flatMap Line.chars ++ (lead ++ front)) name
      (((names.values.visible ((earlier ++ [line]).foldl hiddenAt [])).get? name).getD name) := by
  have hending := @isLineBreak_of_mem_ending chars line (by simp [hsplit])
  have hvalue : ∀ place name other,
      (names.values.visible ((earlier ++ [line]).foldl hiddenAt [])).get? name = some other →
        LineName names line (earlier.flatMap Line.chars) place name other :=
    fun _ _ _ hget => Or.inl (Names.get?_of_visible hget)
  obtain ⟨lead', hline, hlead⟩ := hpart.exists_renameLine h.named
    ((earlier ++ [line]).foldl hiddenAt []) hending (earlier.flatMap Line.chars)
  obtain ⟨front', rest', hcode, hfront, hrest⟩ := href.exists_renameValues
    (h.named.visible ((earlier ++ [line]).foldl hiddenAt [])) (earlier.flatMap Line.chars ++ lead)
  rw [hcode, ← List.append_assoc] at hline
  refine respellsAt_line h hsplit ?_ hline
    (hlead.append (hfront.mono hvalue) hpart.apart.left) ((hrest.respells _).mono hvalue)
  rw [hpart.chars_eq, List.append_assoc]

theorem ReferenceAt.respellsAt {before name : List Char} (hplace : ReferenceAt chars before name) :
    RespellsAt (NewName typeTemplate valueTemplate chars) chars (applyNames names chars)
      before name ((names.values.get? name).getD name) := by
  obtain ⟨earlier, line, later, lead, front, rest, hsplit, hpart, href, hseen, rfl⟩ := hplace
  have hnew := respellsAt_reference h hsplit hpart href
  rwa [Names.get?_visible_of_not_mem _ hseen] at hnew

theorem StaticNameAt.respellsAt {before name : List Char}
    (hplace : StaticNameAt chars before name) :
    RespellsAt (NewName typeTemplate valueTemplate chars) chars (applyNames names chars)
      before name ((names.types.get? name).getD name) := by
  obtain ⟨earlier, line, later, head, rest, hsplit, hform, rfl⟩ := hplace
  have hline := renameLine_behind names ((earlier ++ [line]).foldl hiddenAt []) hform
  rw [List.append_assoc] at hline
  refine respellsAt_line h hsplit ?_ hline (.refl _ _) (respells_code h.named _ line _ _ _)
  rw [(CodePart.behind hform).chars_eq, List.append_assoc]

/-- A name that has to have its new name has it. -/
theorem DueName.respellsAt {before name other : List Char}
    (hdue : DueName typeTemplate valueTemplate chars before name other) :
    RespellsAt (NewName typeTemplate valueTemplate chars) chars (applyNames names chars)
      before name other := by
  cases hdue with
  | value hname hplace hfill =>
    have hother := h.values.every name hname
    rw [hfill] at hother
    rw [String.ofList_injective (Except.ok.inj hother)]
    exact hplace.respellsAt h
  | type hplace hfill =>
    have hother := h.types.every name hplace.mem_declaredTypes
    rw [hfill] at hother
    rw [String.ofList_injective (Except.ok.inj hother)]
    exact hplace.respellsAt h

end

section

variable {typeTemplate valueTemplate : String} {chars : List Char}

theorem NewName.eq_of_retains (hvalues : Retains valueTemplate (declaredValues true chars))
    (htypes : Retains typeTemplate (declaredTypes chars)) {before name other : List Char}
    (h : NewName typeTemplate valueTemplate chars before name other) : other = name := by
  have hsame : ∀ {template : String},
      fillTemplate template (String.ofList name) = .ok (String.ofList name) →
      fillTemplate template (String.ofList name) = .ok (String.ofList other) → other = name := by
    intro template hname hother
    rw [hname] at hother
    exact String.ofList_injective (Except.ok.inj hother).symm
  cases h with
  | value hname hfill => exact hsame (hvalues name hname) hfill
  | type hplace hfill => exact hsame (htypes name hplace.mem_declaredTypes) hfill

theorem retains_plain (declared : List (List Char)) : Retains plainTemplate declared :=
  fun _ _ => fillTemplate_plain _

theorem applyNames_empty (chars : List Char) : applyNames ⟨[], []⟩ chars = chars := by
  have hfrom : NewNames.From plainTemplate plainTemplate chars ⟨[], []⟩ :=
    ⟨from_nil (retains_plain _), from_nil (retains_plain _)⟩
  exact (respells_applyNames hfrom).eq_of_same fun before name other =>
    NewName.eq_of_retains (retains_plain _) (retains_plain _)

/-- Where the templates fill in, the renaming gives the code under names that come from them. -/
theorem exists_renamed (session : Session) {code : String}
    (h : FillsNames typeTemplate valueTemplate code.toList) :
    ∃ names : NewNames, names.From typeTemplate valueTemplate code.toList ∧
      (Run.on session (renameDeclarations (.str typeTemplate) (.str valueTemplate) code)).1 =
        .ok (String.ofList (applyNames names code.toList)) := by
  by_cases hplain : typeTemplate = plainTemplate ∧ valueTemplate = plainTemplate
  · obtain ⟨rfl, rfl⟩ := hplain
    refine ⟨⟨[], []⟩, ⟨from_nil (retains_plain _), from_nil (retains_plain _)⟩, ?_⟩
    rw [applyNames_empty, String.ofList_toList]
    rfl
  · obtain ⟨⟨values, types⟩, hnames, hfrom⟩ := exists_newNames h
    refine ⟨⟨values, types⟩, hfrom, ?_⟩
    have hcode : renamedCode ⟨values, types⟩ code =
        String.ofList (applyNames ⟨values, types⟩ code.toList) := by
      rw [renamedCode]
      split
      · rename_i hempty
        obtain ⟨rfl, rfl⟩ : types = [] ∧ values = [] := by simpa using hempty
        rw [applyNames_empty, String.ofList_toList]
      · rfl
    rw [on_renameDeclarations session hplain, hnames, ← hcode]
    rfl

end

/-- Whatever text is renamed, by templates that turn its declared names into names: the names and
separators of the outcome are those of the text, in the same order, but that a declared value may
have its new name, and a static type its own right behind the keyword of its declaration. A value
that is referred to and a type that is declared do have it. All that belongs to no name stays, and
so do the lines. If no declared name gets another, nothing changes. -/
theorem renameDeclarations_names (session : Session) (typeTemplate valueTemplate code : String)
    (h : FillsNames typeTemplate valueTemplate code.toList) :
    ∃ out, (Run.on session
        (renameDeclarations (.str typeTemplate) (.str valueTemplate) code)).1 = .ok out ∧
      List.Forall₂ (fun place other => other = place.2 ∨ IsName place.2 ∧ IsName other ∧
          NewName typeTemplate valueTemplate code.toList place.1 place.2 other)
        (placedParts code.toList) (nameParts out.toList) ∧
      (∀ before name other, DueName typeTemplate valueTemplate code.toList before name other →
        RespellsAt (NewName typeTemplate valueTemplate code.toList) code.toList out.toList
          before name other) ∧
      out.toList.filter (!isNameChar ·) = code.toList.filter (!isNameChar ·) ∧
      lineEndings out.toList = lineEndings code.toList ∧
      (Retains valueTemplate (declaredValues true code.toList) →
        Retains typeTemplate (declaredTypes code.toList) → out = code) := by
  obtain ⟨names, hfrom, hout⟩ := exists_renamed session h
  have hrespells := respells_applyNames hfrom
  refine ⟨_, hout, ?_⟩
  rw [String.toList_ofList]
  refine ⟨hrespells.placed_parts, fun before name other hdue => hdue.respellsAt hfrom,
    hrespells.filter_eq, hrespells.lineEndings_eq, ?_⟩
  intro hvalues htypes
  rw [hrespells.eq_of_same fun before name other => NewName.eq_of_retains hvalues htypes,
    String.ofList_toList]

/-- Code with a value that is also a static type, a member and a text, and three kinds of lines. -/
def mixedCode : String :=
  "type Été = Static<typeof Été>\r\nconst Été = Type.Été()\u2028// Été: \"Été\"\n"

theorem fillsNames_mixedCode :
    FillsNames "I\x7bname\x7d" "\x7bname\x7d$" mixedCode.toList := by
  have hvalues : declaredValues true mixedCode.toList = ["Été".toList] := by decide +kernel
  have htypes : declaredTypes mixedCode.toList = ["Été".toList] := by decide +kernel
  constructor
  · rw [hvalues, Fills, List.forall_mem_singleton]
    exact ⟨"Été$", by decide +kernel, by decide +kernel⟩
  · rw [htypes, Fills, List.forall_mem_singleton]
    exact ⟨"IÉté", by decide +kernel, by decide +kernel⟩

theorem renameDeclarations_mixedCode :
    ∃ out, (Run.on emptySession
        (renameDeclarations (.str "I\x7bname\x7d") (.str "\x7bname\x7d$") mixedCode)).1 = .ok out ∧
      out = "type IÉté = Static<typeof Été$>\r\nconst Été$ = Type.Été()\u2028// Été: \"Été\"\n" ∧
      lineEndings out.toList = [['\r', '\n'], ['\u2028'], ['\n']] := by
  obtain ⟨out, hout, -, -, -, hlines, -⟩ := renameDeclarations_names emptySession
    "I\x7bname\x7d" "\x7bname\x7d$" mixedCode fillsNames_mixedCode
  refine ⟨out, hout, ?_, hlines.trans (by decide +kernel)⟩
  have hrun : (Run.on emptySession (renameDeclarations (.str "I\x7bname\x7d")
      (.str "\x7bname\x7d$") mixedCode)).1.toOption = some
        "type IÉté = Static<typeof Été$>\r\nconst Été$ = Type.Été()\u2028// Été: \"Été\"\n" := by
    decide +kernel
  rw [hout] at hrun
  exact Option.some.inj hrun

end Schemata.Emitted

import Schemata.Proofs.Emitted.WholeNames
import Schemata.Proofs.Schema.Decoding
import Schemata.Proofs.Schema.NestedBlocks

/-!
# Members of renamed enumerations

The members of an enumeration are names in the code, and the renaming tells names apart by the
characters next to them alone. A member stands behind a blank, not behind a point, and before a
comma, an equals sign or a brace, not before a colon, so it is taken for a reference: a member that
is named like a declared value may get the new name of the value. Every other member keeps its own.
-/

namespace Schemata

open Text Emitted

/-! ### Enumerations in a text -/

/-- A member of an enumeration: its name, and what gives it its value, if anything does. -/
structure EnumMember where
  name : List Char
  initializer : List Char
  isName : IsName name
  stop : ∀ c ∈ (dropBlanks initializer).head?, isNameChar c = false

def EnumMember.text (member : EnumMember) : List Char := member.name ++ member.initializer

def braced (members : List EnumMember) : List Char :=
  if members.isEmpty then ['{', '}']
  else '{' :: ' ' :: ([',', ' '].intercalate (members.map EnumMember.text) ++ [' ', '}'])

/-- What stands before the braces of an enumeration. -/
def enumHead (name : String) (exported : Bool) : List Char :=
  (exportWord exported ++ "enum " ++ name ++ "Enum ").toList

/-- A text with an enumeration in it: all that stands before its braces, its members, and all that
stands behind its braces. -/
structure EnumPlace where
  opening : List Char
  members : List EnumMember
  closing : List Char

def EnumPlace.text (place : EnumPlace) : List Char :=
  place.opening ++ (braced place.members ++ place.closing)

/-- The enumeration of the text is a given one, but for white space where its lines end. -/
structure EnumPlace.Shows (place : EnumPlace) (name : String) (exported : Bool)
    (members : List EnumMember) : Prop where
  opening : ∃ front head, place.opening = front ++ head ∧ Relined (enumHead name exported) head
  members : List.Forall₂ (fun member shown =>
    shown.name = member.name ∧ Relined member.initializer shown.initializer) members place.members

theorem EnumMember.head_stop (member : EnumMember) :
    ∀ c ∈ member.initializer.head?, isNameChar c = false := by
  intro c hc
  cases hblank : isBlank c with
  | true => exact isNameChar_eq_false_of_isBlank hblank
  | false =>
    refine member.stop c ?_
    rwa [dropBlanks_of_head fun d hd => by rwa [Option.mem_unique hd hc]]

theorem Text.Respells.head_dropBlanks {may : List Char → List Char → List Char → Prop}
    {before old new : List Char} (h : Respells may before old new)
    (hold : ∀ c ∈ (dropBlanks old).head?, isNameChar c = false) :
    (dropBlanks new).head? = (dropBlanks old).head? := by
  induction h with
  | nil => rfl
  | @separator before old new c hc h ih =>
    cases hblank : isBlank c with
    | true =>
      have hskip : ∀ rest, dropBlanks (c :: rest) = dropBlanks rest := fun rest => by
        simp [dropBlanks, hblank]
      rw [hskip] at hold
      rw [hskip, hskip, ih hold]
    | false => simp [dropBlanks, hblank]
  | @name before name other old new hname hother hstop hmay h ih =>
    obtain ⟨c, more, rfl⟩ := List.exists_cons_of_ne_nil hname.1
    have hchar := hname.2 c (by simp)
    rw [dropBlanks_name hname] at hold
    rw [hold c (by simp)] at hchar
    cases hchar

/-! ### Members one after the other -/

theorem braced_append {members : List EnumMember} (hne : members ≠ []) (rest : List Char) :
    braced members ++ rest = '{' :: ' ' ::
      ([',', ' '].intercalate (members.map EnumMember.text) ++ ' ' :: '}' :: rest) := by
  have hempty : members.isEmpty = false := by simpa using hne
  simp [braced, hempty]

/-- The text in front ends in an opening brace or a comma, with a blank behind. -/
def BehindMark (before : List Char) : Prop :=
  ∃ front mark, (mark = '{' ∨ mark = ',') ∧ before = front ++ [mark, ' ']

section

variable {Carried : List Char → List Char → List Char → Prop}
  {Same : EnumMember → EnumMember → Prop}
  (hmark : ∀ {before rest new} (c : Char), c ∈ ['{', '}', ',', ' '] →
    Carried before (c :: rest) new → ∃ rest', new = c :: rest' ∧ Carried (before ++ [c]) rest rest')
  (hmember : ∀ {before rest new} (member : EnumMember), BehindMark before →
    (∀ c ∈ rest.head?, isNameChar c = false) → Carried before (member.text ++ rest) new →
    ∃ other rest', new = EnumMember.text other ++ rest' ∧ Same member other ∧
      Carried (before ++ member.text) rest rest')

include hmark hmember

/-- What is carried over from one member to another text, and over the marks between members, is
carried over from all members. -/
theorem exists_members {members : List EnumMember} {before rest new : List Char}
    (hbefore : BehindMark before) (hne : members ≠ [])
    (h : Carried before
      ([',', ' '].intercalate (members.map EnumMember.text) ++ ' ' :: rest) new) :
    ∃ others rest', others ≠ [] ∧
      new = [',', ' '].intercalate (others.map EnumMember.text) ++ ' ' :: rest' ∧
      List.Forall₂ Same members others ∧ ∃ place, Carried place rest rest' := by
  induction members generalizing before new with
  | nil => exact absurd rfl hne
  | cons member members ih =>
    rw [List.map_cons, intercalate_cons_append] at h
    have hstop : ∀ c ∈ (afterItem ',' ' ' [' '] (members.map EnumMember.text) rest).head?,
        isNameChar c = false := by
      rw [afterItem]
      split <;> (rintro c ⟨⟩; decide)
    obtain ⟨other, tail, rfl, hsame, htail⟩ := hmember member hbefore hstop h
    rw [afterItem] at htail
    cases members with
    | nil =>
      obtain ⟨rest', rfl, hrest⟩ := hmark ' ' (by simp) htail
      exact ⟨[other], rest', by simp, by simp, .cons hsame .nil, _, hrest⟩
    | cons next members =>
      obtain ⟨tail, rfl, hcomma⟩ := hmark ',' (by simp) htail
      obtain ⟨tail, rfl, hblank⟩ := hmark ' ' (by simp) hcomma
      have hbehind : BehindMark (before ++ member.text ++ [','] ++ [' ']) :=
        ⟨before ++ member.text, ',', Or.inr rfl, by simp⟩
      obtain ⟨others, rest', hothers, rfl, hall, hrest⟩ := ih hbehind (by simp) hblank
      obtain ⟨next', more, rfl⟩ := List.exists_cons_of_ne_nil hothers
      refine ⟨other :: next' :: more, rest', by simp, ?_, .cons hsame hall, hrest⟩
      simp only [List.map_cons, List.intercalate_cons_cons]
      simp

/-- So it is carried over from an enumeration, braces included. -/
theorem exists_braced {members : List EnumMember} {before rest new : List Char}
    (h : Carried before (braced members ++ rest) new) :
    ∃ others rest', new = braced others ++ rest' ∧ List.Forall₂ Same members others ∧
      ∃ place, Carried place rest rest' := by
  by_cases hne : members = []
  · subst hne
    obtain ⟨tail, rfl, hopen⟩ := hmark '{' (by simp) h
    obtain ⟨rest', rfl, hrest⟩ := hmark '}' (by simp) hopen
    exact ⟨[], rest', rfl, .nil, _, hrest⟩
  · rw [braced_append hne] at h
    obtain ⟨tail, rfl, hopen⟩ := hmark '{' (by simp) h
    obtain ⟨tail, rfl, hblank⟩ := hmark ' ' (by simp) hopen
    have hbehind : BehindMark (before ++ ['{'] ++ [' ']) := ⟨before, '{', Or.inl rfl, by simp⟩
    obtain ⟨others, tail, hothers, rfl, hall, place, htail⟩ :=
      exists_members hmark hmember hbehind hne hblank
    obtain ⟨rest', rfl, hrest⟩ := hmark '}' (by simp) htail
    exact ⟨others, rest', (braced_append hothers rest').symm, hall, _, hrest⟩

end

/-! ### Where the code has an enumeration -/

theorem relined_member {rest new : List Char} (member : EnumMember)
    (h : Relined (member.text ++ rest) new) :
    ∃ shown rest', new = EnumMember.text shown ++ rest' ∧
      (shown.name = member.name ∧ Relined member.initializer shown.initializer) ∧
      Relined rest rest' := by
  rw [EnumMember.text, List.append_assoc] at h
  obtain ⟨tail, rfl, htail⟩ := h.exists_of_unbroken member.isName.unbroken
  obtain ⟨initializer, rest', rfl, hinitializer, hrest⟩ := htail.exists_append
  have hstop : ∀ c ∈ (dropBlanks initializer).head?, isNameChar c = false := by
    rw [hinitializer.head_dropBlanks]
    exact member.stop
  exact ⟨⟨member.name, initializer, member.isName, hstop⟩, rest', by simp [EnumMember.text],
    ⟨rfl, hinitializer⟩, hrest⟩

theorem toList_enumerationText (name : String) (exported : Bool) (members : List EnumMember) :
    ∃ rest, (enumerationText name exported
        (members.map fun member => String.ofList member.text)).toList =
      enumHead name exported ++ (braced members ++ rest) := by
  have hlist : (", ".intercalate (members.map fun member => String.ofList member.text)).toList =
      [',', ' '].intercalate (members.map EnumMember.text) := by
    rw [String.toList_intercalate, List.map_map]
    congr 2
    funext member
    simp
  refine ⟨("\n\n" ++ exportWord exported ++ "const " ++ name ++ " = Type.Enum(" ++ name ++
    "Enum)").toList, ?_⟩
  rw [enumerationText]
  generalize ", ".intercalate (members.map fun member => String.ofList member.text) = list
    at hlist ⊢
  by_cases hempty : members = []
  · subst hempty
    obtain rfl : list = "" := String.toList_inj.1 hlist
    simp [enumHead, braced, String.toList_append]
  · have hne : list ≠ "" := by
      rintro rfl
      obtain ⟨member, more, rfl⟩ := List.exists_cons_of_ne_nil hempty
      have hname := member.isName.1
      cases more <;> simp [EnumMember.text, hname] at hlist
    rw [braced_append hempty, ← hlist]
    simp [hne, enumHead, String.toList_append]

/-- The code of a file has each of its enumerations in it, at whatever depth. -/
theorem Module.exists_enumPlace {module : Module} {library code : String}
    (hcode : module.render library = .ok code) {name : String} {exported : Bool}
    {members : List EnumMember}
    (h : .enumeration name exported (members.map fun member => String.ofList member.text) ∈
      Declaration.nestedOf module.declarations) :
    ∃ place : EnumPlace, place.text = code.toList ∧ place.Shows name exported members := by
  obtain ⟨rest, htext⟩ := toList_enumerationText name exported members
  have hsolid : ∃ c ∈ (enumerationText name exported
      (members.map fun member => String.ofList member.text)).toList, isLineBreak c = false := by
    refine ⟨'u', ?_, by decide⟩
    rw [htext, enumHead]
    simp [String.toList_append]
  have hmarks : ∀ c ∈ ['{', '}', ',', ' '], isLineBreak c = false :=
    List.forall_iff_forall_mem.1 (by decide)
  obtain ⟨gap, shown, -, hshown, front, back, hwhole, -, -⟩ :=
    module.shownIn_render hcode h rfl hsolid
  rw [htext] at hshown
  obtain ⟨head, tail, rfl, hhead, htail⟩ := hshown.exists_append
  obtain ⟨others, closing, rfl, hmembers, -⟩ := @exists_braced (fun _ => Relined)
    (fun member shown => shown.name = member.name ∧ Relined member.initializer shown.initializer)
    (fun c hc h => Relined.exists_of_unbroken (show Relined ([c] ++ _) _ from h)
      (unbroken_cons.2 ⟨hmarks c hc, unbroken_nil⟩))
    (fun member _ _ h => relined_member member h) members [] rest tail htail
  refine ⟨⟨front ++ gap ++ head, others, closing ++ back⟩, ?_, ⟨front ++ gap, head, rfl, hhead⟩,
    hmembers⟩
  rw [hwhole, EnumPlace.text]
  simp

/-! ### What becomes of members -/

/-- No static type is declared right behind a brace or a comma. -/
theorem Emitted.StaticNameAt.not_behindMark {chars before name : List Char}
    (h : StaticNameAt chars before name) : ¬BehindMark before := by
  rintro ⟨front, mark, hmark, rfl⟩
  obtain ⟨earlier, line, later, head, rest, -, hform, hbefore⟩ := h
  obtain ⟨first, gap, rfl, -, hgap⟩ := hform.head.exists_blanks
  -- the last character in front that is no blank would be the end of the keyword
  have hblanks : gap.filter (!isBlank ·) = [] := by
    rw [List.filter_eq_nil_iff]
    intro c hc
    simp [hgap c hc]
  have hsolid : ∀ c ∈ ['t', 'y', 'p', 'e', '{', ','], isBlank c = false :=
    List.forall_iff_forall_mem.1 (by decide)
  have hblank : isBlank ' ' = true := by decide
  have hlast := congrArg (fun chars => (chars.filter (!isBlank ·)).getLast?) hbefore
  rcases hmark with rfl | rfl <;> simp [hblanks, hsolid, hblank] at hlast

section

variable {typeTemplate valueTemplate : String} {chars : List Char}

/-- One member: its name stays, or is that of a declared value and becomes the new one. -/
theorem respells_member {before rest new : List Char} (member : EnumMember)
    (hbefore : BehindMark before) (hrest : ∀ c ∈ rest.head?, isNameChar c = false)
    (h : Respells (NewName typeTemplate valueTemplate chars) before (member.text ++ rest) new) :
    ∃ other rest', new = EnumMember.text other ++ rest' ∧
      (other.name = member.name ∨ member.name ∈ declaredValues true chars ∧
        fillTemplate valueTemplate (String.ofList member.name) =
          .ok (String.ofList other.name)) ∧
      Respells (NewName typeTemplate valueTemplate chars) (before ++ member.text) rest rest' := by
  have hstop : ∀ c ∈ (member.initializer ++ rest).head?, isNameChar c = false := by
    have hhead := member.head_stop
    cases hinitializer : member.initializer with
    | nil => exact hrest
    | cons c initializer => rwa [hinitializer] at hhead
  rw [EnumMember.text, List.append_assoc] at h
  obtain ⟨other, tail, rfl, hother, hmay, htail⟩ := h.exists_of_name member.isName hstop
  obtain ⟨initializer, rest', rfl, hinitializer, hrest'⟩ :=
    htail.exists_append rfl (Or.inr hrest)
  have hstop' : ∀ c ∈ (dropBlanks initializer).head?, isNameChar c = false := by
    rw [hinitializer.head_dropBlanks member.stop]
    exact member.stop
  refine ⟨⟨other, initializer, hother, hstop'⟩, rest', by simp [EnumMember.text], ?_,
    by simpa [EnumMember.text] using hrest'⟩
  rcases hmay with hsame | hnew
  · exact Or.inl hsame
  · cases hnew with
    | value hname hfill => exact Or.inr ⟨hname, hfill⟩
    | type hplace hfill => exact absurd hbefore hplace.not_behindMark

/-- An enumeration in a text that is respelled is there in the other text, member by member. -/
theorem exists_enumPlace_of_respells {place : EnumPlace} {new : List Char}
    (h : Respells (NewName typeTemplate valueTemplate chars) [] place.text new) :
    ∃ place' : EnumPlace, place'.text = new ∧
      Respells (NewName typeTemplate valueTemplate chars) [] place.opening place'.opening ∧
      List.Forall₂ (fun name other => other = name ∨ name ∈ declaredValues true chars ∧
          fillTemplate valueTemplate (String.ofList name) = .ok (String.ofList other))
        (place.members.map EnumMember.name) (place'.members.map EnumMember.name) := by
  have hbrace : ∀ c ∈ (braced place.members ++ place.closing).head?, isNameChar c = false := by
    rw [braced]
    split <;> (rintro c ⟨⟩; decide)
  have hmarks : ∀ c ∈ ['{', '}', ',', ' '], isNameChar c = false :=
    List.forall_iff_forall_mem.1 (by decide)
  obtain ⟨opening, tail, rfl, hopening, htail⟩ := h.exists_append rfl (Or.inr hbrace)
  obtain ⟨others, closing, rfl, hmembers, -⟩ := exists_braced
    (fun c hc h => h.exists_of_separator (hmarks c hc))
    (fun member hbefore hrest h => respells_member member hbefore hrest h) htail
  refine ⟨⟨opening, others, closing⟩, rfl, hopening, ?_⟩
  rwa [List.forall₂_map_left_iff, List.forall₂_map_right_iff]

end

theorem EnumPlace.Shows.names_eq {place : EnumPlace} {name : String} {exported : Bool}
    {members : List EnumMember} (h : place.Shows name exported members) :
    place.members.map EnumMember.name = members.map EnumMember.name := by
  have hsame : List.Forall₂ (· = ·) (place.members.map EnumMember.name)
      (members.map EnumMember.name) := by
    rw [List.forall₂_map_left_iff, List.forall₂_map_right_iff]
    exact (h.members.imp fun _ _ hshown => hshown.1).flip
  rwa [List.forall₂_eq_eq_eq] at hsame

/-- The code of a file has each of its enumerations in it, at whatever depth, and the renamed code
has them in the same places, with their members in the same order. A member keeps its name unless it
is named like a value that the code declares; then it may get the new name of that value. -/
theorem renameDeclarations_members (session : Session)
    (library typeTemplate valueTemplate : String) (module : Module) {code : String}
    (hcode : module.render library = .ok code)
    (hfills : FillsNames typeTemplate valueTemplate code.toList) {name : String} {exported : Bool}
    {members : List EnumMember}
    (h : .enumeration name exported (members.map fun member => String.ofList member.text) ∈
      Declaration.nestedOf module.declarations) :
    ∃ out, (Run.on session
        (renameDeclarations (.str typeTemplate) (.str valueTemplate) code)).1 = .ok out ∧
      (∃ place : EnumPlace, place.text = code.toList ∧ place.Shows name exported members) ∧
      ∀ place : EnumPlace, place.text = code.toList → place.Shows name exported members →
        ∃ place' : EnumPlace, place'.text = out.toList ∧
          Respells (NewName typeTemplate valueTemplate code.toList) [] place.opening
            place'.opening ∧
          List.Forall₂ (fun name other => other = name ∨
              name ∈ declaredValues true code.toList ∧
                fillTemplate valueTemplate (String.ofList name) = .ok (String.ofList other))
            (members.map EnumMember.name) (place'.members.map EnumMember.name) ∧
          ((∀ member ∈ members, member.name ∈ declaredValues true code.toList →
              fillTemplate valueTemplate (String.ofList member.name) =
                .ok (String.ofList member.name)) →
            place'.members.map EnumMember.name = members.map EnumMember.name) := by
  obtain ⟨names, hfrom, hout⟩ := exists_renamed session hfills
  refine ⟨_, hout, module.exists_enumPlace hcode h, ?_⟩
  intro place htext hshows
  have hrespells : Respells (NewName typeTemplate valueTemplate code.toList) [] place.text
      (applyNames names code.toList) := by
    rw [htext]
    exact respells_applyNames hfrom
  obtain ⟨place', htext', hopening, hmembers⟩ := exists_enumPlace_of_respells hrespells
  rw [hshows.names_eq] at hmembers
  refine ⟨place', by rw [htext', String.toList_ofList], hopening, hmembers, ?_⟩
  intro hkept
  have hall : ∀ name ∈ members.map EnumMember.name, name ∈ declaredValues true code.toList →
      fillTemplate valueTemplate (String.ofList name) = .ok (String.ofList name) := by
    simpa using hkept
  have hsame : List.Forall₂ (· = ·) (members.map EnumMember.name)
      (place'.members.map EnumMember.name) := by
    refine ((List.forall₂_and_left _ _).2 ⟨hall, hmembers⟩).imp ?_
    rintro name other ⟨hfill, rfl | ⟨hname, hother⟩⟩
    · rfl
    · rw [hfill hname] at hother
      exact String.ofList_injective (Except.ok.inj hother)
  rw [List.forall₂_eq_eq_eq] at hsame
  exact hsame.symm

/-- A namespace with an enumeration in it that has an initializer over two lines. -/
def paintFile : Module where
  declarations := [.scope "N" false "namespace" [.enumeration "C" false ["Red", "Blue = C\n+ 1"]]]
  usesSchema := false
  usesGenerics := false

def paintCode : String :=
  "namespace N \x7b\n  enum CEnum \x7b Red, Blue = C\n  + 1 \x7d\n\n" ++
    "  const C = Type.Enum(CEnum)\n\x7d\n"

def paintMembers : List EnumMember :=
  [⟨"Red".toList, [], by decide, by simp [dropBlanks]⟩,
    ⟨"Blue".toList, " = C\n+ 1".toList, by decide, by rintro c ⟨⟩; decide⟩]

theorem declaredValues_paintCode : declaredValues true paintCode.toList = [['C']] := by
  decide +kernel

theorem fillsNames_paintCode :
    FillsNames plainTemplate "\x7bname\x7dSchema" paintCode.toList where
  values := by
    rw [declaredValues_paintCode, Fills, List.forall_mem_singleton]
    exact ⟨"CSchema", by decide +kernel, by decide⟩
  types := by
    rw [show declaredTypes paintCode.toList = [] by decide +kernel]
    simp [Fills]

theorem renameDeclarations_paintFile :
    paintFile.render "typebox" = .ok paintCode ∧
      ∃ out, (Run.on emptySession (renameDeclarations (.str plainTemplate)
          (.str "\x7bname\x7dSchema") paintCode)).1 = .ok out ∧
        ∃ place : EnumPlace, place.text = out.toList ∧
          place.members.map EnumMember.name = ["Red".toList, "Blue".toList] := by
  have hcode : paintFile.render "typebox" = .ok paintCode := by decide +kernel
  obtain ⟨out, hout, ⟨place, htext, hshows⟩, hplaces⟩ := renameDeclarations_members emptySession
    "typebox" plainTemplate "\x7bname\x7dSchema" paintFile hcode fillsNames_paintCode
    (show .enumeration "C" false (paintMembers.map fun member => String.ofList member.text) ∈
      Declaration.nestedOf paintFile.declarations by
        simp [paintFile, paintMembers, EnumMember.text, Declaration.nestedOf, Declaration.nested])
  obtain ⟨place', htext', -, -, hkept⟩ := hplaces place htext hshows
  refine ⟨hcode, out, hout, place', htext', hkept ?_⟩
  intro member hmember hvalue
  have hnone : ∀ member ∈ paintMembers, member.name ∉ [['C']] := by decide
  rw [declaredValues_paintCode] at hvalue
  exact absurd hvalue (hnone member hmember)

-- a member that is named like its enumeration gets the new name of the schema
example : (Run.on emptySession (renameDeclarations (.str plainTemplate)
    (.str "\x7bname\x7dSchema") (enumerationText "A" false ["A", "B"]))).1.toOption =
      some "enum AEnum \x7b ASchema, B \x7d\n\nconst ASchema = Type.Enum(AEnum)" := by
  decide +kernel

end Schemata

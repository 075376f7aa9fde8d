import Schemata.Proofs.Emitted.Heads
import Schemata.Proofs.Schema.Renaming

/-!
# Renaming around expressions

Between the names of a block and its expression stand keywords, type parameters and marks. They stay
as they are, and so does the import header; only the names of the declared type and value change.
-/

namespace Schemata.Emitted

open Text

variable {names : Names}

theorem Names.Proper.passes_reserved (hnames : names.Proper) (word : String)
    (c : Char) (hword : word ∈ reservedWords) (hc : isMark c = true) :
    Passes names (word.toList ++ [c]) := by
  have hname : ∀ word ∈ reservedWords, IsName word.toList := by decide
  have hmark : isNameChar c = false := by
    simp only [isMark, Bool.and_eq_true, Bool.not_eq_true'] at hc
    exact hc.1.1.1
  have hpasses : Passes names [c] := passes_marks _ (by simpa using hc)
  intro rest
  have hapart : ∀ d ∈ ([c] ++ rest).head?, isNameChar d = false := by
    rintro d ⟨⟩
    exact hmark
  have hshown : ∀ code, shownName names none word.toList code = word.toList := by
    intro code
    rw [shownName, hnames.reserved word hword]
    simp
  rw [List.append_assoc, renameText_name names none (hname word hword) hapart, hshown, hpasses,
    List.append_assoc]

theorem Names.Proper.passes_exportWord (hnames : names.Proper) (exported : Bool) :
    Passes names (exportWord exported).toList := by
  cases exported with
  | false => exact passes_nil
  | true => exact hnames.passes_reserved "export" ' ' (by decide) (by decide)

/-- Type parameters with their bounds stay as they are. -/
theorem rewrites_boundParameters (hnames : names.Proper) {parameters : List String}
    (h : ∀ parameter ∈ parameters, IsName parameter.toList ∧ names.get? parameter.toList = none) :
    Rewrites names (boundParameters parameters) (boundParameters parameters) := by
  have hbound : Rewrites names " extends TSchema".toList " extends TSchema".toList := by
    have hspace : Passes names [' '] := passes_marks _ (by decide)
    have hextends := hnames.passes_reserved "extends" ' ' (by decide) (by decide)
    have hschema : Rewrites names "TSchema".toList "TSchema".toList :=
      hnames.rewrites_reserved (by decide)
    exact hspace.append_rewrites (hextends.append_rewrites hschema)
  have hparts : List.Forall₂ (Rewrites names)
      ((parameters.map (· ++ " extends TSchema")).map String.toList)
      ((parameters.map (· ++ " extends TSchema")).map String.toList) := by
    rw [List.forall₂_same]
    intro part hpart
    simp only [List.map_map, List.mem_map, Function.comp_apply] at hpart
    obtain ⟨parameter, hmem, rfl⟩ := hpart
    obtain ⟨hname, hkept⟩ := h parameter hmem
    rw [String.toList_append]
    exact (rewrites_word hname hkept).append hbound
      (separates_blank (by decide) _)
  rw [boundParameters, String.toList_intercalate]
  exact rewrites_intercalate passes_comma separates_comma hparts

theorem rewrites_parameters {parameters : List String}
    (h : ∀ parameter ∈ parameters, IsName parameter.toList ∧ names.get? parameter.toList = none) :
    Rewrites names (", ".intercalate parameters).toList (", ".intercalate parameters).toList := by
  rw [String.toList_intercalate]
  refine rewrites_intercalate passes_comma separates_comma ?_
  rw [List.forall₂_same]
  intro part hpart
  obtain ⟨parameter, hmem, rfl⟩ := List.mem_map.1 hpart
  obtain ⟨hname, hkept⟩ := h parameter hmem
  exact rewrites_word hname hkept

/-- After the name of a type, only the name of the value changes. -/
theorem rewrites_staticTail (hnames : names.Proper) {value : List Char} (hvalue : IsName value)
    {parameters : List String}
    (h : ∀ parameter ∈ parameters, IsName parameter.toList ∧ names.get? parameter.toList = none) :
    Rewrites names (staticTail value parameters)
      (staticTail ((names.get? value).getD value) parameters) := by
  have hstatic := hnames.passes_reserved "Static" '<' (by decide) (by decide)
  have htypeof := hnames.passes_reserved "typeof" ' ' (by decide) (by decide)
  have hreturn := hnames.passes_reserved "ReturnType" '<' (by decide) (by decide)
  rw [staticTail, staticTail]
  split
  · have hhead : Passes names " = Static<typeof ".toList :=
      (passes_marks " = ".toList (by decide)).append (hstatic.append htypeof)
    exact (rewrites_name hvalue).enclose hhead (passes_marks _ (by decide))
      (separates_cons (by decide) (by decide) _)
  · have hopen : Passes names ['<'] := passes_marks _ (by decide)
    have hhead : Passes names "> = Static<ReturnType<typeof ".toList :=
      (passes_marks "> = ".toList (by decide)).append
        (hstatic.append (hreturn.append htypeof))
    have harguments := (rewrites_parameters h).enclose hopen
      (passes_marks ">>>".toList (by decide))
      (separates_cons (by decide) (by decide) _)
    have hcall := hhead.append_rewrites ((rewrites_name hvalue).append harguments
      (separates_cons (by decide) (by decide) _))
    exact hopen.append_rewrites ((rewrites_boundParameters hnames h).append hcall
      (separates_cons (by decide) (by decide) _))

theorem rewrites_parameterHead (hnames : names.Proper) {parameters : List String}
    (h : ∀ parameter ∈ parameters, IsName parameter.toList ∧ names.get? parameter.toList = none)
    {body body' : List Char} (hbody : Rewrites names body body') :
    Rewrites names (parameterHead parameters ++ body) (parameterHead parameters ++ body') := by
  rw [parameterHead]
  split
  · exact hbody
  · have hparts : List.Forall₂ (Rewrites names)
        ((parameters.map fun p => p ++ ": " ++ p).map String.toList)
        ((parameters.map fun p => p ++ ": " ++ p).map String.toList) := by
      rw [List.forall₂_same]
      intro part hpart
      simp only [List.map_map, List.mem_map, Function.comp_apply] at hpart
      obtain ⟨parameter, hmem, rfl⟩ := hpart
      obtain ⟨hname, hkept⟩ := h parameter hmem
      rw [String.toList_append, String.toList_append]
      exact (passes_key hname).append_rewrites (rewrites_word hname hkept)
    have harrow := (passes_marks ") => ".toList (by decide)).append_rewrites hbody
    have harguments := (passes_marks ">(".toList (by decide)).append_rewrites
      ((rewrites_intercalate passes_comma separates_comma hparts).append harrow
        (separates_cons (by decide) (by decide) _))
    have hall := (passes_marks ['<'] (by decide)).append_rewrites
      ((rewrites_boundParameters hnames h).append harguments
        (separates_cons (by decide) (by decide) _))
    simpa [String.toList_intercalate] using hall

/-- In the lines of a value, its name and its expression change. -/
theorem rewrites_valueLines (hnames : names.Proper) (exported : Bool) {name : List Char}
    (hname : IsName name) {parameters : List String}
    (h : ∀ parameter ∈ parameters, IsName parameter.toList ∧ names.get? parameter.toList = none)
    {body body' : List Char} (hbody : Rewrites names body body') :
    Rewrites names
      (keywordLine exported "const" (name ++ (" = ".toList ++ (parameterHead parameters ++ body))))
      (keywordLine exported "const" ((names.get? name).getD name ++
        (" = ".toList ++ (parameterHead parameters ++ body')))) := by
  have hconst := hnames.passes_reserved "const" ' ' (by decide) (by decide)
  have hequals := (passes_marks " = ".toList (by decide)).append_rewrites
    (rewrites_parameterHead hnames h hbody)
  have hvalue := (rewrites_name hname).append hequals
    (separates_blank (by decide) _)
  have hall := ((hnames.passes_exportWord exported).append hconst).append_rewrites hvalue
  simpa [keywordLine] using hall

/-- The import header stays as it is. -/
theorem rewrites_importHeader (hnames : names.Proper) {library : String}
    (hunbroken : Unbroken library.toList) (hquote : '\'' ∉ library.toList)
    (hback : '\\' ∉ library.toList) (generic : Bool) :
    Rewrites names (importHeader library (importNames true generic)).toList
      (importHeader library (importNames true generic)).toList := by
  have hliteral : Passes names ('\'' :: (library.toList ++ ['\''])) := by
    refine passes_literal (isLiteral_of_body (Or.inr rfl) (isLiteralBody_plain ?_)) ?_
    · intro c hc
      refine ⟨?_, ?_, ?_⟩
      · rintro rfl
        exact hback hc
      · rintro rfl
        exact hquote hc
      · rintro rfl
        exact absurd (hunbroken '\n' hc) (by decide)
    · simp only [unbroken_cons, unbroken_append]
      exact ⟨by decide, hunbroken, by decide, by simp⟩
  have hparts : List.Forall₂ (Rewrites names) ((importNames true generic).map String.toList)
      ((importNames true generic).map String.toList) := by
    have hall : ∀ word ∈ importNames true generic, word ∈ reservedWords := by
      cases generic <;> decide
    rw [List.forall₂_same]
    intro part hpart
    obtain ⟨word, hmem, rfl⟩ := List.mem_map.1 hpart
    exact hnames.rewrites_reserved (hall word hmem)
  have hopen : Passes names "import \x7b ".toList :=
    (hnames.passes_reserved "import" ' ' (by decide) (by decide)).append
      (passes_marks _ (by decide))
  have hfrom : Passes names " \x7d from ".toList :=
    (passes_marks " \x7d ".toList (by decide)).append
      (hnames.passes_reserved "from" ' ' (by decide) (by decide))
  rw [Schemata.toList_importHeader library (by cases generic <;> decide), String.toList_intercalate]
  exact (rewrites_intercalate passes_comma separates_comma hparts).enclose hopen
    (hfrom.append hliteral) (separates_blank (by decide) _)

end Schemata.Emitted

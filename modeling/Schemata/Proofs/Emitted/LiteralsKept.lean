import Schemata.Proofs.Emitted.WholeNames

/-!
# Literals of renamed code

The literals of a text are those that a scan of the whole text finds, but the renaming scans line by
line. Where every literal ends on the line on which it begins, the two scans find the same, and no
literal changes. Where one goes on over a line boundary, the renaming takes its lines for code: the
literals stay in their places, and names of values inside of them are replaced.
-/

namespace Schemata.Emitted

open Text

/-! ### Scanning line by line -/

/-- What holds of the empty text, and of a text with a literal more in front or with a character
more that opens none, holds of every text. -/
@[elab_as_elim]
theorem literalInduction {motive : List Char → Prop} (nil : motive [])
    (literal : ∀ quote inside rest, isQuote quote = true → LiteralInside quote inside →
      motive rest → motive (quote :: (inside ++ quote :: rest)))
    (code : ∀ c rest, (isQuote c = true → closeLiteral c rest = none) → motive rest →
      motive (c :: rest))
    (chars : List Char) : motive chars := by
  induction hlength : chars.length using Nat.strong_induction_on generalizing chars with
  | _ length ih =>
    subst hlength
    cases chars with
    | nil => exact nil
    | cons c rest =>
      by_cases hopen : isQuote c = true → closeLiteral c rest = none
      · exact code c rest hopen (ih rest.length (by simp) rest rfl)
      · obtain ⟨hquote, hclose⟩ := Classical.not_imp.1 hopen
        obtain ⟨⟨inside, after⟩, hsome⟩ := Option.ne_none_iff_exists'.1 hclose
        obtain ⟨rfl, hinside⟩ := (closeLiteral_eq_some_iff hquote).1 hsome
        refine literal c inside after hquote hinside (ih after.length ?_ after rfl)
        simp only [List.length_cons, List.length_append]
        omega

/-- A quote that is not closed on its lines is not closed behind them either, unless by a literal
that goes on over a line boundary. -/
theorem closeLiteral_append_eq_none {quote : Char} {chars rest : List Char}
    (hquote : isQuote quote = true) (hopen : closeLiteral quote chars = none)
    (hends : EndsLine (quote :: chars))
    (hliterals : ∀ literal ∈ literals (quote :: (chars ++ rest)), Unbroken literal) :
    closeLiteral quote (chars ++ rest) = none := by
  cases hclose : closeLiteral quote (chars ++ rest) with
  | none => rfl
  | some found =>
    exfalso
    obtain ⟨inside, after⟩ := found
    have hliteral : Unbroken (quote :: (inside ++ [quote])) :=
      hliterals _ (by rw [literals_close hquote hclose]; simp)
    obtain ⟨hchars, hinside⟩ := (closeLiteral_eq_some_iff hquote).1 hclose
    rcases List.append_eq_append_iff.1 hchars with ⟨more, rfl, -⟩ | ⟨more, rfl, hmore⟩
    · -- the line boundary would stand inside the literal
      rw [unbroken_cons, unbroken_append, unbroken_append] at hliteral
      exact List.cons_ne_nil _ _ (hends.eq_nil (unbroken_cons.2 ⟨hliteral.1, hliteral.2.1.1⟩))
    · cases more with
      | nil =>
        rw [List.append_nil] at hends
        rw [unbroken_cons, unbroken_append] at hliteral
        exact List.cons_ne_nil _ _ (hends.eq_nil (unbroken_cons.2 ⟨hliteral.1, hliteral.2.1⟩))
      | cons d more =>
        obtain ⟨rfl, -⟩ := List.cons.inj hmore
        rw [closeLiteral_of_inside hquote hinside] at hopen
        cases hopen

/-- If no literal goes on over a line boundary, the literals of lines are found one line after the
other. -/
theorem literals_append {chars rest : List Char} (hends : EndsLine chars)
    (hliterals : ∀ literal ∈ literals (chars ++ rest), Unbroken literal) :
    literals (chars ++ rest) = literals chars ++ literals rest := by
  induction chars using literalInduction with
  | nil => simp
  | literal quote inside chars hquote hinside ih =>
    have hclose := closeLiteral_of_inside hquote hinside
    rw [List.cons_append, List.append_assoc, List.cons_append,
      literals_close hquote (hclose _)] at hliterals ⊢
    rw [literals_close hquote (hclose _), List.cons_append,
      ih hends.of_cons.of_append.of_cons fun literal hmem => hliterals literal (by simp [hmem])]
  | code c chars hopen ih =>
    rw [List.cons_append] at hliterals ⊢
    have hopen' : isQuote c = true → closeLiteral c (chars ++ rest) = none :=
      fun hquote => closeLiteral_append_eq_none hquote (hopen hquote) hends hliterals
    rw [literals_open hopen'] at hliterals ⊢
    rw [literals_open hopen, ih hends.of_cons hliterals]

namespace RenamesOutside

variable {may : List Char → List Char → Prop} {old new : List Char}

theorem mono {may' : List Char → List Char → Prop} (h : RenamesOutside may old new)
    (himp : ∀ name other, may name other → may' name other) : RenamesOutside may' old new := by
  induction h with
  | nil => exact .nil
  | literal hquote hinside h ih => exact .literal hquote hinside ih
  | separator hc hopen h ih => exact .separator hc hopen ih
  | name hname hother hstop hmay h ih =>
    exact .name hname hother hstop (hmay.imp_right (himp _ _)) ih

/-- Lines are renamed one after the other. -/
theorem append {old' new' : List Char} (h : RenamesOutside may old new)
    (h' : RenamesOutside may old' new') (hends : EndsLine old)
    (hliterals : ∀ literal ∈ literals (old ++ old'), Unbroken literal) :
    RenamesOutside may (old ++ old') (new ++ new') := by
  induction h with
  | nil => exact h'
  | @literal quote inside old new hquote hinside h ih =>
    rw [List.cons_append, List.append_assoc, List.cons_append] at hliterals ⊢
    rw [literals_close hquote (closeLiteral_of_inside hquote hinside _)] at hliterals
    rw [List.cons_append, List.append_assoc, List.cons_append]
    exact .literal hquote hinside
      (ih hends.of_cons.of_append.of_cons fun literal hmem => hliterals literal (by simp [hmem]))
  | @separator c old new hc hopen h ih =>
    rw [List.cons_append] at hliterals ⊢
    have hopen' : isQuote c = true → closeLiteral c (old ++ old') = none :=
      fun hquote => closeLiteral_append_eq_none hquote (hopen hquote) hends hliterals
    rw [literals_open hopen'] at hliterals
    exact .separator hc hopen' (ih hends.of_cons hliterals)
  | @name name other old new hname hother hstop hmay h ih =>
    rw [List.append_assoc, literals_name hname.2] at hliterals
    rw [List.append_assoc, List.append_assoc]
    refine .name hname hother ?_ hmay (ih hends.of_append hliterals)
    cases old with
    | cons c old => exact hstop
    | nil =>
      -- a line does not end in a name
      rw [List.append_nil] at hends
      exact absurd (hends.eq_nil hname.unbroken) hname.1

/-- Text without quotes may stand in front. -/
theorem append_left {front : List Char} (hfront : ∀ c ∈ front, isQuote c = false)
    (h : RenamesOutside may old new) (hapart : Apart front old) :
    RenamesOutside may (front ++ old) (front ++ new) := by
  induction front using nameInduction with
  | nil => exact h
  | separator c rest hc ih =>
    refine .separator hc ?_ (ih (fun d hd => hfront d (by simp [hd])) hapart.of_cons)
    intro hquote
    rw [hfront c (by simp)] at hquote
    cases hquote
  | name name rest hname hstop ih =>
    rw [List.append_assoc, List.append_assoc]
    exact .name hname hname (hapart.stop hname hstop) (Or.inl rfl)
      (ih (fun d hd => hfront d (by simp [hd])) hapart.of_append)

end RenamesOutside

/-! ### Renaming line by line -/

/-- One line: no name is replaced inside a literal of the line. -/
theorem renamesOutside_renameLine {names : NewNames} (hnames : names.Named)
    (hidden : List (List Char)) {line : Line}
    (hending : ∀ c ∈ line.ending, isLineBreak c = true) :
    RenamesOutside (fun _ _ => True) line.chars (renameLine names hidden line) := by
  have hcode : ∀ chars, RenamesOutside (fun _ _ => True) chars
      (renameValues (names.values.visible hidden) chars) := fun chars =>
    (renamesOutside_renameValues (hnames.visible hidden) chars).mono fun _ _ _ => trivial
  obtain ⟨lead, code, hpart⟩ := exists_codePart line
  rw [hpart.chars_eq]
  cases hpart with
  | whole h =>
    rw [renameLine_whole names hidden hending h]
    exact hcode line.chars
  | behind h =>
    rw [renameLine_behind names hidden h, List.append_assoc, List.append_assoc]
    exact RenamesOutside.append_left h.head.no_quotes
      (.name h.name (Names.isName_getD hnames.types h.name) (h.stop_append _) (Or.inr trivial)
        (hcode _))
      (Or.inl fun c hc => isNameChar_eq_false_of_isBlank (h.head.last_blank c hc))

/-- All lines: no name is replaced inside a literal of the text, if none of them goes on over a line
boundary. -/
theorem renamesOutside_renameLines {names : NewNames} (hnames : names.Named) {lines : List Line}
    (hchain : lines.IsChain fun line _ => line.ending ≠ [])
    (hendings : ∀ line ∈ lines, ∀ c ∈ line.ending, isLineBreak c = true)
    (hliterals : ∀ literal ∈ literals (lines.flatMap Line.chars), Unbroken literal)
    (hidden : List (List Char)) :
    RenamesOutside (fun _ _ => True) (lines.flatMap Line.chars)
      (renameLines names hidden lines) := by
  induction lines generalizing hidden with
  | nil => exact .nil
  | cons line lines ih =>
    rw [List.forall_mem_cons] at hendings
    rw [List.isChain_cons] at hchain
    rw [List.flatMap_cons] at hliterals ⊢
    rw [renameLines]
    have hfirst := renamesOutside_renameLine hnames (hiddenAt hidden line) hendings.1
    cases lines with
    | nil => simpa [renameLines] using hfirst
    | cons next lines =>
      -- a line that is not the last ends in a line break
      have hends := endsLine_chars (hchain.1 next (by simp)) hendings.1
      refine hfirst.append (ih hchain.2 hendings.2 ?_ _) hends hliterals
      rw [literals_append hends hliterals] at hliterals
      exact fun literal hmem => hliterals literal (List.mem_append_right _ hmem)

/-- Whatever text is renamed, by templates that turn its declared names into names: it has its
literals where it had them before, and none of them changes if none of them goes on over a line
boundary. In one that does, a name may be replaced as if it stood in the code. -/
theorem renameDeclarations_literals (session : Session) (typeTemplate valueTemplate code : String)
    (h : FillsNames typeTemplate valueTemplate code.toList) :
    ∃ out, (Run.on session
        (renameDeclarations (.str typeTemplate) (.str valueTemplate) code)).1 = .ok out ∧
      List.Forall₂ (fun literal other => ∃ before,
          Respells (NewName typeTemplate valueTemplate code.toList) before literal other)
        (literals code.toList) (literals out.toList) ∧
      ((∀ literal ∈ literals code.toList, Unbroken literal) →
        literals out.toList = literals code.toList) := by
  obtain ⟨names, hfrom, hout⟩ := exists_renamed session h
  refine ⟨_, hout, ?_, ?_⟩
  · rw [String.toList_ofList]
    exact literals_of_respells (respells_applyNames hfrom)
  · intro hliterals
    have hrenames := renamesOutside_renameLines hfrom.named (isChain_splitLines code.toList)
      isLineBreak_of_mem_ending (by rwa [flatMap_chars_splitLines]) []
    rw [flatMap_chars_splitLines] at hrenames
    rw [String.toList_ofList]
    exact hrenames.literals_eq

/-- A value whose name also stands in a text, next to a quote that is not closed. -/
def quotedCode : String := "const A = Type.Literal(\"A\", A) // it's A\nconst B = [`A`, A]\n"

theorem renameDeclarations_quotedCode :
    ∃ out, (Run.on emptySession
        (renameDeclarations (.str plainTemplate) (.str "\x7bname\x7dSchema") quotedCode)).1 =
          .ok out ∧
      literals out.toList = ["\"A\"".toList, "`A`".toList] := by
  have hvalues : declaredValues true quotedCode.toList = [['A'], ['B']] := by decide +kernel
  have hfills : FillsNames plainTemplate "\x7bname\x7dSchema" quotedCode.toList := by
    constructor
    · rw [hvalues, Fills, List.forall_mem_cons, List.forall_mem_singleton]
      exact ⟨⟨"ASchema", by decide +kernel, by decide⟩, "BSchema", by decide +kernel, by decide⟩
    · rw [show declaredTypes quotedCode.toList = [] by decide +kernel]
      simp [Fills]
  have hliterals : literals quotedCode.toList = ["\"A\"".toList, "`A`".toList] := by
    decide +kernel
  obtain ⟨out, hout, -, hsame⟩ := renameDeclarations_literals emptySession plainTemplate
    "\x7bname\x7dSchema" quotedCode hfills
  refine ⟨out, hout, (hsame ?_).trans hliterals⟩
  rw [hliterals]
  decide

-- a literal that goes on over a line boundary is not kept
example : (Run.on emptySession (renameDeclarations (.str plainTemplate)
    (.str "\x7bname\x7dSchema") "const A = [`\nA\n`]\n")).1.toOption =
      some "const ASchema = [`\nASchema\n`]\n" := by
  decide +kernel

end Schemata.Emitted

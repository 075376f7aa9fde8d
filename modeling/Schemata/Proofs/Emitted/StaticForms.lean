import Schemata.Proofs.Emitted.Pattern
import Schemata.Proofs.Text.NameParts

/-!
# The form of a static type line

A static type line has the keyword behind its indentation, an export mark or not, then a name, and
somewhere behind an equals sign a static type. The reader of such lines goes from left to right and
takes what it finds; this is the form of the lines that it accepts.
-/

namespace Schemata.Emitted

open Text

/-- One or more blanks. -/
def Blanks (gap : List Char) : Prop := gap ≠ [] ∧ ∀ c ∈ gap, isBlank c = true

/-- What stands before the name of a type: indentation, the word `export` or not, and the
keyword. -/
inductive TypeHead : List Char → Prop where
  | plain {indent gap : List Char} (hindent : ∀ c ∈ indent, c = ' ' ∨ c = '\t')
      (hgap : Blanks gap) : TypeHead (indent ++ ("type".toList ++ gap))
  | exported {indent between gap : List Char} (hindent : ∀ c ∈ indent, c = ' ' ∨ c = '\t')
      (hbetween : Blanks between) (hgap : Blanks gap) :
      TypeHead (indent ++ ("export".toList ++ (between ++ ("type".toList ++ gap))))

/-- A static type stands somewhere behind an equals sign. -/
def AssignsStatic (rest : List Char) : Prop :=
  ∃ front gap back, rest = front ++ '=' :: (gap ++ ("Static<".toList ++ back)) ∧
    ∀ c ∈ gap, isBlank c = true

/-- A line that declares a static type: what stands before the name, the name, and the rest. -/
structure StaticForm (line head name rest : List Char) : Prop where
  line_eq : line = head ++ (name ++ rest)
  head : TypeHead head
  name : IsName name
  stop : ∀ c ∈ rest.head?, isNameChar c = false
  static : AssignsStatic rest

theorem afterBlanks?_eq_some_iff {chars rest : List Char} :
    afterBlanks? chars = some rest ↔
      ∃ gap, Blanks gap ∧ chars = gap ++ rest ∧ ∀ c ∈ rest.head?, isBlank c = false := by
  constructor
  · intro h
    cases chars with
    | nil => cases h
    | cons c tail =>
      rw [afterBlanks?] at h
      split at h
      · rename_i hc
        cases h
        refine ⟨c :: tail.takeWhile isBlank, ⟨by simp, ?_⟩, ?_, ?_⟩
        · exact List.forall_mem_cons.2 ⟨hc, List.all_eq_true.1 List.all_takeWhile⟩
        · rw [dropBlanks, List.cons_append, List.takeWhile_append_dropWhile]
        · intro d hd
          have hhead := List.head?_dropWhile_not isBlank tail
          rw [show (tail.dropWhile isBlank).head? = some d from hd] at hhead
          simpa using hhead
      · cases h
  · rintro ⟨gap, hgap, rfl, hrest⟩
    obtain ⟨c, more, rfl⟩ := List.exists_cons_of_ne_nil hgap.1
    have hmore : ∀ d ∈ more, isBlank d = true := fun d hd => hgap.2 d (by simp [hd])
    rw [List.cons_append, afterBlanks?, if_pos (hgap.2 c (by simp)), dropBlanks,
      List.dropWhile_append_of_pos hmore]
    exact congrArg some (dropBlanks_of_head hrest)

theorem skipExport_cases (chars : List Char) :
    skipExport chars = chars ∨
      ∃ between, Blanks between ∧ chars = "export".toList ++ (between ++ skipExport chars) := by
  cases hread : (after? "export" chars).bind afterBlanks? with
  | none =>
    left
    rw [skipExport, hread]
  | some rest =>
    right
    have hskip : skipExport chars = rest := by rw [skipExport, hread]
    obtain ⟨found, hfound, hblanks⟩ := Option.bind_eq_some_iff.1 hread
    obtain ⟨between, hbetween, rfl, -⟩ := afterBlanks?_eq_some_iff.1 hblanks
    exact ⟨between, hbetween, by rw [hskip]; exact after?_eq_some_iff.1 hfound⟩

theorem afterKeyword?_eq_some_iff {chars rest : List Char} :
    afterKeyword? "type" chars = some rest ↔
      ∃ head, TypeHead head ∧ chars = head ++ rest ∧ ∀ c ∈ rest.head?, isBlank c = false := by
  constructor
  · intro h
    rw [afterKeyword?] at h
    obtain ⟨found, hfound, hblanks⟩ := Option.bind_eq_some_iff.1 h
    obtain ⟨gap, hgap, rfl, hrest⟩ := afterBlanks?_eq_some_iff.1 hblanks
    rw [after?_eq_some_iff] at hfound
    have hindent : ∀ c ∈ chars.takeWhile (fun c => c == ' ' || c == '\t'), c = ' ' ∨ c = '\t' := by
      intro c hc
      simpa using List.all_eq_true.1 List.all_takeWhile c hc
    have hchars :=
      List.takeWhile_append_dropWhile (p := fun c => c == ' ' || c == '\t') (l := chars)
    rcases skipExport_cases (chars.dropWhile fun c => c == ' ' || c == '\t') with
      hplain | ⟨between, hbetween, hexported⟩
    · rw [← hplain, hfound] at hchars
      exact ⟨_, .plain hindent hgap, hchars.symm.trans (by simp), hrest⟩
    · rw [hexported, hfound] at hchars
      exact ⟨_, .exported hindent hbetween hgap, hchars.symm.trans (by simp), hrest⟩
  · rintro ⟨head, hhead, rfl, hrest⟩
    have hblanks : ∀ {gap more : List Char}, Blanks gap → (∀ c ∈ more.head?, isBlank c = false) →
        afterBlanks? (gap ++ more) = some more :=
      fun hgap hmore => afterBlanks?_eq_some_iff.2 ⟨_, hgap, rfl, hmore⟩
    have hafter : ∀ {gap : List Char}, Blanks gap →
        (after? "type" ("type".toList ++ (gap ++ rest))).bind afterBlanks? = some rest := by
      intro gap hgap
      rw [after?_eq_some_iff.2 rfl, Option.bind_some, hblanks hgap hrest]
    cases hhead with
    | @plain indent gap hindent hgap =>
      rw [afterKeyword?, List.append_assoc, List.dropWhile_append_of_pos (by simpa using hindent),
        List.append_assoc]
      exact hafter hgap
    | @exported indent between gap hindent hbetween hgap =>
      have hskip : skipExport ("export".toList ++ (between ++ ("type".toList ++ (gap ++ rest)))) =
          "type".toList ++ (gap ++ rest) := by
        rw [skipExport, after?_eq_some_iff.2 rfl, Option.bind_some, hblanks hbetween]
        rintro c ⟨⟩
        decide
      rw [afterKeyword?, List.append_assoc, List.dropWhile_append_of_pos (by simpa using hindent),
        List.append_assoc, List.append_assoc, List.append_assoc]
      exact (congrArg (fun chars => (after? "type" chars).bind afterBlanks?) hskip).trans
        (hafter hgap)

theorem startsStatic_eq_true_iff {chars : List Char} :
    startsStatic chars = true ↔
      ∃ gap back, chars = gap ++ ("Static<".toList ++ back) ∧ ∀ c ∈ gap, isBlank c = true := by
  rw [startsStatic, List.isPrefixOf_iff_prefix]
  constructor
  · rintro ⟨back, hback⟩
    refine ⟨chars.takeWhile isBlank, back, ?_, List.all_eq_true.1 List.all_takeWhile⟩
    rw [hback, dropBlanks, List.takeWhile_append_dropWhile]
  · rintro ⟨gap, back, rfl, hgap⟩
    rw [dropBlanks, List.dropWhile_append_of_pos hgap]
    exact ⟨back, rfl⟩

theorem assignsStatic_eq_true_iff {rest : List Char} :
    assignsStatic rest = true ↔ AssignsStatic rest := by
  induction rest with
  | nil => simp [assignsStatic, AssignsStatic]
  | cons c rest ih =>
    rw [assignsStatic, Bool.or_eq_true, Bool.and_eq_true, beq_iff_eq, ih, startsStatic_eq_true_iff]
    constructor
    · rintro (⟨rfl, gap, back, rfl, hgap⟩ | ⟨front, gap, back, rfl, hgap⟩)
      · exact ⟨[], gap, back, rfl, hgap⟩
      · exact ⟨c :: front, gap, back, rfl, hgap⟩
    · rintro ⟨front, gap, back, heq, hgap⟩
      cases front with
      | nil =>
        obtain ⟨rfl, rfl⟩ := List.cons.inj heq
        exact Or.inl ⟨rfl, gap, back, rfl, hgap⟩
      | cons d front =>
        obtain ⟨rfl, rfl⟩ := List.cons.inj heq
        exact Or.inr ⟨front, gap, back, rfl, hgap⟩

theorem spanName?_eq_some_iff {chars name rest : List Char} :
    spanName? chars = some (name, rest) ↔
      chars = name ++ rest ∧ IsName name ∧ ∀ c ∈ rest.head?, isNameChar c = false := by
  constructor
  · intro h
    rcases name_cases chars with rfl | ⟨c, tail, rfl, hc⟩ | ⟨run, tail, rfl, hrun, htail⟩
    · cases h
    · simp [spanName?, hc] at h
    · rw [spanName?_append hrun htail] at h
      cases h
      exact ⟨rfl, hrun, htail⟩
  · rintro ⟨rfl, hname, hrest⟩
    exact spanName?_append hname hrest

/-- A line is read as one of a static type exactly if it has that form. -/
theorem staticDeclaration?_eq_some_iff {line name rest : List Char} :
    staticDeclaration? line = some (name, rest) ↔ ∃ head, StaticForm line head name rest := by
  constructor
  · intro h
    rw [staticDeclaration?] at h
    obtain ⟨⟨run, tail⟩, hread, hstatic⟩ := Option.bind_eq_some_iff.1 h
    obtain ⟨found, hfound, hspan⟩ := Option.bind_eq_some_iff.1 hread
    obtain ⟨head, hhead, rfl, -⟩ := afterKeyword?_eq_some_iff.1 hfound
    obtain ⟨rfl, hname, hstop⟩ := spanName?_eq_some_iff.1 hspan
    simp only at hstatic
    split at hstatic
    · rename_i hassigns
      cases hstatic
      exact ⟨head, rfl, hhead, hname, hstop, assignsStatic_eq_true_iff.1 hassigns⟩
    · cases hstatic
  · rintro ⟨head, rfl, hhead, hname, hstop, hassigns⟩
    have hblank : ∀ c ∈ (name ++ rest).head?, isBlank c = false := by
      obtain ⟨c, more, rfl⟩ := List.exists_cons_of_ne_nil hname.1
      rintro d ⟨⟩
      exact isBlank_eq_false_of_isNameChar (hname.2 c (by simp))
    rw [staticDeclaration?, afterKeyword?_eq_some_iff.2 ⟨head, hhead, rfl, hblank⟩]
    simp [spanName?_append hname hstop, assignsStatic_eq_true_iff.2 hassigns]

/-! ### Ends of a line -/

/-- Where a text ends in line breaks, all that ends in another character stands before them. -/
theorem exists_of_append_breaks {front back body ending : List Char} {c : Char}
    (h : front ++ c :: back = body ++ ending) (hc : isLineBreak c = false)
    (hending : ∀ d ∈ ending, isLineBreak d = true) :
    ∃ rest, body = front ++ c :: rest ∧ back = rest ++ ending := by
  rcases List.append_eq_append_iff.1 h with ⟨rest, rfl, hback⟩ | ⟨rest, rfl, hback⟩
  · cases rest with
    | nil =>
      have hbreak := hending c (by simp [← show c :: back = ending from hback])
      rw [hc] at hbreak
      cases hbreak
    | cons d rest =>
      obtain ⟨rfl, rfl⟩ := List.cons.inj hback
      exact ⟨rest, rfl, rfl⟩
  · have hbreak := hending c (by simp [hback])
    rw [hc] at hbreak
    cases hbreak

/-- What follows the text of a line belongs to the form of a static type, but not to the text. -/
theorem StaticForm.exists_of_breaks {body ending head name rest : List Char}
    (h : StaticForm (body ++ ending) head name rest)
    (hending : ∀ c ∈ ending, isLineBreak c = true) :
    ∃ rest', StaticForm body head name rest' ∧ rest = rest' ++ ending := by
  obtain ⟨hline, hhead, hname, hstop, front, gap, back, rfl, hgap⟩ := h
  have hsplit : (head ++ (name ++ (front ++ '=' :: (gap ++ "Static".toList)))) ++ '<' :: back =
      body ++ ending := by
    rw [hline]
    simp
  obtain ⟨back', rfl, rfl⟩ := exists_of_append_breaks hsplit (by decide) hending
  refine ⟨front ++ '=' :: (gap ++ ("Static<".toList ++ back')), ⟨by simp, hhead, hname, ?_,
    front, gap, back', rfl, hgap⟩, by simp⟩
  cases front with
  | nil => exact hstop
  | cons c front => exact hstop

theorem TypeHead.exists_blanks {head : List Char} (h : TypeHead head) :
    ∃ front gap, head = front ++ ("type".toList ++ gap) ∧ Blanks gap := by
  cases h with
  | plain hindent hgap => exact ⟨_, _, rfl, hgap⟩
  | @exported indent between gap hindent hbetween hgap =>
    exact ⟨indent ++ ("export".toList ++ between), gap, by simp only [List.append_assoc], hgap⟩

theorem TypeHead.last_blank {head : List Char} (h : TypeHead head) :
    ∀ c ∈ head.getLast?, isBlank c = true := by
  obtain ⟨front, gap, rfl, hne, hgap⟩ := h.exists_blanks
  intro c hc
  rw [← List.append_assoc, List.getLast?_append_of_ne_nil _ hne] at hc
  exact hgap c (List.mem_of_getLast? hc)

theorem StaticForm.rest_ne_nil {line head name rest : List Char}
    (h : StaticForm line head name rest) : rest ≠ [] := by
  obtain ⟨front, gap, back, rfl, -⟩ := h.static
  simp

theorem StaticForm.stop_append {line head name rest : List Char}
    (h : StaticForm line head name rest) (more : List Char) :
    ∀ c ∈ (rest ++ more).head?, isNameChar c = false := by
  rw [List.head?_append_of_ne_nil _ h.rest_ne_nil]
  exact h.stop

theorem StaticForm.append {line head name rest : List Char} (h : StaticForm line head name rest)
    (more : List Char) : StaticForm (line ++ more) head name (rest ++ more) where
  line_eq := by rw [h.line_eq]; simp
  head := h.head
  name := h.name
  stop := h.stop_append more
  static := by
    obtain ⟨front, gap, back, rfl, hgap⟩ := h.static
    exact ⟨front, gap, back ++ more, by simp, hgap⟩

theorem isQuote_eq_false_of_isBlank {c : Char} (h : isBlank c = true) : isQuote c = false := by
  cases hquote : isQuote c with
  | false => rfl
  | true =>
    simp only [isQuote, Bool.or_eq_true, beq_iff_eq] at hquote
    rcases hquote with (rfl | rfl) | rfl <;> exact absurd h (by decide)

theorem TypeHead.no_quotes {head : List Char} (h : TypeHead head) :
    ∀ c ∈ head, isQuote c = false := by
  have hblanks : ∀ {gap : List Char}, Blanks gap → ∀ c ∈ gap, isQuote c = false :=
    fun hgap c hc => isQuote_eq_false_of_isBlank (hgap.2 c hc)
  have hindents : ∀ {indent : List Char}, (∀ c ∈ indent, c = ' ' ∨ c = '\t') →
      ∀ c ∈ indent, isQuote c = false := by
    intro indent hindent c hc
    rcases hindent c hc with rfl | rfl <;> decide
  have hwords : ∀ word ∈ ["export", "type"], ∀ c ∈ word.toList, isQuote c = false :=
    List.forall_iff_forall_mem.1
      ⟨List.forall_iff_forall_mem.1 (by decide), List.forall_iff_forall_mem.1 (by decide)⟩
  cases h with
  | plain hindent hgap =>
    simp only [List.forall_mem_append]
    exact ⟨hindents hindent, hwords "type" (by simp), hblanks hgap⟩
  | exported hindent hbetween hgap =>
    simp only [List.forall_mem_append]
    exact ⟨hindents hindent, hwords "export" (by simp), hblanks hbetween, hwords "type" (by simp),
      hblanks hgap⟩

end Schemata.Emitted

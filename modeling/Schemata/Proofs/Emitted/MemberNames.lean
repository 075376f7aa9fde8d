import Schemata.Proofs.Emitted.WholeNames

/-!
# Names behind a point

The renaming takes a name behind a point for a member of what stands before the point. Such a name
stays as it is wherever it stands, whatever the values are called. That is so for the pieces of a
line because each name is looked at with the character in front of it, and for whole lines because
none of them begins behind a point.
-/

namespace Schemata.Emitted

open Text

/-- A text that is respelled in two ways at once. -/
theorem respells_and {may may' : List Char → List Char → List Char → Prop}
    {before old new : List Char} (h : Respells may before old new)
    (h' : Respells may' before old new) :
    Respells (fun before name other => may before name other ∧ may' before name other)
      before old new := by
  induction h with
  | nil => exact .nil
  | separator hc h ih =>
    obtain ⟨_, heq, hrest⟩ := h'.exists_of_separator hc
    obtain rfl := (List.cons.inj heq).2
    exact .separator hc (ih hrest)
  | @name before name other old new hname hother hstop hmay h ih =>
    obtain ⟨other', new', heq, hother', hmay', hrest⟩ := h'.exists_of_name hname hstop
    have hnew : ∀ c ∈ new.head?, isNameChar c = false := by rwa [h.head_eq hstop]
    have hnew' : ∀ c ∈ new'.head?, isNameChar c = false := by rwa [hrest.head_eq hstop]
    obtain rfl : other = other' := by
      rw [← takeWhile_isNameChar hother.2 hnew, heq, takeWhile_isNameChar hother'.2 hnew']
    obtain rfl := List.append_cancel_left heq
    refine .name hname hother hstop ?_ (ih hrest)
    rcases hmay with hsame | hfirst
    · exact Or.inl hsame
    · exact hmay'.imp_right fun hsecond => ⟨hfirst, hsecond⟩

/-- A name does not stand right behind a point. -/
def FreeStanding (before _name _other : List Char) : Prop := before.getLast? ≠ some '.'

theorem freeStanding_of_name (front : List Char) {name : List Char} (hname : IsName name)
    (other : List Char) :
    FreeStanding (front ++ name) name other := by
  intro hlast
  rw [List.getLast?_append_of_ne_nil _ hname.1] at hlast
  exact absurd (hname.2 '.' (List.mem_of_getLast? hlast)) (by decide)

section

variable {names : Names} (hnames : ∀ entry ∈ names, IsName entry.2)

include hnames

/-- Along a line, where a name behind a point is left alone. -/
theorem respells_renamePieces {before : Option Char} {place : List Char}
    (hplace : place.getLast? = some '.' → before = some '.') (chars : List Char) :
    Respells FreeStanding place chars (renamePieces names before (pieces chars)) := by
  induction hlength : chars.length using Nat.strong_induction_on
    generalizing before place chars with
  | _ length ih =>
    subst hlength
    rcases name_cases chars with rfl | ⟨c, rest, rfl, hc⟩ | ⟨name, rest, rfl, hname, hstop⟩
    · rw [pieces]
      exact .nil
    · by_cases hopen : isQuote c = true → closeLiteral c rest = none
      · rw [pieces_open hopen, renamePieces_consCode names before hc]
        exact .separator hc (ih rest.length (by simp) (by simp) rest rfl)
      · obtain ⟨hquote, hclose⟩ := Classical.not_imp.1 hopen
        obtain ⟨⟨inside, after⟩, hsome⟩ := Option.ne_none_iff_exists'.1 hclose
        obtain ⟨rfl, hinside⟩ := (closeLiteral_eq_some_iff hquote).1 hsome
        have hshown : renamePieces names before
            (.literal (c :: (inside ++ [c])) :: pieces after) =
              c :: (inside ++ c :: renamePieces names none (pieces after)) := by
          rw [renamePieces_none]
          simp [renamePieces, Piece.rename]
        have hpoint : c ≠ '.' := by
          rintro rfl
          exact absurd hquote (by decide)
        rw [pieces_close hquote hsome, hshown]
        refine .separator hc ((Respells.refl _ inside).append (.separator hc ?_) (Or.inr ?_))
        · exact ih after.length (by simp only [List.length_cons, List.length_append]; omega)
            (fun hlast => absurd (Option.some.inj (List.getLast?_concat.symm.trans hlast)) hpoint)
            after rfl
        · simpa using hc
    · have hlead : ∀ c ∈ (leadCode (pieces rest)).head?, isNameChar c = false :=
        fun c hmem => hstop c (head_leadCode_pieces hmem)
      have hrest := @ih rest.length (hname.length_lt rest) name.getLast? (place ++ name)
        (fun hlast => by rwa [List.getLast?_append_of_ne_nil _ hname.1] at hlast) rest rfl
      rw [pieces_name hname.2, renamePieces_name names before hname hlead]
      refine .name hname (isName_shownName hnames before hname _) hstop ?_ hrest
      by_cases hpoint : place.getLast? = some '.'
      · left
        rw [shownName, hplace hpoint]
        rfl
      · exact Or.inr hpoint

theorem respells_renameValues {place : List Char} (hplace : place.getLast? ≠ some '.')
    (chars : List Char) : Respells FreeStanding place chars (renameValues names chars) := by
  rw [renameValues, ← renamePieces_none]
  exact respells_renamePieces hnames (fun hlast => absurd hlast hplace) chars

end

section

variable {names : NewNames} (hnames : names.Named)

include hnames

/-- One line, which does not begin behind a point. -/
theorem respells_renameLine_freeStanding {line : Line}
    (hending : ∀ c ∈ line.ending, isLineBreak c = true) {before : List Char}
    (hbefore : before.getLast? ≠ some '.') (hidden : List (List Char)) :
    Respells FreeStanding before line.chars (renameLine names hidden line) := by
  obtain ⟨lead, code, hpart⟩ := exists_codePart line
  rw [hpart.chars_eq]
  cases hpart with
  | whole h =>
    rw [renameLine_whole names hidden hending h]
    exact respells_renameValues (hnames.visible hidden) hbefore line.chars
  | @behind head name rest h =>
    have hlast : FreeStanding (before ++ head) name ((names.types.get? name).getD name) := by
      obtain ⟨front, gap, rfl, hne, hgap⟩ := h.head.exists_blanks
      intro hlast
      rw [← List.append_assoc, ← List.append_assoc, List.getLast?_append_of_ne_nil _ hne] at hlast
      exact absurd (hgap '.' (List.mem_of_getLast? hlast)) (by decide)
    have hcode := respells_renameValues (hnames.visible hidden)
      (freeStanding_of_name (before ++ head) h.name name) (rest ++ line.ending)
    rw [renameLine_behind names hidden h, List.append_assoc, List.append_assoc]
    exact (Respells.refl before head).append
      (.name h.name (Names.isName_getD hnames.types h.name) (h.stop_append _) (Or.inr hlast) hcode)
      (Or.inl fun c hc => isNameChar_eq_false_of_isBlank (h.head.last_blank c hc))

/-- A whole text. -/
theorem respells_applyNames_freeStanding (chars : List Char) :
    Respells FreeStanding [] chars (applyNames names chars) := by
  have hlines := @respells_renameLines FreeStanding names _ (isChain_splitLines chars)
    (@isLineBreak_of_mem_ending chars) [] (by
      intro hidden earlier line later hsplit
      refine respells_renameLine_freeStanding hnames
        (@isLineBreak_of_mem_ending chars line (by simp [hsplit])) ?_ hidden
      intro hlast
      exact absurd (endsLine_lines hsplit '.' hlast) (by decide)) []
  rwa [flatMap_chars_splitLines] at hlines

end

/-- A name behind a point keeps its name, whatever becomes of the names around it. -/
theorem respellsAt_behind_point {typeTemplate valueTemplate : String} {chars : List Char}
    {names : NewNames} (h : names.From typeTemplate valueTemplate chars)
    {before name rest : List Char} (hchars : chars = before ++ (name ++ rest)) (hname : IsName name)
    (hpoint : before.getLast? = some '.') (hstop : ∀ c ∈ rest.head?, isNameChar c = false) :
    RespellsAt (NewName typeTemplate valueTemplate chars) chars (applyNames names chars)
      before name name := by
  have hboth := respells_and (respells_applyNames h)
    (respells_applyNames_freeStanding h.named chars)
  have hapart : Apart before (name ++ rest) := by
    left
    rw [hpoint]
    rintro c ⟨⟩
    decide
  obtain ⟨before', tail, hnew, hbefore, htail⟩ := hboth.exists_append hchars hapart
  obtain ⟨other, rest', rfl, -, hother, hrest⟩ := htail.exists_of_name hname hstop
  rw [List.nil_append] at hother hrest
  obtain rfl : other = name := hother.resolve_right fun hfree => hfree.2 hpoint
  exact ⟨rest, before', rest', hchars, hnew, hbefore.mono fun _ _ _ => And.left,
    hrest.mono fun _ _ _ => And.left⟩

end Schemata.Emitted

import Schemata.Proofs.Emitted.Rewriting

/-!
# Texts that can be read back

The text of a value can be read back if no other value has a text that begins like it, whatever
follows: the value and the place where its text ends are known from the characters alone. This holds
of words and literals, and it is kept by lists with a mark between the items and another one behind
the last.
-/

namespace Schemata.Text

open Emitted

/-- The text ends here or goes on with one of the characters. -/
def StopsAt (ends rest : List Char) : Prop := ∀ c ∈ rest.head?, c ∈ ends

@[simp] theorem stopsAt_nil (ends : List Char) : StopsAt ends [] := by simp [StopsAt]

@[simp] theorem stopsAt_cons {ends : List Char} {c : Char} {rest : List Char} :
    StopsAt ends (c :: rest) ↔ c ∈ ends := by
  simp [StopsAt]

theorem StopsAt.mono {ends more rest : List Char} (h : StopsAt ends rest) (hsub : ends ⊆ more) :
    StopsAt more rest :=
  fun c hc => hsub (h c hc)

/-- No text of another good value begins like the text of this one, up to a place where a reader
stops. -/
def Readable {α : Type} (write : α → List Char) (good : α → Prop) (ends : List Char) (value : α) :
    Prop :=
  ∀ other r s, good other → StopsAt ends r → StopsAt ends s → write value ++ r = write other ++ s →
    value = other ∧ r = s

/-! ### Words and literals -/

/-- The characters that can stand behind a word. -/
def wordEnds : List Char := [',', ')', ']', '\n', '(', '.', ' ', ':']

theorem isNameChar_of_mem_wordEnds {c : Char} (h : c ∈ wordEnds) : isNameChar c = false := by
  have hall : wordEnds.all (!isNameChar ·) = true := by decide
  simpa using List.all_eq_true.1 hall c h

theorem StopsAt.not_isNameChar {rest : List Char} (h : StopsAt wordEnds rest) :
    ∀ c ∈ rest.head?, isNameChar c = false :=
  fun c hc => isNameChar_of_mem_wordEnds (h c hc)

theorem name_append_inj {first second r s : List Char} (hfirst : IsName first)
    (hsecond : IsName second) (hr : StopsAt wordEnds r) (hs : StopsAt wordEnds s)
    (h : first ++ r = second ++ s) : first = second ∧ r = s := by
  have htake := congrArg (List.takeWhile isNameChar) h
  have hdrop := congrArg (List.dropWhile isNameChar) h
  rw [takeWhile_isNameChar hfirst.2 hr.not_isNameChar,
    takeWhile_isNameChar hsecond.2 hs.not_isNameChar] at htake
  rw [dropWhile_isNameChar hfirst.2 hr.not_isNameChar,
    dropWhile_isNameChar hsecond.2 hs.not_isNameChar] at hdrop
  exact ⟨htake, hdrop⟩

theorem literal_append_inj {first second r s : List Char} (hfirst : isLiteral first = true)
    (hsecond : isLiteral second = true) (h : first ++ r = second ++ s) :
    first = second ∧ r = s := by
  obtain ⟨quote, inside, rfl, -, hback, hinside⟩ := isLiteral_eq_true hfirst
  obtain ⟨quote', inside', rfl, -, hback', hinside'⟩ := isLiteral_eq_true hsecond
  simp only [List.cons_append, List.append_assoc, List.nil_append, List.cons.injEq] at h
  obtain ⟨rfl, h⟩ := h
  have hclose := congrArg (closeLiteral quote) h
  rw [closeLiteral_append hback hinside, closeLiteral_append hback' hinside', Option.some.injEq,
    Prod.mk.injEq] at hclose
  obtain ⟨rfl, rfl⟩ := hclose
  exact ⟨rfl, rfl⟩

/-- A run of name characters or a literal. -/
def IsWordOrLiteral (chars : List Char) : Prop := IsName chars ∨ isLiteral chars = true

theorem name_ne_literal {first second r s : List Char} (hfirst : IsName first)
    (hsecond : isLiteral second = true) : first ++ r ≠ second ++ s := by
  intro h
  obtain ⟨quote, inside, rfl, hquote, -⟩ := isLiteral_eq_true hsecond
  obtain ⟨c, more, rfl⟩ := List.exists_cons_of_ne_nil hfirst.1
  obtain ⟨rfl, -⟩ := List.cons.inj h
  rw [isQuote_eq_false_of_isNameChar (hfirst.2 c List.mem_cons_self)] at hquote
  cases hquote

theorem IsWordOrLiteral.head {chars : List Char} (h : IsWordOrLiteral chars) :
    ∃ c more, chars = c :: more ∧ c ∉ wordEnds := by
  rcases h with hname | hliteral
  · obtain ⟨c, more, rfl⟩ := List.exists_cons_of_ne_nil hname.1
    refine ⟨c, more, rfl, fun hend => ?_⟩
    have hc := hname.2 c List.mem_cons_self
    rw [isNameChar_of_mem_wordEnds hend] at hc
    cases hc
  · obtain ⟨quote, inside, rfl, hquote, -⟩ := isLiteral_eq_true hliteral
    refine ⟨quote, _, rfl, fun hend => ?_⟩
    have hall : wordEnds.all (!isQuote ·) = true := by decide
    have hother := List.all_eq_true.1 hall quote hend
    rw [hquote] at hother
    cases hother

theorem IsWordOrLiteral.append_inj {first second r s : List Char} (hfirst : IsWordOrLiteral first)
    (hsecond : IsWordOrLiteral second) (hr : StopsAt wordEnds r) (hs : StopsAt wordEnds s)
    (h : first ++ r = second ++ s) : first = second ∧ r = s := by
  rcases hfirst with hfirst | hfirst <;> rcases hsecond with hsecond | hsecond
  · exact name_append_inj hfirst hsecond hr hs h
  · exact absurd h (name_ne_literal hfirst hsecond)
  · exact absurd h.symm (name_ne_literal hsecond hfirst)
  · exact literal_append_inj hfirst hsecond h

/-- The same with one character behind both that cannot stand in a word. -/
theorem IsWordOrLiteral.append_cons_inj {first second r s : List Char}
    (hfirst : IsWordOrLiteral first) (hsecond : IsWordOrLiteral second) {c : Char}
    (hc : c ∈ wordEnds) (h : first ++ c :: r = second ++ c :: s) : first = second ∧ r = s := by
  obtain ⟨hsame, hrest⟩ := hfirst.append_inj hsecond (stopsAt_cons.2 hc) (stopsAt_cons.2 hc) h
  exact ⟨hsame, (List.cons.inj hrest).2⟩

/-! ### Separated lists -/

section Separated

variable {α : Type} {write : α → List Char} {good : α → Prop} {ends : List Char}
  {mark close : Char} {gap : List Char}

/-- What stands behind an item: the closing character, or the mark and further items. -/
def afterItem (mark close : Char) (gap : List Char) (texts : List (List Char)) (rest : List Char) :
    List Char :=
  if texts.isEmpty then close :: rest
  else mark :: (gap ++ ((mark :: gap).intercalate texts ++ close :: rest))

theorem intercalate_cons_append (text : List Char) (texts : List (List Char)) (rest : List Char) :
    (mark :: gap).intercalate (text :: texts) ++ close :: rest =
      text ++ afterItem mark close gap texts rest := by
  cases texts with
  | nil => simp [afterItem]
  | cons next texts =>
    rw [List.intercalate_cons_cons, afterItem]
    simp

theorem stopsAt_afterItem (hmark : mark ∈ ends) (hclose : close ∈ ends) (texts : List (List Char))
    (rest : List Char) : StopsAt ends (afterItem mark close gap texts rest) := by
  rw [afterItem]
  split
  · exact stopsAt_cons.2 hclose
  · exact stopsAt_cons.2 hmark

/-- Behind equal items two lists either both end or both go on. -/
theorem afterItem_inj (hne : mark ≠ close) {texts others : List (List Char)} {r s : List Char}
    (h : afterItem mark close gap texts r = afterItem mark close gap others s) :
    (mark :: gap).intercalate texts ++ close :: r =
      (mark :: gap).intercalate others ++ close :: s := by
  cases texts with
  | nil =>
    cases others with
    | nil => exact h
    | cons other others => exact absurd (List.cons.inj h).1.symm hne
  | cons text texts =>
    cases others with
    | nil => exact absurd (List.cons.inj h).1 hne
    | cons other others => exact List.append_cancel_left (List.cons.inj h).2

/-- A list is known from its text if its items are, and no item begins with the closing
character. -/
theorem separated_append_inj (hmark : mark ∈ ends) (hclose : close ∈ ends) (hne : mark ≠ close)
    (hstart : ∀ value, good value → ∃ c more, write value = c :: more ∧ c ≠ close)
    {values others : List α} (hvalues : ∀ value ∈ values, good value)
    (hothers : ∀ other ∈ others, good other)
    (hreadable : ∀ value ∈ values, Readable write good ends value) {r s : List Char}
    (h : (mark :: gap).intercalate (values.map write) ++ close :: r =
      (mark :: gap).intercalate (others.map write) ++ close :: s) : values = others ∧ r = s := by
  induction values generalizing others with
  | nil =>
    cases others with
    | nil => simpa using h
    | cons other others =>
      obtain ⟨c, more, hother, hc⟩ := hstart other (hothers other List.mem_cons_self)
      rw [List.map_cons, intercalate_cons_append, hother] at h
      exact absurd (List.cons.inj h).1.symm hc
  | cons value values ih =>
    cases others with
    | nil =>
      obtain ⟨c, more, hvalue, hc⟩ := hstart value (hvalues value List.mem_cons_self)
      rw [List.map_cons, intercalate_cons_append, hvalue] at h
      exact absurd (List.cons.inj h).1 hc
    | cons other others =>
      rw [List.map_cons, List.map_cons, intercalate_cons_append, intercalate_cons_append] at h
      obtain ⟨rfl, hafter⟩ := hreadable value List.mem_cons_self other _ _
        (hothers other List.mem_cons_self) (stopsAt_afterItem hmark hclose _ r)
        (stopsAt_afterItem hmark hclose _ s) h
      obtain ⟨rfl, rfl⟩ := ih (fun item hmem => hvalues item (List.mem_cons_of_mem _ hmem))
        (fun item hmem => hothers item (List.mem_cons_of_mem _ hmem))
        (fun item hmem => hreadable item (List.mem_cons_of_mem _ hmem)) (afterItem_inj hne hafter)
      exact ⟨rfl, rfl⟩

end Separated

end Schemata.Text

import Schemata.Proofs.Emitted.NewNames
import Schemata.Proofs.Text.NameParts

/-!
# String literals of a text

A literal is found where a quote is followed by a text that closes it. Names cannot open, escape or
close anything, so a respelled text has its literals in the same places. If names are only replaced
outside of literals, the literals are the same.
-/

namespace Schemata.Emitted

open Text

/-! ### What closes a literal -/

/-- What may stand between two quotes. A backslash keeps the next character; a line feed stands only
between back quotes. -/
inductive LiteralInside (quote : Char) : List Char → Prop where
  | nil : LiteralInside quote []
  | escape {c : Char} {rest : List Char} (hc : c ≠ '\n') (h : LiteralInside quote rest) :
      LiteralInside quote ('\\' :: c :: rest)
  | plain {c : Char} {rest : List Char} (hback : c ≠ '\\') (hquote : c ≠ quote)
      (hfeed : c = '\n' → quote = '`') (h : LiteralInside quote rest) :
      LiteralInside quote (c :: rest)

section

variable {quote : Char}

theorem ne_backslash_of_isQuote (hquote : isQuote quote = true) : quote ≠ '\\' := by
  rintro rfl
  exact absurd hquote (by decide)

theorem isNameChar_eq_false_of_isQuote (hquote : isQuote quote = true) :
    isNameChar quote = false := by
  cases hname : isNameChar quote with
  | false => rfl
  | true =>
    rw [isQuote_eq_false_of_isNameChar hname] at hquote
    cases hquote

theorem closeLiteral_of_inside (hquote : isQuote quote = true) {inside : List Char}
    (h : LiteralInside quote inside) (after : List Char) :
    closeLiteral quote (inside ++ quote :: after) = some (inside, after) := by
  induction h with
  | nil =>
    rw [List.nil_append, closeLiteral.eq_4 _ _ _ fun heq => ne_backslash_of_isQuote hquote heq]
    simp
  | escape hc h ih =>
    rw [List.cons_append, List.cons_append, closeLiteral, ih]
    simp [hc]
  | @plain c rest hback hclose hfeed h ih =>
    have hends : (c == '\n' && quote != '`') = false := by
      cases hc : c == '\n' with
      | false => rfl
      | true => simp [hfeed (beq_iff_eq.1 hc)]
    rw [List.cons_append, closeLiteral.eq_4 _ _ _ fun heq => hback heq, ih, hends]
    simp [hclose]

/-- A text closes a literal exactly if the quote stands in it after something that may stand between
quotes. -/
theorem closeLiteral_eq_some_iff (hquote : isQuote quote = true)
    {chars inside after : List Char} :
    closeLiteral quote chars = some (inside, after) ↔
      chars = inside ++ quote :: after ∧ LiteralInside quote inside := by
  constructor
  · intro h
    fun_induction closeLiteral quote chars generalizing inside with
    | case1 => cases h
    | case2 => cases h
    | case3 => cases h
    | case4 d tail hfeed ih =>
      obtain ⟨⟨inner, rest⟩, hinner, heq⟩ := Option.map_eq_some_iff.1 h
      cases heq
      obtain ⟨rfl, hinside⟩ := ih hinner
      exact ⟨rfl, .escape (by simpa using hfeed) hinside⟩
    | case5 c rest hback hclose =>
      cases h
      exact ⟨by rw [beq_iff_eq.1 hclose]; rfl, .nil⟩
    | case6 => cases h
    | case7 c rest hback hclose hfeed ih =>
      obtain ⟨⟨inner, tail⟩, hinner, heq⟩ := Option.map_eq_some_iff.1 h
      cases heq
      obtain ⟨rfl, hinside⟩ := ih hinner
      refine ⟨rfl, .plain (fun heq => hback heq) (by simpa using hclose) ?_ hinside⟩
      intro heq
      simpa [heq] using hfeed
  · rintro ⟨rfl, hinside⟩
    exact closeLiteral_of_inside hquote hinside after

theorem literalInside_name_append (hquote : isQuote quote = true) {name : List Char}
    (hname : ∀ c ∈ name, isNameChar c = true) (rest : List Char) :
    LiteralInside quote (name ++ rest) ↔ LiteralInside quote rest := by
  induction name with
  | nil => rfl
  | cons c name ih =>
    have hc := hname c (by simp)
    have hrest := ih fun d hd => hname d (by simp [hd])
    have hne : ∀ d, isNameChar d = false → c ≠ d := by
      rintro d hd rfl
      rw [hc] at hd
      cases hd
    rw [List.cons_append, ← hrest]
    constructor
    · intro h
      generalize htail : name ++ rest = tail at h ⊢
      cases h with
      | escape => exact absurd hc (by decide)
      | plain _ _ _ h => exact h
    · intro h
      refine .plain (hne '\\' (by decide)) (hne quote (isNameChar_eq_false_of_isQuote hquote)) ?_ h
      rintro rfl
      exact absurd hc (by decide)

end

end Schemata.Emitted

namespace Schemata.Text.Respells

open Emitted

variable {may : List Char → List Char → List Char → Prop} {before old new : List Char}

/-- Respelling can be undone, by whatever names. -/
theorem undo (h : Respells may before old new) (place : List Char) :
    Respells (fun _ _ _ => True) place new old := by
  induction h generalizing place with
  | nil => exact .nil
  | separator hc h ih => exact .separator hc (ih _)
  | name hname hother hstop hmay h ih =>
    refine .name hother hname ?_ (Or.inr trivial) (ih _)
    rwa [h.head_eq hstop]

theorem literalInside {quote : Char} (hquote : isQuote quote = true)
    (h : Respells may before old new) (hold : LiteralInside quote old) :
    LiteralInside quote new := by
  induction hlength : old.length using Nat.strong_induction_on generalizing before old new with
  | _ length ih =>
    subst hlength
    cases h with
    | nil => exact .nil
    | @name _ name other old new hname hother hstop hmay h =>
      rw [literalInside_name_append hquote hname.2] at hold
      rw [literalInside_name_append hquote hother.2]
      exact ih old.length (hname.length_lt old) h hold rfl
    | @separator _ old new c hc h =>
      cases hold with
      | plain hback hclose hfeed hrest =>
        exact .plain hback hclose hfeed (ih old.length (by simp) h hrest rfl)
      | @escape d rest hd hrest =>
        -- the escaped character may be the first of a name
        generalize htail : d :: rest = tail at h
        cases h with
        | nil => cases htail
        | @separator _ old new e he h =>
          cases htail
          exact .escape hd (ih rest.length (by simp only [List.length_cons]; omega) h hrest rfl)
        | @name _ name other old new hname hother hstop hmay h =>
          obtain ⟨e, more, rfl⟩ := List.exists_cons_of_ne_nil hname.1
          obtain ⟨e', more', rfl⟩ := List.exists_cons_of_ne_nil hother.1
          rw [List.cons_append] at htail
          obtain ⟨rfl, rfl⟩ := List.cons.inj htail
          rw [literalInside_name_append hquote fun c hc => hname.2 c (by simp [hc])] at hrest
          have hnew : LiteralInside quote new := by
            refine ih old.length ?_ h hrest rfl
            simp only [List.length_cons, List.length_append]
            omega
          refine .escape ?_ ?_
          · rintro rfl
            exact absurd (hother.2 '\n' (by simp)) (by decide)
          · refine (literalInside_name_append hquote ?_ _).2 hnew
            exact fun c hc => hother.2 c (by simp [hc])

/-- Where a text closes a literal, the respelled one does. -/
theorem closeLiteral_eq_some {quote : Char} (hquote : isQuote quote = true)
    (h : Respells may before old new) {inside after : List Char}
    (hold : closeLiteral quote old = some (inside, after)) :
    ∃ inside' after', closeLiteral quote new = some (inside', after') ∧
      Respells may before inside inside' ∧
      Respells may (before ++ inside ++ [quote]) after after' := by
  obtain ⟨rfl, hinside⟩ := (closeLiteral_eq_some_iff hquote).1 hold
  have hname := isNameChar_eq_false_of_isQuote hquote
  obtain ⟨inside', rest, rfl, hfirst, hrest⟩ :=
    h.exists_append rfl (Or.inr (by simpa using hname))
  obtain ⟨after', rfl, hafter⟩ := hrest.exists_of_separator hname
  refine ⟨inside', after', ?_, hfirst, hafter⟩
  exact (closeLiteral_eq_some_iff hquote).2 ⟨rfl, hfirst.literalInside hquote hinside⟩

theorem closeLiteral_eq_none {quote : Char} (hquote : isQuote quote = true)
    (h : Respells may before old new) (hold : closeLiteral quote old = none) :
    closeLiteral quote new = none := by
  cases hnew : closeLiteral quote new with
  | none => rfl
  | some found =>
    obtain ⟨inside, after, hsome, -⟩ := (h.undo []).closeLiteral_eq_some hquote hnew
    rw [hold] at hsome
    cases hsome

end Schemata.Text.Respells

namespace Schemata.Emitted

open Text

/-! ### The literals of a text -/

def Piece.literal? : Piece → Option (List Char)
  | .literal chars => some chars
  | .code _ => none

/-- The string literals of a text, quotes included, from left to right. -/
def literals (chars : List Char) : List (List Char) := (pieces chars).filterMap Piece.literal?

theorem pieces_close {quote : Char} (hquote : isQuote quote = true)
    {chars inside after : List Char} (h : closeLiteral quote chars = some (inside, after)) :
    pieces (quote :: chars) = .literal (quote :: (inside ++ [quote])) :: pieces after := by
  have hopen : (quote == '"' || quote == '\'' || quote == '`') = true := hquote
  obtain ⟨rfl, -⟩ := (closeLiteral_eq_some_iff hquote).1 h
  have hlength : after.length ≤ (inside ++ quote :: after).length := by
    simp only [List.length_append, List.length_cons]
    omega
  rw [pieces, if_pos hopen, h]
  simp only [hlength, if_true]
  rfl

theorem pieces_open {c : Char} {chars : List Char}
    (h : isQuote c = true → closeLiteral c chars = none) :
    pieces (c :: chars) = Piece.consCode c (pieces chars) := by
  cases hquote : isQuote c with
  | false => exact pieces_cons hquote chars
  | true =>
    have hopen : (c == '"' || c == '\'' || c == '`') = true := hquote
    rw [pieces, if_pos hopen, h hquote]

theorem filterMap_consCode (c : Char) (parts : List Piece) :
    (Piece.consCode c parts).filterMap Piece.literal? = parts.filterMap Piece.literal? := by
  cases parts with
  | nil => rfl
  | cons part rest => cases part <;> rfl

@[simp] theorem literals_nil : literals [] = [] := by
  rw [literals, pieces]
  rfl

theorem literals_close {quote : Char} (hquote : isQuote quote = true)
    {chars inside after : List Char} (h : closeLiteral quote chars = some (inside, after)) :
    literals (quote :: chars) = (quote :: (inside ++ [quote])) :: literals after := by
  rw [literals, pieces_close hquote h]
  rfl

theorem literals_open {c : Char} {chars : List Char}
    (h : isQuote c = true → closeLiteral c chars = none) :
    literals (c :: chars) = literals chars := by
  rw [literals, pieces_open h, filterMap_consCode]
  rfl

theorem literals_name {name : List Char} (hname : ∀ c ∈ name, isNameChar c = true)
    (rest : List Char) : literals (name ++ rest) = literals rest := by
  induction name with
  | nil => rfl
  | cons c name ih =>
    rw [List.cons_append, literals_open, ih fun d hd => hname d (by simp [hd])]
    intro hquote
    rw [isQuote_eq_false_of_isNameChar (hname c (by simp))] at hquote
    cases hquote

/-- A respelled text has its literals where the first one has them, each of them respelled. -/
theorem literals_of_respells {may : List Char → List Char → List Char → Prop}
    {before old new : List Char} (h : Respells may before old new) :
    List.Forall₂ (fun literal other => ∃ before, Respells may before literal other)
      (literals old) (literals new) := by
  induction hlength : old.length using Nat.strong_induction_on generalizing before old new with
  | _ length ih =>
    subst hlength
    cases h with
    | nil => simp
    | @name _ name other old new hname hother hstop hmay h =>
      rw [literals_name hname.2, literals_name hother.2]
      exact ih old.length (hname.length_lt old) h rfl
    | @separator _ old new c hc h =>
      by_cases hopen : isQuote c = true → closeLiteral c old = none
      · have hopen' : isQuote c = true → closeLiteral c new = none :=
          fun hquote => h.closeLiteral_eq_none hquote (hopen hquote)
        rw [literals_open hopen, literals_open hopen']
        exact ih old.length (by simp) h rfl
      · obtain ⟨hquote, hclose⟩ := Classical.not_imp.1 hopen
        obtain ⟨⟨inside, after⟩, hold⟩ := Option.ne_none_iff_exists'.1 hclose
        obtain ⟨inside', after', hnew, hinside, hafter⟩ := h.closeLiteral_eq_some hquote hold
        rw [literals_close hquote hold, literals_close hquote hnew]
        refine .cons ⟨before, .separator hc ?_⟩ (ih after.length ?_ hafter rfl)
        · exact hinside.append (.separator hc .nil) (Or.inr (by simpa using hc))
        · obtain ⟨rfl, -⟩ := (closeLiteral_eq_some_iff hquote).1 hold
          simp only [List.length_cons, List.length_append]
          omega

/-! ### Renaming outside of literals -/

/-- The second text is the first one with other names in it, none of them inside a literal. -/
inductive RenamesOutside (may : List Char → List Char → Prop) : List Char → List Char → Prop where
  | nil : RenamesOutside may [] []
  | literal {quote : Char} {inside old new : List Char} (hquote : isQuote quote = true)
      (hinside : LiteralInside quote inside) (h : RenamesOutside may old new) :
      RenamesOutside may (quote :: (inside ++ quote :: old)) (quote :: (inside ++ quote :: new))
  | separator {c : Char} {old new : List Char} (hc : isNameChar c = false)
      (hopen : isQuote c = true → closeLiteral c old = none) (h : RenamesOutside may old new) :
      RenamesOutside may (c :: old) (c :: new)
  | name {name other old new : List Char} (hname : IsName name) (hother : IsName other)
      (hstop : ∀ c ∈ old.head?, isNameChar c = false) (hmay : other = name ∨ may name other)
      (h : RenamesOutside may old new) : RenamesOutside may (name ++ old) (other ++ new)

namespace RenamesOutside

variable {may : List Char → List Char → Prop} {old new : List Char}

theorem respells (h : RenamesOutside may old new) (before : List Char) :
    Respells (fun _ => may) before old new := by
  induction h generalizing before with
  | nil => exact .nil
  | @literal quote inside old new hquote hinside h ih =>
    have hname := isNameChar_eq_false_of_isQuote hquote
    refine .separator hname ?_
    refine (Respells.refl _ inside).append (.separator hname (ih _)) (Or.inr ?_)
    simpa using hname
  | separator hc hopen h ih => exact .separator hc (ih _)
  | name hname hother hstop hmay h ih => exact .name hname hother hstop hmay (ih _)

theorem literals_eq (h : RenamesOutside may old new) : literals new = literals old := by
  induction h with
  | nil => rfl
  | literal hquote hinside h ih =>
    rw [literals_close hquote (closeLiteral_of_inside hquote hinside _),
      literals_close hquote (closeLiteral_of_inside hquote hinside _), ih]
  | separator hc hopen h ih =>
    have hopen' := fun hquote => (h.respells []).closeLiteral_eq_none hquote (hopen hquote)
    rw [literals_open hopen, literals_open hopen', ih]
  | name hname hother hstop hmay h ih => rw [literals_name hname.2, literals_name hother.2, ih]

end RenamesOutside

theorem shownName_cases (names : Names) (before : Option Char) (name rest : List Char) :
    shownName names before name rest = name ∨
      names.get? name = some (shownName names before name rest) := by
  rw [shownName]
  split
  · exact Or.inl rfl
  · cases names.get? name with
    | none => exact Or.inl rfl
    | some other => exact Or.inr rfl

theorem isName_shownName {names : Names} (hnames : ∀ entry ∈ names, IsName entry.2)
    (before : Option Char) {name : List Char} (hname : IsName name) (rest : List Char) :
    IsName (shownName names before name rest) := by
  rcases shownName_cases names before name rest with hsame | hother
  · rwa [hsame]
  · exact hnames _ (Names.mem_of_get? hother)

/-- Renaming the values of a text is renaming outside of its literals. -/
theorem renamesOutside_renamePieces {names : Names} (hnames : ∀ entry ∈ names, IsName entry.2)
    (before : Option Char) (chars : List Char) :
    RenamesOutside (fun name other => names.get? name = some other) chars
      (renamePieces names before (pieces chars)) := by
  induction hlength : chars.length using Nat.strong_induction_on generalizing before chars with
  | _ length ih =>
    subst hlength
    rcases name_cases chars with rfl | ⟨c, rest, rfl, hc⟩ | ⟨name, rest, rfl, hname, hstop⟩
    · rw [pieces]
      exact .nil
    · by_cases hopen : isQuote c = true → closeLiteral c rest = none
      · rw [pieces_open hopen, renamePieces_consCode names before hc]
        exact .separator hc hopen (ih rest.length (by simp) _ rest rfl)
      · obtain ⟨hquote, hclose⟩ := Classical.not_imp.1 hopen
        obtain ⟨⟨inside, after⟩, hsome⟩ := Option.ne_none_iff_exists'.1 hclose
        obtain ⟨rfl, hinside⟩ := (closeLiteral_eq_some_iff hquote).1 hsome
        have hafter := ih after.length (by simp only [List.length_cons, List.length_append]; omega)
          none after rfl
        have hshown : renamePieces names before
            (.literal (c :: (inside ++ [c])) :: pieces after) =
              c :: (inside ++ c :: renamePieces names none (pieces after)) := by
          rw [renamePieces_none]
          simp [renamePieces, Piece.rename]
        rw [pieces_close hquote hsome, hshown]
        exact .literal hquote hinside hafter
    · have hlead : ∀ c ∈ (leadCode (pieces rest)).head?, isNameChar c = false :=
        fun c hmem => hstop c (head_leadCode_pieces hmem)
      rw [pieces_name hname.2, renamePieces_name names before hname hlead]
      exact .name hname (isName_shownName hnames before hname _) hstop
        (shownName_cases names before name _) (ih rest.length (hname.length_lt rest) _ rest rfl)

theorem renamesOutside_renameValues {names : Names} (hnames : ∀ entry ∈ names, IsName entry.2)
    (chars : List Char) :
    RenamesOutside (fun name other => names.get? name = some other) chars
      (renameValues names chars) := by
  rw [renameValues, ← renamePieces_none]
  exact renamesOutside_renamePieces hnames none chars

/-! ### References in code -/

theorem leadCode_pieces_prefix (chars : List Char) : leadCode (pieces chars) <+: chars := by
  induction chars with
  | nil =>
    rw [pieces]
    exact List.prefix_refl _
  | cons c rest ih =>
    by_cases hopen : isQuote c = true → closeLiteral c rest = none
    · rw [pieces_open hopen, leadCode_consCode]
      exact List.cons_prefix_cons.2 ⟨rfl, ih⟩
    · obtain ⟨hquote, hclose⟩ := Classical.not_imp.1 hopen
      obtain ⟨⟨inside, after⟩, hsome⟩ := Option.ne_none_iff_exists'.1 hclose
      rw [pieces_close hquote hsome]
      exact List.nil_prefix

theorem shownName_of_reference (names : Names) {before : Option Char} {name rest : List Char}
    (hpoint : before ≠ some '.') (hcolon : (dropBlanks rest).head? ≠ some ':') :
    shownName names before name (leadCode (pieces rest)) = (names.get? name).getD name := by
  have hlead : (dropBlanks (leadCode (pieces rest))).head? ≠ some ':' := by
    intro hhead
    obtain ⟨more, hmore⟩ := leadCode_pieces_prefix rest
    refine hcolon ?_
    rw [dropBlanks] at hhead
    rw [← hmore, dropBlanks, List.dropWhile_append, if_neg, List.head?_append, hhead]
    · rfl
    · rw [List.isEmpty_iff]
      intro hnil
      rw [hnil] at hhead
      cases hhead
  rw [shownName, if_neg]
  simpa using ⟨hpoint, hlead⟩

/-- A name in plain code that means a value: no quote stands before it, and it stands neither behind
a point nor before a colon. -/
structure Reference (front name rest : List Char) : Prop where
  name : IsName name
  whole : ∀ c ∈ front.getLast?, isNameChar c = false
  stop : ∀ c ∈ rest.head?, isNameChar c = false
  plain : ∀ c ∈ front, isQuote c = false
  point : front.getLast? ≠ some '.'
  colon : (dropBlanks rest).head? ≠ some ':'

theorem exists_renamePieces {names : Names} (hnames : ∀ entry ∈ names, IsName entry.2)
    {front name rest : List Char} (hfront : ∀ c ∈ front, isQuote c = false) (hname : IsName name)
    (hapart : Apart front (name ++ rest)) (hstop : ∀ c ∈ rest.head?, isNameChar c = false)
    (hcolon : (dropBlanks rest).head? ≠ some ':') {before : Option Char}
    (hpoint : front.getLast?.or before ≠ some '.') (place : List Char) :
    ∃ front' rest', renamePieces names before (pieces (front ++ (name ++ rest))) =
        front' ++ ((names.get? name).getD name ++ rest') ∧
      Respells (fun _ name other => names.get? name = some other) place front front' ∧
      RenamesOutside (fun name other => names.get? name = some other) rest rest' := by
  have hhead : ∀ {chars : List Char}, (∀ c ∈ chars.head?, isNameChar c = false) →
      ∀ c ∈ (leadCode (pieces chars)).head?, isNameChar c = false :=
    fun hchars c hmem => hchars c (head_leadCode_pieces hmem)
  -- along the text in front, of which only the last character matters
  induction front using nameInduction generalizing before place with
  | nil =>
    refine ⟨[], _, ?_, .nil, renamesOutside_renamePieces hnames name.getLast? rest⟩
    rw [List.nil_append, pieces_name hname.2, renamePieces_name names before hname (hhead hstop),
      shownName_of_reference names (by simpa using hpoint) hcolon]
    rfl
  | separator c front hc ih =>
    have hlast : (c :: front).getLast?.or before = front.getLast?.or (some c) := by
      rw [List.getLast?_cons]
      cases front.getLast? <;> rfl
    rw [hlast] at hpoint
    obtain ⟨front', rest', hrenamed, hrespells, hrest⟩ :=
      ih (fun d hd => hfront d (by simp [hd])) hapart.of_cons hpoint (place ++ [c])
    refine ⟨c :: front', rest', ?_, .separator hc hrespells, hrest⟩
    rw [List.cons_append, pieces_cons (hfront c (by simp)), renamePieces_consCode names before hc,
      hrenamed]
    rfl
  | name run front hrun hrunStop ih =>
    have hlast : (run ++ front).getLast?.or before = front.getLast?.or run.getLast? := by
      obtain ⟨d, hd⟩ := Option.isSome_iff_exists.1 (List.getLast?_isSome.2 hrun.1)
      rw [List.getLast?_append, hd]
      cases front.getLast? <;> rfl
    rw [hlast] at hpoint
    obtain ⟨front', rest', hrenamed, hrespells, hrest⟩ :=
      ih (fun d hd => hfront d (by simp [hd])) hapart.of_append hpoint (place ++ run)
    have hshown := shownName_cases names before run (leadCode (pieces (front ++ (name ++ rest))))
    refine ⟨_ ++ front', rest', ?_,
      .name hrun (isName_shownName hnames before hrun _) hrunStop hshown hrespells, hrest⟩
    rw [List.append_assoc, pieces_name hrun.2,
      renamePieces_name names before hrun (hhead (hapart.stop hrun hrunStop)), hrenamed,
      List.append_assoc]

/-- A reference becomes its new name. -/
theorem Reference.exists_renameValues {names : Names} (hnames : ∀ entry ∈ names, IsName entry.2)
    {front name rest : List Char} (h : Reference front name rest) (place : List Char) :
    ∃ front' rest', renameValues names (front ++ (name ++ rest)) =
        front' ++ ((names.get? name).getD name ++ rest') ∧
      Respells (fun _ name other => names.get? name = some other) place front front' ∧
      RenamesOutside (fun name other => names.get? name = some other) rest rest' := by
  rw [renameValues, ← renamePieces_none]
  exact exists_renamePieces hnames h.plain h.name (Or.inl h.whole) h.stop h.colon
    (by simpa using h.point) place

end Schemata.Emitted

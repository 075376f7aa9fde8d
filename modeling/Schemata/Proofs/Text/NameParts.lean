import Mathlib.Data.List.SplitBy
import Schemata.Proofs.Text.Lines

/-!
# Names and separators

A text is a row of names, its longest runs of name characters, with separators between them. A text
is respelled if other names stand in the place of some of its names. Then the separators are the
same as before, and with them the lines, and everything that depends on separators alone.
-/

namespace Schemata.Text

/-- The longest runs of name characters of a text and the separators between them, in order. -/
def nameParts (chars : List Char) : List (List Char) :=
  chars.splitBy fun c d => isNameChar c == isNameChar d

/-- Parts of a text, each with all that stands in front of it. -/
def placed (before : List Char) : List (List Char) → List (List Char × List Char)
  | [] => []
  | part :: parts => (before, part) :: placed (before ++ part) parts

/-- The names and separators of a text, each with all that stands in front of it. -/
def placedParts (chars : List Char) : List (List Char × List Char) := placed [] (nameParts chars)

/-- The second text is the first one with other names in it. Which name may stand for another is
told from the text in front of it. -/
inductive Respells (may : List Char → List Char → List Char → Prop) :
    List Char → List Char → List Char → Prop where
  | nil {before : List Char} : Respells may before [] []
  | separator {before old new : List Char} {c : Char} (hc : isNameChar c = false)
      (h : Respells may (before ++ [c]) old new) : Respells may before (c :: old) (c :: new)
  | name {before name other old new : List Char} (hname : IsName name) (hother : IsName other)
      (hstop : ∀ c ∈ old.head?, isNameChar c = false)
      (hmay : other = name ∨ may before name other)
      (h : Respells may (before ++ name) old new) : Respells may before (name ++ old) (other ++ new)

/-- The second text is the first one with other names in it, and in a given place with a given
one. -/
def RespellsAt (may : List Char → List Char → List Char → Prop)
    (old new before name other : List Char) : Prop :=
  ∃ rest before' rest', old = before ++ (name ++ rest) ∧ new = before' ++ (other ++ rest') ∧
    Respells may [] before before' ∧ Respells may (before ++ name) rest rest'

/-- No name goes on from the first text into the second. -/
def Apart (first second : List Char) : Prop :=
  (∀ c ∈ first.getLast?, isNameChar c = false) ∨ ∀ c ∈ second.head?, isNameChar c = false

theorem Apart.of_cons {c : Char} {first second : List Char} (h : Apart (c :: first) second) :
    Apart first second := by
  rcases h with hfirst | hsecond
  · refine Or.inl fun d hd => hfirst d ?_
    rw [List.getLast?_cons]
    cases hlast : first.getLast? with
    | none => simp [hlast] at hd
    | some e => simpa [hlast] using hd
  · exact Or.inr hsecond

theorem Apart.of_append {front first second : List Char} (h : Apart (front ++ first) second) :
    Apart first second := by
  induction front with
  | nil => exact h
  | cons c front ih => exact ih h.of_cons

theorem Apart.left {first second third : List Char} (h : Apart first (second ++ third)) :
    Apart first second := by
  rcases h with hfirst | hsecond
  · exact Or.inl hfirst
  · cases second with
    | nil => exact Or.inr (by simp)
    | cons c second => exact Or.inr hsecond

/-- A name at the beginning of the first text stays whole with the second one behind. -/
theorem Apart.stop {name rest second : List Char} (h : Apart (name ++ rest) second)
    (hname : IsName name) (hstop : ∀ c ∈ rest.head?, isNameChar c = false) :
    ∀ c ∈ (rest ++ second).head?, isNameChar c = false := by
  cases rest with
  | cons d rest => exact hstop
  | nil =>
    rw [List.append_nil] at h
    rcases h with hfirst | hsecond
    · obtain ⟨d, hd⟩ := Option.isSome_iff_exists.1 (List.getLast?_isSome.2 hname.1)
      have hchar := hname.2 d (List.mem_of_getLast? hd)
      rw [hfirst d hd] at hchar
      cases hchar
    · exact hsecond

/-- Where no name goes on, a name at the beginning lies in the first text. -/
theorem Apart.exists_of_name {name old first second : List Char} (h : Apart first second)
    (hname : IsName name) (hne : first ≠ []) (heq : name ++ old = first ++ second) :
    ∃ rest, first = name ++ rest ∧ old = rest ++ second := by
  rcases List.append_eq_append_iff.1 heq with ⟨rest, rfl, hold⟩ | ⟨rest, rfl, rfl⟩
  · exact ⟨rest, rfl, hold⟩
  · cases rest with
    | nil => exact ⟨[], by simp, rfl⟩
    | cons c rest =>
      -- the name would go on into the second text
      exfalso
      rcases h with hfirst | hsecond
      · obtain ⟨d, hd⟩ := Option.isSome_iff_exists.1 (List.getLast?_isSome.2 hne)
        have hchar := hname.2 d (List.mem_append_left _ (List.mem_of_getLast? hd))
        rw [hfirst d hd] at hchar
        cases hchar
      · have hchar := hname.2 c (by simp)
        rw [hsecond c (by simp)] at hchar
        cases hchar

/-- A text is empty, begins with a separator, or begins with a whole name. -/
theorem name_cases (chars : List Char) :
    chars = [] ∨ (∃ c rest, chars = c :: rest ∧ isNameChar c = false) ∨
      ∃ name rest, chars = name ++ rest ∧ IsName name ∧
        ∀ c ∈ rest.head?, isNameChar c = false := by
  cases chars with
  | nil => exact Or.inl rfl
  | cons c rest =>
    cases hc : isNameChar c with
    | false => exact Or.inr (Or.inl ⟨c, rest, rfl, hc⟩)
    | true =>
      have hmore : ∀ d ∈ rest.takeWhile isNameChar, isNameChar d = true :=
        List.all_eq_true.1 List.all_takeWhile
      refine Or.inr (Or.inr ⟨c :: rest.takeWhile isNameChar, rest.dropWhile isNameChar, ?_,
        ⟨by simp, by simpa [hc] using hmore⟩, ?_⟩)
      · rw [List.cons_append, List.takeWhile_append_dropWhile]
      · intro d hd
        have hhead := List.head?_dropWhile_not isNameChar rest
        rw [Option.mem_def.1 hd] at hhead
        simpa using hhead

theorem IsName.length_lt {name : List Char} (h : IsName name) (rest : List Char) :
    rest.length < (name ++ rest).length := by
  have hpos := List.length_pos_of_ne_nil h.1
  rw [List.length_append]
  omega

/-- What holds of the empty text, and of a text with a separator or a whole name more in front,
holds of every text. -/
@[elab_as_elim]
theorem nameInduction {motive : List Char → Prop} (nil : motive [])
    (separator : ∀ c rest, isNameChar c = false → motive rest → motive (c :: rest))
    (name : ∀ name rest, IsName name → (∀ c ∈ rest.head?, isNameChar c = false) → motive rest →
      motive (name ++ rest))
    (chars : List Char) : motive chars := by
  induction hlength : chars.length using Nat.strong_induction_on generalizing chars with
  | _ length ih =>
    subst hlength
    rcases name_cases chars with rfl | ⟨c, rest, rfl, hc⟩ | ⟨run, rest, rfl, hrun, hstop⟩
    · exact nil
    · exact separator c rest hc (ih rest.length (by simp) rest rfl)
    · exact name run rest hrun hstop (ih rest.length (hrun.length_lt rest) rest rfl)

namespace Respells

variable {may : List Char → List Char → List Char → Prop} {before old new : List Char}

theorem refl (before chars : List Char) : Respells may before chars chars := by
  induction chars using nameInduction generalizing before with
  | nil => exact .nil
  | separator c rest hc ih => exact .separator hc (ih _)
  | name name rest hname hstop ih => exact .name hname hname hstop (Or.inl rfl) (ih _)

/-- Texts are respelled one after the other. -/
theorem append {old' new' : List Char} (h : Respells may before old new)
    (h' : Respells may (before ++ old) old' new') (hapart : Apart old old') :
    Respells may before (old ++ old') (new ++ new') := by
  induction h with
  | nil => simpa using h'
  | separator hc h ih =>
    exact .separator hc (ih (by simpa using h') hapart.of_cons)
  | @name before name other old new hname hother hstop hmay h ih =>
    rw [List.append_assoc, List.append_assoc]
    exact .name hname hother (hapart.stop hname hstop) hmay
      (ih (by simpa using h') hapart.of_append)

/-- A respelled text falls into parts where the first one does. -/
theorem exists_append (h : Respells may before old new) {first second : List Char}
    (heq : old = first ++ second) (hapart : Apart first second) :
    ∃ first' second', new = first' ++ second' ∧ Respells may before first first' ∧
      Respells may (before ++ first) second second' := by
  induction h generalizing first with
  | nil =>
    obtain ⟨rfl, rfl⟩ := List.append_eq_nil_iff.1 heq.symm
    exact ⟨[], [], rfl, .nil, .nil⟩
  | @separator before old new c hc h ih =>
    cases first with
    | nil =>
      obtain rfl : c :: old = second := heq
      exact ⟨[], c :: new, rfl, .nil, by simpa using h.separator hc⟩
    | cons d first =>
      obtain ⟨rfl, rfl⟩ := List.cons.inj heq
      obtain ⟨first', second', rfl, hfirst, hsecond⟩ := ih rfl hapart.of_cons
      exact ⟨c :: first', second', rfl, .separator hc hfirst, by simpa using hsecond⟩
  | @name before name other old new hname hother hstop hmay h ih =>
    cases first with
    | nil =>
      obtain rfl : name ++ old = second := heq
      exact ⟨[], other ++ new, rfl, .nil, by simpa using Respells.name hname hother hstop hmay h⟩
    | cons d first =>
      obtain ⟨rest, hrest, rfl⟩ := hapart.exists_of_name hname (by simp) heq
      rw [hrest] at hapart ⊢
      obtain ⟨rest', second', rfl, hfirst, hsecond⟩ := ih rfl hapart.of_append
      refine ⟨other ++ rest', second', by simp, .name hname hother ?_ hmay hfirst,
        by simpa using hsecond⟩
      cases rest with
      | nil => simp
      | cons e rest => simpa using hstop

theorem mono {may' : List Char → List Char → List Char → Prop}
    (h : Respells may before old new)
    (himp : ∀ before name other, may before name other → may' before name other) :
    Respells may' before old new := by
  induction h with
  | nil => exact .nil
  | separator hc h ih => exact .separator hc ih
  | name hname hother hstop hmay h ih =>
    exact .name hname hother hstop (hmay.imp_right (himp _ _ _)) ih

theorem eq_nil_iff (h : Respells may before old new) : new = [] ↔ old = [] := by
  cases h with
  | nil => rfl
  | separator hc h => simp
  | name hname hother hstop hmay h => simp [hname.1, hother.1]

theorem exists_of_separator {c : Char} (h : Respells may before (c :: old) new)
    (hc : isNameChar c = false) :
    ∃ new', new = c :: new' ∧ Respells may (before ++ [c]) old new' := by
  generalize hchars : c :: old = chars at h
  cases h with
  | nil => cases hchars
  | separator hd h =>
    cases hchars
    exact ⟨_, rfl, h⟩
  | name hname hother hstop hmay h =>
    obtain ⟨d, rest, rfl⟩ := List.exists_cons_of_ne_nil hname.1
    obtain ⟨rfl, -⟩ := List.cons.inj hchars
    rw [hname.2 c (by simp)] at hc
    cases hc

theorem exists_of_name {name : List Char} (h : Respells may before (name ++ old) new)
    (hname : IsName name) (hstop : ∀ c ∈ old.head?, isNameChar c = false) :
    ∃ other new', new = other ++ new' ∧ IsName other ∧ (other = name ∨ may before name other) ∧
      Respells may (before ++ name) old new' := by
  obtain ⟨other, new', rfl, hfirst, hrest⟩ := h.exists_append rfl (Or.inr hstop)
  refine ⟨other, new', rfl, ?_⟩
  generalize hchars : name = chars at hfirst
  cases hfirst with
  | nil => exact absurd hchars hname.1
  | separator hc h =>
    rw [hchars] at hname
    rw [hname.2 _ (by simp)] at hc
    cases hc
  | @name _ name' other old' new'' hname' hother hstop' hmay h =>
    -- a second name cannot begin within the first one
    obtain rfl : old' = [] := by
      cases old' with
      | nil => rfl
      | cons c old' =>
        have hchar := hname.2 c (by simp [hchars])
        rw [hstop' c (by simp)] at hchar
        cases hchar
    obtain rfl : new'' = [] := h.eq_nil_iff.2 rfl
    rw [List.append_nil] at hchars
    subst hchars
    simpa using ⟨hother, hmay, hrest⟩

/-- Where a text begins with a separator, the respelled one begins with the same. -/
theorem head_eq (h : Respells may before old new) (hold : ∀ c ∈ old.head?, isNameChar c = false) :
    new.head? = old.head? := by
  cases h with
  | nil => rfl
  | separator hc h => rfl
  | name hname hother hstop hmay h =>
    obtain ⟨c, rest, rfl⟩ := List.exists_cons_of_ne_nil hname.1
    have hchar := hname.2 c (by simp)
    rw [hold c (by simp)] at hchar
    cases hchar

/-- All that is no name stays, in order. -/
theorem filter_eq (h : Respells may before old new) :
    new.filter (!isNameChar ·) = old.filter (!isNameChar ·) := by
  have hnames : ∀ name, IsName name → name.filter (!isNameChar ·) = [] := by
    intro name hname
    rw [List.filter_eq_nil_iff]
    intro c hc
    simp [hname.2 c hc]
  induction h with
  | nil => rfl
  | separator hc h ih => simp [hc, ih]
  | name hname hother hstop hmay h ih =>
    rw [List.filter_append, List.filter_append, hnames _ hname, hnames _ hother, ih]

theorem eq_of_same (h : Respells may before old new)
    (hsame : ∀ before name other, may before name other → other = name) : new = old := by
  induction h with
  | nil => rfl
  | separator hc h ih => rw [ih]
  | name hname hother hstop hmay h ih =>
    have hkept : _ = _ := hmay.elim id (hsame _ _ _)
    rw [ih, hkept]

theorem eq_of_separators (h : Respells may before old new)
    (hold : ∀ c ∈ old, isNameChar c = false) : new = old := by
  induction h with
  | nil => rfl
  | separator hc h ih => rw [ih fun c hmem => hold c (by simp [hmem])]
  | name hname hother hstop hmay h ih =>
    obtain ⟨c, rest, rfl⟩ := List.exists_cons_of_ne_nil hname.1
    have hchar := hname.2 c (by simp)
    rw [hold c (by simp)] at hchar
    cases hchar

/-- The same separator stands at the beginning of both texts, or of none. -/
theorem head_eq_some_iff (h : Respells may before old new) {c : Char}
    (hc : isNameChar c = false) : new.head? = some c ↔ old.head? = some c := by
  have hnames : ∀ name rest, IsName name → (name ++ rest).head? ≠ some c := by
    intro name rest hname hhead
    obtain ⟨d, more, rfl⟩ := List.exists_cons_of_ne_nil hname.1
    cases hhead
    rw [hname.2 c (by simp)] at hc
    cases hc
  cases h with
  | nil => rfl
  | separator hd h => rfl
  | name hname hother hstop hmay h =>
    exact ⟨fun hhead => absurd hhead (hnames _ _ hother), fun hhead =>
      absurd hhead (hnames _ _ hname)⟩

end Respells

/-! ### Parts -/

theorem isChain_of_same {chars : List Char} {kind : Bool} (h : ∀ c ∈ chars, isNameChar c = kind) :
    chars.IsChain fun c d => isNameChar c == isNameChar d := by
  induction chars with
  | nil => exact .nil
  | cons c rest ih =>
    refine List.isChain_cons.2 ⟨fun d hd => ?_, ih fun d hd => h d (by simp [hd])⟩
    rw [h c (by simp), h d (by simp [List.mem_of_mem_head? hd])]
    simp

/-- Characters of one kind at the beginning, up to one of the other kind, are a part. -/
theorem nameParts_append {part rest : List Char} {kind : Bool} (hne : part ≠ [])
    (hpart : ∀ c ∈ part, isNameChar c = kind) (hrest : ∀ c ∈ rest.head?, isNameChar c = !kind) :
    nameParts (part ++ rest) = part :: nameParts rest := by
  rw [nameParts, List.splitBy_append, List.splitBy_of_isChain hne (isChain_of_same hpart)]
  · rfl
  · intro c hc d hd
    rw [hpart c (List.mem_of_getLast? hc), hrest d hd]
    cases kind <;> rfl

/-- The parts of a respelled text are those of the first one, with other names among them. -/
theorem Respells.placed_parts {may : List Char → List Char → List Char → Prop}
    {before old new : List Char} (h : Respells may before old new) :
    List.Forall₂ (fun place other => other = place.2 ∨
        IsName place.2 ∧ IsName other ∧ may place.1 place.2 other)
      (placed before (nameParts old)) (nameParts new) := by
  induction hlength : old.length using Nat.strong_induction_on generalizing before old new with
  | _ length ih =>
    subst hlength
    cases h with
    | nil => exact .nil
    | @name _ name other old new hname hother hstop hmay h =>
      have hstop' : ∀ c ∈ new.head?, isNameChar c = false := by rwa [h.head_eq hstop]
      rw [nameParts_append hname.1 hname.2 hstop, nameParts_append hother.1 hother.2 hstop', placed]
      refine .cons ?_ (ih old.length (hname.length_lt old) h rfl)
      exact hmay.imp_right fun hmay => ⟨hname, hother, hmay⟩
    | @separator _ old new c hc h =>
      -- the whole separator, not only its first character, is a part
      obtain ⟨gap, rest, hsplit, hgap, hrest⟩ : ∃ gap rest, old = gap ++ rest ∧
          (∀ d ∈ gap, isNameChar d = false) ∧ ∀ d ∈ rest.head?, isNameChar d = true := by
        refine ⟨old.takeWhile (!isNameChar ·), old.dropWhile (!isNameChar ·),
          List.takeWhile_append_dropWhile.symm, ?_, ?_⟩
        · intro d hd
          simpa using List.all_eq_true.1 List.all_takeWhile d hd
        · intro d hd
          have hhead := List.head?_dropWhile_not (!isNameChar ·) old
          rw [Option.mem_def.1 hd] at hhead
          simpa using hhead
      have hwhole : ∀ d ∈ c :: gap, isNameChar d = false := List.forall_mem_cons.2 ⟨hc, hgap⟩
      obtain ⟨gap', rest', hnew, hgaps, hrests⟩ := (h.separator hc).exists_append
        (show c :: old = (c :: gap) ++ rest by rw [hsplit]; rfl)
        (Or.inl fun d hd => hwhole d (List.mem_of_getLast? hd))
      have hrest' : ∀ d ∈ rest'.head?, isNameChar d = true := by
        intro d hd
        by_contra hname
        rw [Bool.not_eq_true] at hname
        have hsame := hrest d ((hrests.head_eq_some_iff hname).1 hd)
        rw [hname] at hsame
        cases hsame
      rw [hgaps.eq_of_separators hwhole] at hnew
      have hold : c :: old = (c :: gap) ++ rest := by rw [hsplit]; rfl
      rw [hnew, hold, nameParts_append (by simp) hwhole hrest,
        nameParts_append (by simp) hwhole hrest', placed]
      refine .cons (Or.inl rfl) (ih rest.length ?_ hrests rfl)
      rw [hsplit, List.length_cons, List.length_append]
      omega

/-! ### Lines -/

theorem isLineBreak_of_mem_ending {chars : List Char} :
    ∀ line ∈ splitLines chars, ∀ c ∈ line.ending, isLineBreak c = true := by
  fun_induction splitLines chars with
  | case1 => simp
  | case2 rest ih => exact List.forall_mem_cons.2 ⟨List.all_eq_true.1 rfl, ih⟩
  | case3 c rest _ hbreak ih => exact List.forall_mem_cons.2 ⟨by simpa using hbreak, ih⟩
  | case4 c rest _ hbreak hnil ih => simp
  | case5 c rest _ hbreak line lines hcons ih =>
    rw [hcons, List.forall_mem_cons] at ih
    exact List.forall_mem_cons.2 ih

/-- Only the last line of a text may have no line boundary behind it. -/
theorem isChain_splitLines (chars : List Char) :
    (splitLines chars).IsChain fun line _ => line.ending ≠ [] := by
  fun_induction splitLines chars with
  | case1 => exact .nil
  | case2 rest ih => exact List.isChain_cons.2 ⟨by simp, ih⟩
  | case3 c rest _ hbreak ih => exact List.isChain_cons.2 ⟨by simp, ih⟩
  | case4 c rest _ hbreak hnil ih => exact .singleton _
  | case5 c rest _ hbreak line lines hcons ih =>
    rw [hcons, List.isChain_cons] at ih
    exact List.isChain_cons.2 ih

/-- The text is empty or ends in a line break. -/
def EndsLine (chars : List Char) : Prop := ∀ c ∈ chars.getLast?, isLineBreak c = true

theorem EndsLine.of_append {front chars : List Char} (h : EndsLine (front ++ chars)) :
    EndsLine chars := by
  cases chars with
  | nil => simp [EndsLine]
  | cons c chars =>
    rwa [EndsLine, List.getLast?_append_of_ne_nil _ (by simp)] at h

theorem EndsLine.of_cons {c : Char} {chars : List Char} (h : EndsLine (c :: chars)) :
    EndsLine chars :=
  EndsLine.of_append (show EndsLine ([c] ++ chars) from h)

theorem EndsLine.eq_nil {chars : List Char} (h : EndsLine chars) (hunbroken : Unbroken chars) :
    chars = [] := by
  cases hlast : chars.getLast? with
  | none => exact List.getLast?_eq_none_iff.1 hlast
  | some c =>
    have hbreak := h c hlast
    rw [hunbroken c (List.mem_of_getLast? hlast)] at hbreak
    cases hbreak

theorem EndsLine.apart {first : List Char} (h : EndsLine first) (second : List Char) :
    Apart first second :=
  Or.inl fun c hc => isNameChar_eq_false_of_isBlank (isBlank_of_isLineBreak (h c hc))

theorem endsLine_chars {line : Line} (hne : line.ending ≠ [])
    (hending : ∀ c ∈ line.ending, isLineBreak c = true) : EndsLine line.chars := by
  intro c hc
  rw [Line.chars, List.getLast?_append_of_ne_nil _ hne] at hc
  exact hending c (List.mem_of_getLast? hc)

/-- The lines in front of another one end in a line break. -/
theorem endsLine_lines {chars : List Char} {earlier later : List Line} {line : Line}
    (hsplit : splitLines chars = earlier ++ line :: later) :
    EndsLine (earlier.flatMap Line.chars) := by
  have hchain := isChain_splitLines chars
  have hendings := @isLineBreak_of_mem_ending chars
  rw [hsplit] at hchain hendings
  rcases List.eq_nil_or_concat' earlier with rfl | ⟨front, last, rfl⟩
  · simp [EndsLine]
  · have hne : last.ending ≠ [] := by
      rw [List.append_assoc] at hchain
      exact (List.isChain_cons.1 (List.IsChain.right_of_append hchain)).1 line (by simp)
    have hlast := endsLine_chars hne (hendings last (by simp))
    intro c hc
    refine hlast c ?_
    rwa [List.flatMap_append, List.flatMap_singleton, List.getLast?_append_of_ne_nil _ ?_] at hc
    simp [Line.chars, hne]

/-- The line boundaries of a text, in order; none stands behind the last line if the text ends in
it. -/
def lineEndings (chars : List Char) : List (List Char) := (splitLines chars).map Line.ending

theorem lineEndings_cons {c : Char} (hc : isLineBreak c = false) (rest : List Char) :
    lineEndings (c :: rest) = if rest = [] then [[]] else lineEndings rest := by
  rw [lineEndings, splitLines_cons hc]
  by_cases hrest : rest = []
  · rw [hrest]
    rfl
  · rw [if_neg hrest, lineEndings]
    cases hlines : splitLines rest with
    | nil => exact absurd hlines (splitLines_ne_nil hrest)
    | cons line lines => rfl

theorem lineEndings_append {first : List Char} (h : Unbroken first) (hne : first ≠ [])
    (rest : List Char) :
    lineEndings (first ++ rest) = if rest = [] then [[]] else lineEndings rest := by
  induction first with
  | nil => exact absurd rfl hne
  | cons c first ih =>
    rw [unbroken_cons] at h
    rw [List.cons_append, lineEndings_cons h.1]
    cases first with
    | nil => rfl
    | cons d first =>
      rw [if_neg (by simp), ih h.2 (by simp)]

theorem lineEndings_break {c : Char} (hc : isLineBreak c = true) {rest : List Char}
    (h : c = '\r' → rest.head? ≠ some '\n') :
    lineEndings (c :: rest) = [c] :: lineEndings rest := by
  rw [lineEndings, splitLines_break hc h]
  rfl

/-- Both texts have the same lines but for the names in them. -/
theorem Respells.lineEndings_eq {may : List Char → List Char → List Char → Prop}
    {before old new : List Char} (h : Respells may before old new) :
    lineEndings new = lineEndings old := by
  induction h with
  | nil => rfl
  | name hname hother hstop hmay h ih =>
    rw [lineEndings_append hname.unbroken hname.1, lineEndings_append hother.unbroken hother.1, ih]
    simp only [h.eq_nil_iff]
  | @separator before old new c hc h ih =>
    cases hbreak : isLineBreak c with
    | false =>
      rw [lineEndings_cons hbreak, lineEndings_cons hbreak, ih]
      simp only [h.eq_nil_iff]
    | true =>
      have hfeed := h.head_eq_some_iff (show isNameChar '\n' = false by decide)
      by_cases hpair : c = '\r' ∧ old.head? = some '\n'
      · -- a carriage return before a line feed is one boundary with it
        obtain ⟨rfl, hold⟩ := hpair
        obtain ⟨new, rfl⟩ := List.head?_eq_some_iff.1 (hfeed.2 hold)
        obtain ⟨old, rfl⟩ := List.head?_eq_some_iff.1 hold
        rw [lineEndings_break (by decide) (by simp), lineEndings_break (by decide) (by simp)] at ih
        have htail : lineEndings new = lineEndings old := (List.cons.inj ih).2
        rw [lineEndings, lineEndings] at htail
        simp [lineEndings, splitLines, htail]
      · have hold : c = '\r' → old.head? ≠ some '\n' := fun hc hhead => hpair ⟨hc, hhead⟩
        have hnew : c = '\r' → new.head? ≠ some '\n' :=
          fun hc hhead => hold hc (hfeed.1 hhead)
        rw [lineEndings_break hbreak hnew, lineEndings_break hbreak hold, ih]

end Schemata.Text

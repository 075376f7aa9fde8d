import Schemata.Proofs.Doc.TagComments
import Schemata.Proofs.Doc.TagValues

/-!
# Tags that are lost

A tag that stands behind another one on its line is no option, and its name is listed as lost. A
name is listed for each tag in the part of a value that is not read: what is behind the literal, or
the whole value if it is kept as text. The search skips a literal at the start of a value even when
that literal is refused, and then part of the text that is kept is not searched.
-/

namespace Schemata

namespace Doc

open Text

/-! ### Tags in a text -/

/-- At a place of a text, which is its start or comes after a blank, there is an at sign with a name
behind it, and the name ends where no further character belongs to it. -/
def TagAt (chars : List Char) (place : Nat) (name : String) : Prop :=
  ∃ before after, chars = before ++ '@' :: (name.toList ++ after) ∧ before.length = place ∧
    (∀ c ∈ before.getLast?, isBlank c = true) ∧ isPlainName name.toList = true ∧
    ∀ c ∈ after.head?, isNameChar c = false

/-- The names of all tags in a text, in the order of their places. -/
def TagsIn (chars : List Char) (names : List String) : Prop :=
  ∃ places : List (Nat × String), places.Pairwise (fun first second => first.1 < second.1) ∧
    (∀ place name, (place, name) ∈ places ↔ TagAt chars place name) ∧
    names = places.map Prod.snd

/-- The name of the tag at the very start of a text. -/
def leadingTag? : List Char → Option String
  | '@' :: rest => (spanName rest).map fun found => String.ofList found.1
  | _ => none

/-- Whether a tag may stand behind some text. -/
def opensTag (before : List Char) : Bool := (before.getLast?.map isBlank).getD true

theorem opensTag_iff {before : List Char} :
    opensTag before = true ↔ ∀ c ∈ before.getLast?, isBlank c = true := by
  cases h : before.getLast? with
  | none => simp [opensTag, h]
  | some c => simp [opensTag, h]

theorem opensTag_concat (before : List Char) (c : Char) :
    opensTag (before ++ [c]) = isBlank c := by
  simp [opensTag]

theorem spanName_eq_some_iff {chars name after : List Char} :
    spanName chars = some (name, after) ↔
      chars = name ++ after ∧ isPlainName name = true ∧ ∀ c ∈ after.head?, isNameChar c = false := by
  constructor
  · intro h
    cases chars with
    | nil => cases h
    | cons c rest =>
      rw [spanName] at h
      split at h
      · rename_i hstart
        cases h
        refine ⟨by rw [List.cons_append, List.takeWhile_append_dropWhile], ?_, ?_⟩
        · rw [isPlainName, hstart, Bool.true_and, List.all_takeWhile]
        · intro d hd
          have hstop := List.head?_dropWhile_not isNameChar rest
          rwa [Option.mem_def.1 hd] at hstop
      · cases h
  · rintro ⟨rfl, hname, hafter⟩
    exact spanName_append hname hafter

theorem leadingTag?_eq_some_iff {chars : List Char} {name : String} :
    leadingTag? chars = some name ↔ ∃ after, chars = '@' :: (name.toList ++ after) ∧
      isPlainName name.toList = true ∧ ∀ c ∈ after.head?, isNameChar c = false := by
  constructor
  · intro h
    unfold leadingTag? at h
    split at h
    · obtain ⟨⟨found, after⟩, hspan, rfl⟩ := Option.map_eq_some_iff.1 h
      obtain ⟨rfl, hname, hafter⟩ := spanName_eq_some_iff.1 hspan
      exact ⟨after, by rw [String.toList_ofList], by rwa [String.toList_ofList], hafter⟩
    · cases h
  · rintro ⟨after, rfl, hname, hafter⟩
    rw [leadingTag?, spanName_append hname hafter, Option.map_some, String.ofList_toList]

/-- Behind some text there is a tag if it may stand there and the rest begins with it. -/
theorem tagAt_length_iff {before rest : List Char} {name : String} :
    TagAt (before ++ rest) before.length name ↔
      (if opensTag before then leadingTag? rest else none) = some name := by
  rw [Option.ite_none_right_eq_some, opensTag_iff, leadingTag?_eq_some_iff]
  constructor
  · rintro ⟨front, after, hchars, hlength, hfront, hname, hafter⟩
    obtain ⟨rfl, rfl⟩ := List.append_inj hchars hlength.symm
    exact ⟨hfront, after, rfl, hname, hafter⟩
  · rintro ⟨hbefore, after, rfl, hname, hafter⟩
    exact ⟨before, after, rfl, rfl, hbefore, hname, hafter⟩

theorem inlineNames_cons (boundary : Bool) (c : Char) (rest : List Char) :
    inlineNames boundary (c :: rest) =
      (if boundary then leadingTag? (c :: rest) else none).toList ++
        inlineNames (isBlank c) rest := by
  have hblank : isBlank '@' = false := by decide
  cases boundary with
  | false => simp [inlineNames]
  | true =>
    by_cases hc : c = '@'
    · subst hc
      rw [inlineNames, hblank]
      cases hspan : spanName rest with
      | none => simp [leadingTag?, hspan]
      | some found => simp [leadingTag?, hspan]
    · have hnone : leadingTag? (c :: rest) = none := by
        unfold leadingTag?
        split
        · rename_i h
          cases h
          exact absurd rfl hc
        · rfl
      simp [inlineNames, hc, hnone]

/-- The search finds the tags from some place on. -/
theorem exists_places (before rest : List Char) :
    ∃ places : List (Nat × String), places.Pairwise (fun first second => first.1 < second.1) ∧
      (∀ place name, (place, name) ∈ places ↔
        TagAt (before ++ rest) place name ∧ before.length ≤ place) ∧
      inlineNames (opensTag before) rest = places.map Prod.snd := by
  induction rest generalizing before with
  | nil =>
    refine ⟨[], .nil, fun place name => ?_, rfl⟩
    simp only [List.not_mem_nil, false_iff, not_and]
    rintro ⟨front, after, hchars, rfl, -⟩
    have hlength := congrArg List.length hchars
    simp only [List.length_append, List.length_cons, List.length_nil] at hlength
    omega
  | cons c rest ih =>
    obtain ⟨later, hsorted, hlater, hnames⟩ := ih (before ++ [c])
    rw [List.append_assoc, List.singleton_append, List.length_append, List.length_singleton]
      at hlater
    have hhere : ∀ name, TagAt (before ++ c :: rest) before.length name ↔ _ :=
      fun _ => tagAt_length_iff
    rw [inlineNames_cons, ← opensTag_concat before c, hnames]
    -- a tag begins right here, or all tags begin later
    cases hfound : (if opensTag before then leadingTag? (c :: rest) else none) with
    | none =>
      simp only [hfound, reduceCtorEq, iff_false] at hhere
      refine ⟨later, hsorted, fun place name => (hlater place name).trans ?_, rfl⟩
      refine and_congr_right fun htag => ⟨Nat.le_of_succ_le, fun hle => ?_⟩
      refine Nat.lt_of_le_of_ne hle ?_
      rintro rfl
      exact hhere name htag
    | some own =>
      simp only [hfound, Option.some.injEq] at hhere
      refine ⟨(before.length, own) :: later, List.pairwise_cons.2 ⟨?_, hsorted⟩,
        fun place name => ?_, rfl⟩
      · rintro ⟨place, name⟩ hmem
        exact ((hlater place name).1 hmem).2
      · rw [List.mem_cons, hlater, Prod.mk.injEq]
        constructor
        · rintro (⟨rfl, rfl⟩ | ⟨htag, hle⟩)
          · exact ⟨(hhere name).2 rfl, Nat.le_refl _⟩
          · exact ⟨htag, Nat.le_of_succ_le hle⟩
        · rintro ⟨htag, hle⟩
          obtain rfl | hlt := Nat.eq_or_lt_of_le hle
          · exact Or.inl ⟨rfl, ((hhere name).1 htag).symm⟩
          · exact Or.inr ⟨htag, hlt⟩

/-- The search of a text from its start finds all its tags. -/
theorem tagsIn_inlineNames (chars : List Char) : TagsIn chars (inlineNames true chars) := by
  obtain ⟨places, hsorted, hplaces, hnames⟩ := exists_places [] chars
  exact ⟨places, hsorted, fun place name => by simpa using hplaces place name, hnames⟩

/-! ### Tags behind a value -/

/-- The part of a value that is no option's literal once the value is read as some option. -/
def unread (value : List Char) : OptionValue → List Char
  | .literal _ => ((lexeme? (trimChars value)).map Prod.snd).getD []
  | .raw _ => trimChars value

/-- The names that are listed for a value. -/
structure LostBehind (value : List Char) (names : List String) : Prop where
  /-- They are those of the tags in the part that is not read, unless a literal was refused. -/
  unread : ∀ option, tagValue value = .ok option →
    (∀ lexeme after, lexeme? (trimChars value) = some (lexeme, after) → ¬ Refused lexeme after) →
    TagsIn (unread value option) names
  /-- Behind a literal they are those of the tags that follow it, be it refused or not. -/
  skipped : ∀ lexeme after, lexeme? (trimChars value) = some (lexeme, after) → TagsIn after names

theorem lostBehind_inlineNames (value : List Char) :
    LostBehind value (inlineNames true
      (((lexeme? (trimChars value)).map Prod.snd).getD (trimChars value))) := by
  refine ⟨fun option hoption haccepted => ?_, fun lexeme after hlexeme => ?_⟩
  · have hread := readAs_tagValue value
    rw [hoption] at hread
    cases hread with
    | nothing hempty =>
      rw [unread, hempty]
      exact tagsIn_inlineNames []
    | text hnone =>
      rw [unread, hnone]
      exact tagsIn_inlineNames _
    | refused hlexeme hrefused => exact absurd hrefused (haccepted _ _ hlexeme)
    | literal hlexeme _ _ =>
      rw [unread, hlexeme]
      exact tagsIn_inlineNames _
  · rw [hlexeme]
    exact tagsIn_inlineNames after

/-- **What is listed as lost.** Tag by tag, for those that have a value, the names of the tags in the
part of it that is not read; but behind a literal that is refused only the rest is searched,
although the whole value is kept. -/
theorem lostNames_eq_flatten (comment : String) :
    ∃ lost : List (List String), lostNames comment = lost.flatten ∧
      List.Forall₂ (fun tag names => LostBehind tag.value names)
        ((tags comment).filter fun tag => !tag.value.isEmpty) lost := by
  refine ⟨_, List.flatMap_def, ?_⟩
  rw [List.forall₂_map_right_iff, List.forall₂_same]
  exact fun tag _ => lostBehind_inlineNames tag.value

/-- The number is refused and the whole text is kept, but a tag is found behind the number. -/
example : options "/** @example 1@deprecated */" = .ok [("example", .raw "1@deprecated")] ∧
    lostNames "/** @example 1@deprecated */" = ["deprecated"] :=
  ⟨rfl, rfl⟩

end Doc

end Schemata

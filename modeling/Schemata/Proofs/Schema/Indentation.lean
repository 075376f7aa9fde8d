import Mathlib.Data.List.Infix
import Schemata.Proofs.Schema.LeafTexts
import Schemata.Proofs.Schema.NestedBlocks
import Schemata.Proofs.Schema.PlainCode

/-!
# Indentation

A namespace splits the code inside of it into lines and moves each line, so code deep inside is
split and moved once for every namespace around it. Where no text brings line boundaries of its own
other than line feeds, nothing else happens to it: its lines stand in the code of the outermost
namespace one below the other, with two blanks more for each namespace.
-/

namespace Schemata

namespace Text

/-- What stands between the line feeds of a text. -/
def feedLines (chars : List Char) : List (List Char) := chars.splitOn '\n'

theorem feedLines_ne_nil (chars : List Char) : feedLines chars ≠ [] :=
  List.splitOn_ne_nil '\n' chars

theorem intercalate_feedLines (chars : List Char) : ['\n'].intercalate (feedLines chars) = chars :=
  List.intercalate_splitOn '\n'

theorem feedLines_append_feed (front back : List Char) :
    feedLines (front ++ '\n' :: back) = feedLines front ++ feedLines back :=
  List.splitOn_append_cons_self front back

theorem feedLines_of_not_mem {line : List Char} (h : '\n' ∉ line) : feedLines line = [line] :=
  List.splitOn_eq_singleton h

theorem feedLines_unlines_append {lines : List (List Char)} (h : ∀ line ∈ lines, '\n' ∉ line)
    (rest : List Char) : feedLines (unlines lines ++ rest) = lines ++ feedLines rest := by
  induction lines with
  | nil => rfl
  | cons line lines ih =>
    rw [List.forall_mem_cons] at h
    rw [unlines_cons, List.append_assoc, List.cons_append, feedLines_append_feed,
      feedLines_of_not_mem h.1, ih h.2]
    rfl

theorem feed_not_mem_of_mem_feedLines {chars line : List Char} (h : line ∈ feedLines chars) :
    '\n' ∉ line := by
  induction chars generalizing line with
  | nil =>
    obtain rfl : line = [] := by simpa [feedLines] using h
    exact List.not_mem_nil
  | cons c chars ih =>
    rw [feedLines, List.splitOn_cons_eq_if_modifyHead] at h
    split at h
    · rcases List.mem_cons.1 h with rfl | h
      · exact List.not_mem_nil
      · exact ih h
    · rename_i hc
      rw [beq_iff_eq] at hc
      change line ∈ (feedLines chars).modifyHead (List.cons c) at h
      obtain ⟨first, lines, hlines⟩ := List.exists_cons_of_ne_nil (feedLines_ne_nil chars)
      rw [hlines, List.modifyHead_cons, List.mem_cons] at h
      rw [hlines] at ih
      rcases h with rfl | h
      · rw [List.mem_cons, not_or]
        exact ⟨fun heq => hc heq.symm, ih List.mem_cons_self⟩
      · exact ih (List.mem_cons_of_mem _ h)

theorem FeedsOnly.unbroken_of_mem_feedLines {chars line : List Char} (h : FeedsOnly chars)
    (hline : line ∈ feedLines chars) : Unbroken line := by
  obtain ⟨front, back, hparts, -⟩ := exists_intercalate_of_mem ['\n'] hline
  rw [intercalate_feedLines] at hparts
  rw [hparts, feedsOnly_append, feedsOnly_append] at h
  exact h.2.1.unbroken (feed_not_mem_of_mem_feedLines hline)

/-- The last line of a text is empty only if the text is, or if it ends in a line feed. -/
theorem exists_last_feedLines {chars : List Char} (hne : chars ≠ [])
    (hlast : chars.getLast? ≠ some '\n') :
    ∃ lines last, feedLines chars = lines ++ [last] ∧ last ≠ [] := by
  obtain ⟨lines, last, hlines⟩ := (List.eq_nil_or_concat' (feedLines chars)).resolve_left
    (feedLines_ne_nil chars)
  refine ⟨lines, last, hlines, ?_⟩
  rintro rfl
  have hchars := intercalate_feedLines chars
  rw [hlines] at hchars
  by_cases hnone : lines = []
  · subst hnone
    exact hne (by simpa using hchars.symm)
  · rw [intercalate_append hnone (List.cons_ne_nil _ _), List.intercalate_singleton,
      List.append_nil] at hchars
    rw [← hchars] at hlast
    exact hlast List.getLast?_concat

/-- The lines of several texts with an empty line between any two of them. -/
def blockLines (texts : List String) : List (List Char) :=
  [[]].intercalate (texts.map fun text => feedLines text.toList)

theorem feedLines_join {texts : List String} (hne : texts ≠ []) :
    feedLines (join "\n\n" texts).toList = blockLines texts := by
  induction texts with
  | nil => exact absurd rfl hne
  | cons text rest ih =>
    cases rest with
    | nil => simp [join, blockLines]
    | cons next rest =>
      have hrest := ih (List.cons_ne_nil _ _)
      rw [join, String.intercalate_cons_cons, String.toList_append, String.toList_append,
        List.append_assoc]
      change feedLines (text.toList ++
        '\n' :: ([] ++ '\n' :: (join "\n\n" (next :: rest)).toList)) = _
      rw [feedLines_append_feed, feedLines_append_feed, hrest,
        feedLines_of_not_mem List.not_mem_nil]
      simp [blockLines, List.intercalate_cons_cons]

theorem feed_not_mem_of_mem_blockLines {texts : List String} {line : List Char}
    (h : line ∈ blockLines texts) : '\n' ∉ line := by
  by_cases hne : texts = []
  · subst hne
    cases h
  · rw [← feedLines_join hne] at h
    exact feed_not_mem_of_mem_feedLines h

theorem exists_last_blockLines {texts : List String} (hne : texts ≠ [])
    (h : ∀ text ∈ texts, text ≠ "" ∧ text.toList.getLast? ≠ some '\n') :
    ∃ lines last, blockLines texts = lines ++ [last] ∧ last ≠ [] := by
  obtain ⟨init, text, rfl⟩ := (List.eq_nil_or_concat' texts).resolve_left hne
  obtain ⟨hempty, hlast⟩ := h text (List.mem_append_right _ List.mem_cons_self)
  obtain ⟨lines, last, hlines, hlast⟩ := exists_last_feedLines (by simpa using hempty) hlast
  rw [blockLines, List.map_append]
  by_cases hinit : init = []
  · subst hinit
    exact ⟨lines, last, by simpa using hlines, hlast⟩
  · rw [intercalate_append (by simpa using hinit) (by simp), List.map_singleton,
      List.intercalate_singleton, hlines, ← List.append_assoc, ← List.append_assoc]
    exact ⟨_, last, rfl, hlast⟩

theorem infix_blockLines {texts : List String} {text : String} (h : text ∈ texts) :
    feedLines text.toList <:+: blockLines texts := by
  obtain ⟨before, after, hparts, -⟩ := exists_intercalate_of_mem [[]]
    (List.mem_map_of_mem (f := fun text : String => feedLines text.toList) h)
  exact ⟨before, after, by rw [blockLines, hparts, List.append_assoc]⟩

/-- A line moved some blanks to the right, unless it is empty. -/
def indentBy (count : Nat) (line : List Char) : List Char :=
  if line.isEmpty then line else List.replicate count ' ' ++ line

theorem indentLine_indentBy (depth : Nat) (line : List Char) :
    indentLine (indentBy (2 * depth) line) = indentBy (2 * (depth + 1)) line := by
  cases line with
  | nil => rfl
  | cons c line => simp [indentBy, indentLine, Nat.mul_add, List.replicate_succ]

theorem drop_indentBy (count : Nat) (line : List Char) :
    (indentBy count line).drop count = line := by
  cases line with
  | nil => exact List.drop_nil
  | cons c line => simp [indentBy]

end Text

open Text

/-- The code of a namespace is its opening line, the moved lines of its members and a brace. -/
theorem toList_scopeText {texts : List String} (hfeeds : ∀ text ∈ texts, FeedsOnly text.toList)
    (hsolid : ∀ text ∈ texts, text ≠ "" ∧ text.toList.getLast? ≠ some '\n') (name : String)
    (exported : Bool) (keyword : String) :
    (scopeText name exported keyword (Text.join "\n\n" texts)).toList =
      (openingText name exported keyword).toList ++
        '\n' :: (unlines ((blockLines texts).map indentLine) ++ ['}']) := by
  by_cases hne : texts = []
  · subst hne
    have hempty : indentLines (Text.join "\n\n" []) = "" := rfl
    rw [scopeText, hempty, openingText]
    simp [blockLines, String.toList_append]
  · obtain ⟨lines, last, hlines, hlast⟩ := exists_last_blockLines hne hsolid
    have hbody := feedLines_join hne
    have hfeed : (Text.join "\n\n" texts).toList ++ ['\n'] = unlines (lines ++ [last]) := by
      rw [← hlines, ← hbody, ← intercalate_append_feed (feedLines_ne_nil _), intercalate_feedLines]
    have hunbroken : ∀ line ∈ lines ++ [last], Unbroken line := by
      intro line hline
      rw [← hlines, ← hbody] at hline
      exact (feedsOnly_join (by decide) hfeeds).unbroken_of_mem_feedLines hline
    have hmoved := indentLines_append_feed hfeed hunbroken hlast
    have hinside : indentLines (Text.join "\n\n" texts) ≠ "" := by
      intro hempty
      rw [hempty, List.map_append, unlines_append] at hmoved
      obtain ⟨c, rest, rfl⟩ := List.exists_cons_of_ne_nil hlast
      have hlength := congrArg List.length hmoved
      simp [indentLine] at hlength
      omega
    rw [scopeText, hlines, ← hmoved, openingText]
    simp [hinside, String.toList_append]

namespace Declaration

/-- There is code for the declaration, which is not empty and does not end in a line feed. -/
def RendersSolid (declaration : Declaration) : Prop :=
  ∃ text, declaration.render = .ok text ∧ text ≠ "" ∧ text.toList.getLast? ≠ some '\n'

instance (declaration : Declaration) : Decidable declaration.RendersSolid :=
  match h : declaration.render with
  | .ok text => decidable_of_iff (text ≠ "" ∧ text.toList.getLast? ≠ some '\n')
      (by simp [RendersSolid, h])
  | .error _ => isFalse (by simp [RendersSolid, h])

theorem exists_codes {body : List Declaration}
    (h : ∀ member ∈ body, ∃ text, member.render = .ok text) :
    ∃ texts, renderAll body = .ok texts := by
  induction body with
  | nil => exact ⟨[], rfl⟩
  | cons member rest ih =>
    rw [List.forall_mem_cons] at h
    obtain ⟨⟨text, htext⟩, hrest⟩ := h
    obtain ⟨texts, htexts⟩ := ih hrest
    exact ⟨text :: texts, by rw [renderAll, htext, htexts]; rfl⟩

theorem exists_member_of_mem {body : List Declaration} {texts : List String}
    (h : renderAll body = .ok texts) {text : String} (htext : text ∈ texts) :
    ∃ member ∈ body, member.render = .ok text := by
  induction body generalizing texts with
  | nil =>
    cases h
    cases htext
  | cons first rest ih =>
    obtain ⟨own, more, hown, hmore, rfl⟩ := renderAll_cons_eq_ok h
    rcases List.mem_cons.1 htext with rfl | htext
    · exact ⟨first, List.mem_cons_self, hown⟩
    · obtain ⟨member, hmember, hrender⟩ := ih hmore htext
      exact ⟨member, List.mem_cons_of_mem _ hmember, hrender⟩

/-- The code of a namespace, from the texts of its members. -/
theorem exists_render_scope {name keyword : String} {exported : Bool} {body : List Declaration}
    (hfeeds : ∀ text ∈ textsOf body, FeedsOnly text.toList)
    (hsolid : ∀ member ∈ body, member.RendersSolid) :
    ∃ texts whole, renderAll body = .ok texts ∧
      (scope name exported keyword body).render = .ok whole ∧
      whole.toList = (openingText name exported keyword).toList ++
        '\n' :: (unlines ((blockLines texts).map indentLine) ++ ['}']) := by
  obtain ⟨texts, htexts⟩ := exists_codes fun member hmember => (hsolid member hmember).imp
    fun _ h => h.1
  refine ⟨texts, _, htexts, by rw [render, htexts]; rfl,
    toList_scopeText ?_ ?_ name exported keyword⟩
  · intro text htext
    obtain ⟨member, hmember, hrender⟩ := exists_member_of_mem htexts htext
    exact feedsOnly_render (forall_texts_of_mem hfeeds hmember) hrender
  · intro text htext
    obtain ⟨member, hmember, hrender⟩ := exists_member_of_mem htexts htext
    obtain ⟨own, hown, hsolid⟩ := hsolid member hmember
    rw [hrender] at hown
    cases hown
    exact hsolid

/-- Lines in a member of a namespace are moved one step. -/
theorem infix_feedLines_scope {texts : List String} {text : String} (htext : text ∈ texts)
    (opening : List Char) {lines : List (List Char)} (hlines : lines <:+: feedLines text.toList) :
    lines.map indentLine <:+: feedLines
      (opening ++ '\n' :: (unlines ((blockLines texts).map indentLine) ++ ['}'])) := by
  have hmoved : ∀ line ∈ (blockLines texts).map indentLine, '\n' ∉ line := by
    intro line hline
    obtain ⟨origin, horigin, rfl⟩ := List.mem_map.1 hline
    have hfeed := feed_not_mem_of_mem_blockLines horigin
    rw [indentLine]
    split
    · exact hfeed
    · simpa using hfeed
  rw [feedLines_append_feed, feedLines_unlines_append hmoved]
  have hblock := (hlines.trans (infix_blockLines htext)).map indentLine
  exact hblock.trans ((List.prefix_append _ _).isInfix.trans (List.suffix_append _ _).isInfix)

/-- The lines of a declaration stand in the code of one around it, moved to the right. -/
theorem NestedAt.infix_feedLines {inner outer : Declaration} {depth : Nat}
    (h : NestedAt inner depth outer) (hfeeds : ∀ text ∈ outer.texts, FeedsOnly text.toList)
    (hsolid : ∀ member ∈ outer.nested, member.RendersSolid) :
    ∃ text whole, inner.render = .ok text ∧ outer.render = .ok whole ∧
      (feedLines text.toList).map (indentBy (2 * depth)) <:+: feedLines whole.toList := by
  induction h with
  | self =>
    obtain ⟨text, htext, -⟩ := hsolid inner (mem_nested_self inner)
    have hsame : (feedLines text.toList).map (indentBy (2 * 0)) = feedLines text.toList :=
      List.map_id'' (fun line => by cases line <;> rfl) _
    exact ⟨text, text, htext, htext, by rw [hsame]⟩
  | @inside depth name keyword exported body member hmember h ih =>
    rw [texts, List.forall_mem_cons, List.forall_mem_cons] at hfeeds
    rw [nested, List.forall_mem_cons] at hsolid
    have hbody : ∀ member ∈ body, ∀ inner ∈ member.nested, inner.RendersSolid :=
      fun member hmember inner hinner => hsolid.2 inner (mem_nestedOf.2 ⟨member, hmember, hinner⟩)
    obtain ⟨text, block, htext, hblock, hlines⟩ :=
      ih (forall_texts_of_mem hfeeds.2.2 hmember) (hbody member hmember)
    obtain ⟨texts, whole, htexts, hwhole, hchars⟩ := @exists_render_scope name keyword exported body
      hfeeds.2.2 fun member hmember => hbody member hmember member (mem_nested_self member)
    obtain ⟨own, hown, hrender⟩ := exists_text_of_mem htexts hmember
    rw [hblock] at hrender
    cases hrender
    refine ⟨text, whole, htext, hwhole, ?_⟩
    have hmoved := infix_feedLines_scope hown (openingText name exported keyword).toList hlines
    rw [← hchars, List.map_map] at hmoved
    exact (List.map_congr_left fun line _ => indentLine_indentBy depth line) ▸ hmoved

/-- The code of a namespace ends in its brace. -/
theorem rendersSolid_scope {name keyword : String} {exported : Bool} {body : List Declaration}
    (hfeeds : ∀ text ∈ textsOf body, FeedsOnly text.toList)
    (hsolid : ∀ member ∈ body, member.RendersSolid) :
    (scope name exported keyword body).RendersSolid := by
  obtain ⟨texts, whole, -, hwhole, hchars⟩ := exists_render_scope hfeeds hsolid
  have hend : whole.toList.getLast? = some '}' := by
    rw [hchars, ← List.cons_append, ← List.append_assoc, List.getLast?_concat]
  refine ⟨whole, hwhole, ?_, by rw [hend]; decide⟩
  rintro rfl
  cases hend

/-- A namespace only indents. Its code is the opening line, the lines of its members moved by two
blanks with empty lines between the members, and a brace. The lines of a declaration inside of so
and so many namespaces stand together in it, each but the empty ones moved by two blanks for every
namespace, and moved back they are its own code again. -/
theorem scope_only_indents {name keyword : String} {exported : Bool} {body : List Declaration}
    (hfeeds : ∀ text ∈ (scope name exported keyword body).texts, FeedsOnly text.toList)
    (hsolid : ∀ member ∈ nestedOf body, member.RendersSolid) :
    ∃ texts whole, renderAll body = .ok texts ∧
      (scope name exported keyword body).render = .ok whole ∧
      whole.toList = (openingText name exported keyword).toList ++
        '\n' :: (unlines ((blockLines texts).map indentLine) ++ ['}']) ∧
      ∀ inner depth, NestedAt inner depth (scope name exported keyword body) →
        ∃ text, inner.render = .ok text ∧
          (feedLines text.toList).map (indentBy (2 * depth)) <:+: feedLines whole.toList ∧
          ['\n'].intercalate (((feedLines text.toList).map (indentBy (2 * depth))).map
            (List.drop (2 * depth))) = text.toList := by
  have hbody : ∀ text ∈ textsOf body, FeedsOnly text.toList := by
    rw [texts, List.forall_mem_cons, List.forall_mem_cons] at hfeeds
    exact hfeeds.2.2
  have hmembers : ∀ member ∈ body, member.RendersSolid := fun member hmember =>
    hsolid member (mem_nestedOf.2 ⟨member, hmember, mem_nested_self member⟩)
  obtain ⟨texts, whole, htexts, hwhole, hchars⟩ :=
    @exists_render_scope name keyword exported body hbody hmembers
  refine ⟨texts, whole, htexts, hwhole, hchars, ?_⟩
  intro inner depth hnested
  obtain ⟨text, whole', htext, hwhole', hlines⟩ := hnested.infix_feedLines hfeeds (by
    rw [nested, List.forall_mem_cons]
    exact ⟨rendersSolid_scope hbody hmembers, hsolid⟩)
  rw [hwhole] at hwhole'
  cases hwhole'
  have hback : ((feedLines text.toList).map (indentBy (2 * depth))).map (List.drop (2 * depth)) =
      feedLines text.toList := by
    rw [List.map_map]
    exact List.map_id'' (fun line => drop_indentBy (2 * depth) line) _
  exact ⟨text, htext, hlines, by rw [hback, intercalate_feedLines]⟩

/-- `type A = { a: string }`, as it is written inside of namespaces. -/
def sampleSchema : Declaration :=
  .schema "A" true (.construct "Object" [.object [("a", .constant "String")]]) []

/-- Namespaces inside of each other, with an enumeration and a statement over several lines. -/
def sampleBlock : List Declaration :=
  [.scope "Inner" true "namespace" [sampleSchema, .enumeration "E" false ["X", "Y"]],
    .verbatim "function f() \x7b\n\n  return 1\n\x7d", .scope "Empty" false "module" []]

theorem scope_only_indents_sampleBlock :
    (∀ text ∈ (scope "Outer" false "namespace" sampleBlock).texts, FeedsOnly text.toList) ∧
      (∀ member ∈ nestedOf sampleBlock, member.RendersSolid) ∧
      ∃ whole text, (scope "Outer" false "namespace" sampleBlock).render = .ok whole ∧
        sampleSchema.render = .ok text ∧
        (feedLines text.toList).map (indentBy 4) <:+: feedLines whole.toList := by
  have hfeeds : ∀ text ∈ (scope "Outer" false "namespace" sampleBlock).texts,
      FeedsOnly text.toList := by decide +kernel
  have hschema : sampleSchema.RendersSolid := by decide +kernel
  have henumeration : (enumeration "E" false ["X", "Y"]).RendersSolid := by decide +kernel
  have hverbatim : (verbatim "function f() \x7b\n\n  return 1\n\x7d").RendersSolid := by
    decide +kernel
  have hinner : ∀ member ∈ [sampleSchema, .enumeration "E" false ["X", "Y"]],
      member.RendersSolid :=
    List.forall_mem_cons.2 ⟨hschema, List.forall_mem_singleton.2 henumeration⟩
  have hsolid : ∀ member ∈ nestedOf sampleBlock, member.RendersSolid := by
    have hown : sampleSchema.nested = [sampleSchema] := rfl
    simp only [sampleBlock, nestedOf, nested, hown, List.append_nil, List.cons_append,
      List.nil_append, List.forall_mem_cons]
    exact ⟨rendersSolid_scope (by decide +kernel) hinner, hschema, henumeration, hverbatim,
      rendersSolid_scope (by decide) (by simp), by simp⟩
  obtain ⟨_, whole, _, hwhole, _, hshown⟩ := scope_only_indents hfeeds hsolid
  obtain ⟨text, htext, hlines, _⟩ := hshown sampleSchema 2
    (.inside List.mem_cons_self (.inside List.mem_cons_self .self))
  exact ⟨hfeeds, hsolid, whole, text, hwhole, htext, hlines⟩

end Declaration

end Schemata

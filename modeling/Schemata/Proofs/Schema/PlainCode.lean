import Schemata.Proofs.Schema.Nesting
import Schemata.Proofs.Text.Lines

/-!
# Code without schemas

Where nothing is declared but namespaces and statements passed through, the code is made of their
texts, opening and closing lines and blank lines. So a word of the schema vocabulary can only stand
in a text that was passed through, or in the opening line of a namespace that has it in its name.
-/

namespace Schemata

open Text

def openingText (name : String) (exported : Bool) (keyword : String) : String :=
  exportWord exported ++ keyword ++ " " ++ name ++ " \x7b"

/-- The lines of code without schemas. -/
inductive PlainLine (declarations : List Declaration) : String → Prop where
  | blank : PlainLine declarations ""
  | closing : PlainLine declarations "\x7d"
  | opening {name keyword line : String} {exported : Bool} {body : List Declaration}
      (h : .scope name exported keyword body ∈ Declaration.nestedOf declarations)
      (hline : line ∈ lineTexts (openingText name exported keyword)) : PlainLine declarations line
  | verbatim {text line : String} (h : .verbatim text ∈ Declaration.nestedOf declarations)
      (hline : line ∈ lineTexts text) : PlainLine declarations line
  | indented {line : String} (h : PlainLine declarations line) :
      PlainLine declarations ("  " ++ line)

/-- All lines of the text are plain. -/
def Plain (declarations : List Declaration) (text : String) : Prop :=
  ∀ line ∈ lineTexts text, PlainLine declarations line

section Plain

variable {declarations : List Declaration}

theorem plain_empty : Plain declarations "" := by
  intro line hline
  cases hline

theorem PlainLine.plain {line : String} (h : PlainLine declarations line)
    (hunbroken : Unbroken line.toList) : Plain declarations line := by
  intro other hother
  rw [lineTexts_of_unbroken hunbroken other hother]
  exact h

theorem Plain.feed {front back : String} (hfront : Plain declarations front)
    (hback : Plain declarations back) : Plain declarations (front ++ "\n" ++ back) := by
  intro line hline
  rcases mem_lineTexts_append_feed hline with rfl | hline | hline
  · exact .blank
  · exact hfront line hline
  · exact hback line hline

theorem plain_join {separator : String}
    (hseparator : ∀ front back, Plain declarations front → Plain declarations back →
      Plain declarations (front ++ separator ++ back))
    {texts : List String} (h : ∀ text ∈ texts, Plain declarations text) :
    Plain declarations (Text.join separator texts) := by
  induction texts with
  | nil => exact plain_empty
  | cons text rest ih =>
    have htext := h text List.mem_cons_self
    have hrest := ih fun other hother => h other (List.mem_cons_of_mem _ hother)
    cases rest with
    | nil => simpa [Text.join] using htext
    | cons next rest =>
      rw [Text.join, String.intercalate_cons_cons]
      exact hseparator _ _ htext hrest

theorem Plain.feeds {front back : String} (hfront : Plain declarations front)
    (hback : Plain declarations back) : Plain declarations (front ++ "\n\n" ++ back) := by
  have hsplit : front ++ "\n\n" ++ back = front ++ "\n" ++ ("" ++ "\n" ++ back) := by
    rw [← String.toList_inj]
    simp [String.toList_append]
  rw [hsplit]
  exact hfront.feed (plain_empty.feed hback)

theorem Plain.indentLines {text : String} (h : Plain declarations text) :
    Plain declarations (indentLines text) := by
  refine plain_join (fun _ _ => Plain.feed) fun line hline => ?_
  obtain ⟨origin, horigin, rfl⟩ := List.mem_map.1 hline
  have hunbroken := unbroken_of_mem_lineTexts horigin
  split
  · exact (h origin horigin).plain hunbroken
  · refine (h origin horigin).indented.plain ?_
    rw [String.toList_append, unbroken_append]
    exact ⟨by decide, hunbroken⟩

theorem Plain.scope {name keyword body : String} {exported : Bool} {inside : List Declaration}
    (h : .scope name exported keyword inside ∈ Declaration.nestedOf declarations)
    (hbody : Plain declarations body) :
    Plain declarations (scopeText name exported keyword body) := by
  have hopening : Plain declarations (openingText name exported keyword) :=
    fun line hline => .opening h hline
  have hclosing : Plain declarations "\x7d" := PlainLine.closing.plain (by decide)
  have hsplit : scopeText name exported keyword body = openingText name exported keyword ++ "\n" ++
      (if Schemata.indentLines body == "" then "\x7d"
        else Schemata.indentLines body ++ "\n" ++ "\x7d") := by
    rw [← String.toList_inj, scopeText, openingText]
    split <;> simp [String.toList_append]
  rw [hsplit]
  refine hopening.feed ?_
  split
  · exact hclosing
  · exact hbody.indentLines.feed hclosing

end Plain

namespace Declaration

/-- A namespace, or a statement passed through. -/
def isPlain : Declaration → Bool
  | .scope _ _ _ _ | .verbatim _ => true
  | _ => false

mutual

theorem plain_render {declarations : List Declaration} :
    (declaration : Declaration) → declaration.nested ⊆ nestedOf declarations →
      (∀ inner ∈ declaration.nested, inner.isPlain = true) →
      ∀ text, declaration.render = .ok text → Plain declarations text
  | .scope name exported keyword body, hmem, hplain, text, h => by
    rw [nested, List.cons_subset] at hmem
    rw [nested, List.forall_mem_cons] at hplain
    rw [render] at h
    cases htexts : renderAll body with
    | error cause =>
      rw [htexts] at h
      cases h
    | ok texts =>
      rw [htexts] at h
      cases h
      exact .scope hmem.1 (plain_join (fun _ _ => Plain.feeds)
        (plain_renderAll body hmem.2 hplain.2 texts htexts))
  | .verbatim text, hmem, _, _, h => by
    cases h
    exact fun line hline => .verbatim (hmem (mem_nested_self _)) hline
  | .schema _ _ _ _, _, hplain, _, _ | .enumeration _ _ _, _, hplain, _, _
  | .bare, _, hplain, _, _ => by
    cases hplain _ (mem_nested_self _)

theorem plain_renderAll {declarations : List Declaration} :
    (body : List Declaration) → nestedOf body ⊆ nestedOf declarations →
      (∀ inner ∈ nestedOf body, inner.isPlain = true) →
      ∀ texts, renderAll body = .ok texts → ∀ text ∈ texts, Plain declarations text
  | [], _, _, texts, h => by
    cases h
    simp
  | declaration :: rest, hmem, hplain, texts, h => by
    rw [nestedOf, List.append_subset] at hmem
    rw [nestedOf, List.forall_mem_append] at hplain
    rw [renderAll] at h
    cases htext : render declaration with
    | error cause =>
      rw [htext] at h
      cases h
    | ok text =>
      cases hrest : renderAll rest with
      | error cause =>
        rw [htext, hrest] at h
        cases h
      | ok more =>
        rw [htext, hrest] at h
        cases h
        exact List.forall_mem_cons.2 ⟨plain_render declaration hmem.1 hplain.1 text htext,
          plain_renderAll rest hmem.2 hplain.2 more hrest⟩

end

end Declaration

/-! ### The vocabulary -/

/-- What schema code is recognised by. -/
def vocabulary : List String := ["Type.", "Static<", "extends TSchema"]

/-- No occurrence of the word begins in the characters, whatever follows them. -/
def avoids (word : List Char) : List Char → Bool
  | [] => true
  | c :: rest =>
    !word.isPrefixOf (c :: rest) && !(c :: rest).isPrefixOf word && avoids word rest

theorem infix_of_avoids {word front text : List Char} (h : avoids word front = true)
    (hword : word <:+: front ++ text) : word <:+: text := by
  induction front with
  | nil => exact hword
  | cons c rest ih =>
    simp only [avoids, Bool.and_eq_true, Bool.not_eq_true'] at h
    obtain ⟨⟨hinside, hacross⟩, hrest⟩ := h
    rw [List.cons_append, List.infix_cons_iff, ← List.cons_append] at hword
    rcases hword with hstart | hword
    · -- it would end inside these characters, or run past them
      rcases List.prefix_or_prefix_of_prefix hstart (List.prefix_append _ text) with hfit | hfit
      · rw [List.isPrefixOf_iff_prefix.2 hfit] at hinside
        cases hinside
      · rw [List.isPrefixOf_iff_prefix.2 hfit] at hacross
        cases hacross
    · exact ih hrest hword

theorem infix_of_avoids_reverse {word text back : List Char}
    (h : avoids word.reverse back.reverse = true) (hword : word <:+: text ++ back) :
    word <:+: text := by
  rw [← List.reverse_infix, List.reverse_append] at hword
  exact List.reverse_infix.1 (infix_of_avoids h hword)

theorem infix_name_of_openingText {name keyword word : String} {exported : Bool}
    (hkeyword : keyword ∈ ["namespace", "module"]) (hword : word ∈ vocabulary)
    (h : word.toList <:+: (openingText name exported keyword).toList) :
    word.toList <:+: name.toList := by
  have hfront : ∀ keyword ∈ ["namespace", "module"], ∀ word ∈ vocabulary, ∀ exported : Bool,
      avoids word.toList (exportWord exported ++ keyword ++ " ").toList = true := by decide
  have hback : ∀ word ∈ vocabulary, avoids word.toList.reverse " \x7b".toList.reverse = true := by
    decide
  rw [openingText, String.toList_append, String.toList_append] at h
  exact infix_of_avoids (hfront keyword hkeyword word hword exported)
    (infix_of_avoids_reverse (hback word hword) h)

/-- Where a word can stand without a schema around it. -/
inductive StandsInCopy (declarations : List Declaration) (word line : String) : Prop where
  | verbatim {depth : Nat} {text own : String}
      (hmem : .verbatim text ∈ Declaration.nestedOf declarations) (hown : own ∈ lineTexts text)
      (hline : line = indentation depth ++ own) : StandsInCopy declarations word line
  /-- In the line that opens a namespace, and then in the name of this very namespace. -/
  | opening {depth : Nat} {name keyword own : String} {exported : Bool} {body : List Declaration}
      (hmem : .scope name exported keyword body ∈ Declaration.nestedOf declarations)
      (hown : own ∈ lineTexts (openingText name exported keyword))
      (hname : word.toList <:+: name.toList)
      (hline : line = indentation depth ++ own) : StandsInCopy declarations word line

theorem eq_indentation_zero_append (line : String) : line = indentation 0 ++ line := by
  rw [← String.toList_inj]
  simp [indentation]

theorem indentation_succ_append (depth : Nat) (line : String) :
    "  " ++ (indentation depth ++ line) = indentation (depth + 1 : Nat) ++ line := by
  rw [← String.toList_inj]
  simp [indentation, String.toList_append, Nat.mul_add, List.replicate_succ]

theorem PlainLine.standsInCopy {declarations : List Declaration} {line word : String}
    (h : PlainLine declarations line)
    (hkeywords : ∀ name exported keyword body,
      .scope name exported keyword body ∈ Declaration.nestedOf declarations →
        keyword ∈ ["namespace", "module"])
    (hword : word ∈ vocabulary) (hoccurs : word.toList <:+: line.toList) :
    StandsInCopy declarations word line := by
  induction h with
  | blank =>
    have hnone : ∀ word ∈ vocabulary, ¬ word.toList <:+: "".toList := by decide
    exact absurd hoccurs (hnone word hword)
  | closing =>
    have hnone : ∀ word ∈ vocabulary, ¬ word.toList <:+: "\x7d".toList := by decide
    exact absurd hoccurs (hnone word hword)
  | opening hmem hown =>
    have hname := infix_name_of_openingText (hkeywords _ _ _ _ hmem) hword
      (hoccurs.trans (infix_of_mem_lineTexts hown))
    exact .opening hmem hown hname (eq_indentation_zero_append _)
  | verbatim hmem hown => exact .verbatim hmem hown (eq_indentation_zero_append _)
  | indented _ ih =>
    have havoids : ∀ word ∈ vocabulary, avoids word.toList "  ".toList = true := by decide
    rw [String.toList_append] at hoccurs
    cases ih (infix_of_avoids (havoids word hword) hoccurs) with
    | verbatim hmem hown hline =>
      rw [hline]
      exact .verbatim hmem hown (indentation_succ_append _ _)
    | opening hmem hown hname hline =>
      rw [hline]
      exact .opening hmem hown hname (indentation_succ_append _ _)

end Schemata

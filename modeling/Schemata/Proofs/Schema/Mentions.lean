import Schemata.Proofs.Schema.Attachment
import Schemata.Proofs.Schema.NestedBlocks

/-!
# Names in rendered code

Each name that an expression refers to is written out in its code, qualified or not, and stands
there by itself: behind a mark, and before another one or the end. What is put around the code of a
part begins and ends with marks, so this carries from the part to the whole, and from there through
the namespaces around a declaration to the code of the file.
-/

namespace Schemata

namespace Text

/-- A word stands by itself in a text: it begins the text or a mark stands before it, and what
follows, blanks left aside, does not go on with it. -/
def StandsApart (word text : List Char) : Prop :=
  ∃ front back, text = front ++ (word ++ back) ∧
    (∀ c ∈ front.getLast?, isNameChar c = false ∧ isLineBreak c = false) ∧
    ∀ c ∈ (dropBlanks back).head?, isNameChar c = false

theorem StandsApart.enclose {word text : List Char} (h : StandsApart word text)
    (opening closing : List Char)
    (hopening : ∀ c ∈ opening.getLast?, isNameChar c = false ∧ isLineBreak c = false)
    (hclosing : ∀ c ∈ (dropBlanks closing).head?, isNameChar c = false) :
    StandsApart word (opening ++ (text ++ closing)) := by
  obtain ⟨front, back, rfl, hfront, hback⟩ := h
  refine ⟨opening ++ front, back ++ closing, by simp only [List.append_assoc], ?_, ?_⟩
  · cases front with
    | nil => simpa using hopening
    | cons c front => rwa [List.getLast?_append_of_ne_nil _ (List.cons_ne_nil c front)]
  · rw [dropBlanks, List.dropWhile_append]
    split
    · exact hclosing
    · rename_i hrest
      rw [List.isEmpty_iff] at hrest
      rwa [List.head?_append_of_ne_nil _ hrest]

/-- One of several texts between marks, with commas between them. -/
theorem StandsApart.intercalate {word text : List Char} {texts : List (List Char)}
    (h : StandsApart word text) (hmem : text ∈ texts) (opening closing : List Char)
    (hopening : ∀ c ∈ opening.getLast?, isNameChar c = false ∧ isLineBreak c = false)
    (hclosing : ∀ c ∈ (dropBlanks closing).head?, isNameChar c = false) :
    StandsApart word (opening ++ (", ".toList.intercalate texts ++ closing)) := by
  obtain ⟨before, after, hparts, hbefore, hafter⟩ := exists_intercalate_of_mem ", ".toList hmem
  have hall := h.enclose (opening ++ before) (after ++ closing) ?_ ?_
  · rw [hparts]
    simpa only [List.append_assoc] using hall
  · rcases hbefore with rfl | ⟨more, rfl⟩
    · rwa [List.append_nil]
    · rw [← List.append_assoc, List.getLast?_append_of_ne_nil _ (by simp)]
      rintro c ⟨⟩
      decide
  · rcases hafter with rfl | ⟨more, rfl⟩
    · exact hclosing
    · rintro c ⟨⟩
      decide

end Text

open Text

namespace Expr

/-- A field line goes on behind its first blank with the name of the field and the value. -/
theorem exists_fieldLine {level : Int} (hlevel : 0 ≤ level) (name value : String) :
    ∃ opening, (fieldLine level name value).toList = ' ' :: (opening ++ value.toList) ∧
      opening.getLast? = some ' ' := by
  obtain ⟨depth, rfl⟩ := Int.eq_ofNat_of_zero_le hlevel
  have hindent : (indentation (depth + 1)).toList = ' ' :: List.replicate (2 * depth + 1) ' ' := by
    rw [toList_indentation, ← List.replicate_succ]
    congr 1
  rw [fieldLine, String.toList_append, hindent]
  split
  · exact ⟨_, rfl, List.getLast?_replicate⟩
  · refine ⟨List.replicate (2 * depth + 1) ' ' ++ (name ++ ": ").toList, ?_, ?_⟩
    · simp [String.toList_append]
    · rw [String.toList_append, ← List.append_assoc, List.getLast?_append_of_ne_nil _ (by simp)]
      rfl

/-- One of the arguments between brackets. -/
theorem standsApart_arguments {word : List Char} {text : String} {texts : List String}
    (h : StandsApart word text.toList) (hmem : text ∈ texts) (head : String)
    (opening closing : Char) (hopening : isNameChar opening = false ∧ isLineBreak opening = false)
    (hclosing : isBlank closing = false ∧ isNameChar closing = false) :
    StandsApart word (head.toList ++
      opening :: (", ".toList.intercalate (texts.map String.toList) ++ [closing])) := by
  have hall := h.intercalate (List.mem_map_of_mem hmem) (head.toList ++ [opening]) [closing] ?_ ?_
  · simpa using hall
  · rw [List.getLast?_concat]
    rintro c ⟨⟩
    exact hopening
  · rw [dropBlanks_of_head (by simpa using hclosing.1)]
    simpa using hclosing.2

/-- One of the fields, behind the first blank of its line. -/
theorem standsApart_object {word text : List Char} {line : String} {lines : List String}
    (h : StandsApart word text) (hline : line ∈ lines) (hfield : line.toList = ' ' :: text)
    (level : Int) :
    StandsApart word
      ("\x7b\n" ++ ",\n".intercalate lines ++ "\n" ++ indentation level ++ "\x7d").toList := by
  obtain ⟨before, after, hparts, -, hafter⟩ :=
    exists_intercalate_of_mem [',', '\n'] (List.mem_map_of_mem (f := String.toList) hline)
  have hall := h.enclose ("\x7b\n".toList ++ before ++ [' '])
    (after ++ '\n' :: ((indentation level).toList ++ ['}'])) ?_ ?_
  · rw [hfield] at hparts
    simpa [String.toList_append, String.toList_intercalate, hparts] using hall
  · rw [List.getLast?_concat]
    rintro c ⟨⟩
    decide
  · rcases hafter with rfl | ⟨more, rfl⟩
    · have hblanks : ∀ c ∈ '\n' :: (indentation level).toList, isBlank c = true := by
        rw [toList_indentation]
        exact List.forall_mem_cons.2 ⟨by decide, fun c hc => by
          rw [(List.mem_replicate.1 hc).2]
          decide⟩
      rw [List.nil_append, ← List.cons_append, dropBlanks, List.dropWhile_append_of_pos hblanks]
      rintro c ⟨⟩
      decide
    · rintro c ⟨⟩
      decide

mutual

/-- A name that an expression refers to stands in its code. -/
theorem standsApart_render : (expr : Expr) → ∀ use ∈ expr.uses, ∀ level : Int, 0 ≤ level →
    ∀ text, expr.render level = .ok text → StandsApart use.1.toList text.toList
  | .ref name, use, huse, level, hlevel, text, htext => by
    rw [uses, List.mem_singleton] at huse
    subst huse
    rw [render] at htext
    cases htext
    exact ⟨[], [], by simp, by simp, by simp [dropBlanks]⟩
  | .apply callee args, use, huse, level, hlevel, text, htext => by
    rw [uses, List.mem_cons] at huse
    rw [render] at htext
    obtain ⟨texts, htexts, htext⟩ := bind_eq_ok_iff.1 htext
    cases htext
    rcases huse with rfl | huse
    · refine ⟨[], ("(" ++ ", ".intercalate texts ++ ")").toList, ?_, by simp, ?_⟩
      · simp [String.toList_append]
      · rw [String.toList_append, String.toList_append]
        rintro c ⟨⟩
        decide
    · obtain ⟨arg, harg, hapart⟩ := standsApart_renderAll args use huse level hlevel texts htexts
      simpa [String.toList_append, String.toList_intercalate] using
        standsApart_arguments hapart harg callee '(' ')' (by decide) (by decide)
  | .call name args options, use, huse, level, hlevel, text, htext => by
    rw [uses] at huse
    rw [render] at htext
    obtain ⟨texts, htexts, htext⟩ := bind_eq_ok_iff.1 htext
    cases htext
    obtain ⟨arg, harg, hapart⟩ := standsApart_renderAll args use huse level hlevel texts htexts
    have hmem : arg ∈ if options.isEmpty then texts else texts ++ [options.render] := by
      split
      · exact harg
      · exact List.mem_append_left _ harg
    simpa [String.toList_append, String.toList_intercalate] using
      standsApart_arguments hapart hmem ("Type." ++ name) '(' ')' (by decide) (by decide)
  | .array items, use, huse, level, hlevel, text, htext => by
    rw [uses] at huse
    rw [render] at htext
    obtain ⟨texts, htexts, htext⟩ := bind_eq_ok_iff.1 htext
    cases htext
    obtain ⟨item, hitem, hapart⟩ := standsApart_renderAll items use huse level hlevel texts htexts
    simpa [String.toList_append, String.toList_intercalate] using
      standsApart_arguments hapart hitem "" '[' ']' (by decide) (by decide)
  | .object fields, use, huse, level, hlevel, text, htext => by
    rw [uses] at huse
    rw [render] at htext
    obtain ⟨lines, hlines, htext⟩ := bind_eq_ok_iff.1 htext
    obtain ⟨line, hline, field, hfield, hapart⟩ :=
      standsApart_renderFields fields use huse level hlevel lines hlines
    have hempty : lines.isEmpty = false := by
      cases lines with
      | nil => cases hline
      | cons first rest => rfl
    rw [hempty] at htext
    cases htext
    exact standsApart_object hapart hline hfield level
  | .recursive name body, use, huse, level, hlevel, text, htext => by
    rw [uses] at huse
    obtain ⟨inner, hinner, rfl⟩ := List.mem_map.1 huse
    rw [render] at htext
    obtain ⟨code, hcode, htext⟩ := bind_eq_ok_iff.1 htext
    cases htext
    have hapart := standsApart_render body inner hinner level hlevel code hcode
    have hall := hapart.enclose ("Type.Recursive(" ++ name ++ " => ").toList [')'] ?_ ?_
    · simpa [String.toList_append] using hall
    · rw [String.toList_append, List.getLast?_append_of_ne_nil _ (by simp)]
      rintro c ⟨⟩
      decide
    · rintro c ⟨⟩
      decide
  | .raw _, use, huse, _, _, _, _
  | .absent, use, huse, _, _, _, _
  | .bare, use, huse, _, _, _, _ => by
    simp [uses] at huse

theorem standsApart_renderAll : (exprs : List Expr) → ∀ use ∈ usesOf exprs, ∀ level : Int,
    0 ≤ level → ∀ texts, renderAll level exprs = .ok texts →
      ∃ text ∈ texts, StandsApart use.1.toList text.toList
  | [], use, huse, _, _, _, _ => by simp [usesOf] at huse
  | expr :: rest, use, huse, level, hlevel, texts, htexts => by
    rw [usesOf, List.mem_append] at huse
    rw [renderAll] at htexts
    obtain ⟨text, htext, htexts⟩ := bind_eq_ok_iff.1 htexts
    obtain ⟨more, hmore, htexts⟩ := bind_eq_ok_iff.1 htexts
    cases htexts
    rcases huse with huse | huse
    · exact ⟨text, List.mem_cons_self, standsApart_render expr use huse level hlevel text htext⟩
    · obtain ⟨other, hother, hapart⟩ := standsApart_renderAll rest use huse level hlevel more hmore
      exact ⟨other, List.mem_cons_of_mem _ hother, hapart⟩

theorem standsApart_renderFields : (fields : List (String × Expr)) → ∀ use ∈ usesOfFields fields,
    ∀ level : Int, 0 ≤ level → ∀ lines, renderFields level fields = .ok lines →
      ∃ line ∈ lines, ∃ text, line.toList = ' ' :: text ∧ StandsApart use.1.toList text
  | [], use, huse, _, _, _, _ => by simp [usesOfFields] at huse
  | (name, value) :: rest, use, huse, level, hlevel, lines, hlines => by
    rw [usesOfFields, List.mem_append] at huse
    rw [renderFields] at hlines
    obtain ⟨text, htext, hlines⟩ := bind_eq_ok_iff.1 hlines
    obtain ⟨more, hmore, hlines⟩ := bind_eq_ok_iff.1 hlines
    cases hlines
    rcases huse with huse | huse
    · have hapart := standsApart_render value use huse (level + 1) (by omega) text htext
      obtain ⟨opening, hline, hlast⟩ := exists_fieldLine hlevel name text
      refine ⟨_, List.mem_cons_self, _, hline, ?_⟩
      have hfield := hapart.enclose opening [] ?_ (by simp [dropBlanks])
      · rwa [List.append_nil] at hfield
      · rw [hlast]
        rintro c ⟨⟩
        decide
    · obtain ⟨line, hline, hapart⟩ := standsApart_renderFields rest use huse level hlevel more hmore
      exact ⟨line, List.mem_cons_of_mem _ hline, hapart⟩

end

end Expr

def Declaration.RefersTo (name : String) : Declaration → Prop
  | .schema _ _ body _ => ∃ use ∈ body.uses, use.1 = name
  | _ => False

theorem exists_valueLines_append (name : String) (exported : Bool) (parameters : List String)
    (body : String) :
    ∃ opening, (valueLines name exported parameters body).toList = opening ++ body.toList ∧
      opening.getLast? = some ' ' := by
  rw [valueLines]
  split
  · refine ⟨(exportWord exported ++ "const " ++ name ++ " = ").toList, by simp, ?_⟩
    rw [String.toList_append, List.getLast?_append_of_ne_nil _ (by simp)]
    rfl
  · refine ⟨(exportWord exported ++ "const " ++ name ++ " = " ++ ("<" ++
      ", ".intercalate (parameters.map (· ++ " extends TSchema")) ++ ">(" ++
        ", ".intercalate (parameters.map fun p => p ++ ": " ++ p) ++ ") => ")).toList,
      by simp [String.toList_append], ?_⟩
    rw [← String.append_assoc, String.toList_append, List.getLast?_append_of_ne_nil _ (by simp)]
    rfl

theorem Declaration.RefersTo.standsApart {declaration : Declaration} {name text : String}
    (h : declaration.RefersTo name) (htext : declaration.render = .ok text) :
    StandsApart name.toList text.toList := by
  cases declaration with
  | schema own exported body parameters =>
    obtain ⟨use, huse, rfl⟩ := h
    rw [render] at htext
    obtain ⟨code, hcode, htext⟩ := bind_eq_ok_iff.1 htext
    cases htext
    obtain ⟨opening, hvalue, hlast⟩ := exists_valueLines_append own exported parameters code
    have hapart := Expr.standsApart_render body use huse 0 (Int.le_refl 0) code hcode
    have hall := hapart.enclose ((staticLine own exported parameters ++ "\n").toList ++ opening) []
      ?_ (by simp [dropBlanks])
    · simpa [String.toList_append, hvalue] using hall
    · have hne : opening ≠ [] := by
        rintro rfl
        cases hlast
      rw [List.getLast?_append_of_ne_nil _ hne, hlast]
      rintro c ⟨⟩
      decide
  | enumeration _ _ _ => cases h
  | scope _ _ _ _ => cases h
  | verbatim _ => cases h
  | bare => cases h

/-- White space at line ends does not come between a mark and the word behind it. -/
theorem Text.Relined.isNameChar_last {before before' gap front : List Char}
    (h : Relined before before')
    (hbefore : ∀ c ∈ before.getLast?, isNameChar c = false ∧ isLineBreak c = false)
    (hgap : ∀ c ∈ gap, isBlank c = true) (hfront : front = [] ∨ ∃ rest, front = rest ++ ['\n']) :
    ∀ c ∈ (front ++ (gap ++ before')).getLast?, isNameChar c = false := by
  rcases List.eq_nil_or_concat before with rfl | ⟨init, mark, rfl⟩
  · cases h
    rw [List.append_nil]
    intro c hc
    by_cases hempty : gap = []
    · subst hempty
      rcases hfront with rfl | ⟨rest, rfl⟩
      · cases hc
      · rw [List.append_nil, List.getLast?_concat] at hc
        cases hc
        decide
    · rw [List.getLast?_append_of_ne_nil _ hempty] at hc
      exact isNameChar_eq_false_of_isBlank (hgap c (List.mem_of_getLast? hc))
  · rw [List.concat_eq_append] at hbefore h
    obtain ⟨hname, hbreak⟩ := hbefore mark (by simp)
    obtain ⟨init', rest, rfl, -, hrest⟩ := h.exists_append
    rw [hrest.eq_of_unbroken (by simpa using hbreak), ← List.append_assoc, ← List.append_assoc,
      List.getLast?_concat]
    rintro c ⟨⟩
    exact hname

theorem Text.Relined.isNameChar_head {after after' back : List Char} (h : Relined after after')
    (hafter : ∀ c ∈ (dropBlanks after).head?, isNameChar c = false)
    (hback : back = [] ∨ ∃ rest, back = '\n' :: rest) :
    ∀ c ∈ (after' ++ back).head?, isNameChar c = false := by
  cases hrest : after' with
  | nil =>
    rcases hback with rfl | ⟨rest, rfl⟩
    · simp
    · rintro c ⟨⟩
      decide
  | cons c rest =>
    rintro d ⟨⟩
    cases hblank : isBlank c with
    | true => exact isNameChar_eq_false_of_isBlank hblank
    | false =>
      have hhead := h.head_dropBlanks
      rw [hrest, dropBlanks_of_head (by simpa using hblank)] at hhead
      exact hafter c hhead.symm

/-- A word that stands by itself in the code of a declaration does so in the code of the file. -/
theorem Module.exists_apart {module : Module} {library code : String}
    (hcode : module.render library = .ok code) {declaration : Declaration}
    (hdeclaration : declaration ∈ Declaration.nestedOf module.declarations) {text : String}
    (htext : declaration.render = .ok text) {word : List Char} (hword : Unbroken word)
    (hne : word ≠ []) (h : StandsApart word text.toList) :
    ∃ front back, code.toList = front ++ (word ++ back) ∧
      (∀ c ∈ front.getLast?, isNameChar c = false) ∧ ∀ c ∈ back.head?, isNameChar c = false := by
  obtain ⟨before, after, hparts, hbefore, hafter⟩ := h
  have hfilled : Filled text.toList := by
    obtain ⟨c, rest, rfl⟩ := List.exists_cons_of_ne_nil hne
    exact ⟨c, by simp [hparts], hword c List.mem_cons_self⟩
  obtain ⟨gap, shown, hgap, hshown, front, back, hwhole, hfront, hback⟩ :=
    module.shownIn_render hcode hdeclaration htext hfilled
  rw [hparts] at hshown
  obtain ⟨before', tail, rfl, hbefore', htail⟩ := hshown.exists_append
  obtain ⟨after', rfl, hafter'⟩ := htail.exists_of_unbroken hword
  exact ⟨front ++ (gap ++ before'), after' ++ back, by rw [hwhole]; simp,
    hbefore'.isNameChar_last hbefore hgap hfront, hafter'.isNameChar_head hafter hback⟩

end Schemata

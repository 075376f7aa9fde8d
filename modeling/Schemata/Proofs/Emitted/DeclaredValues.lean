import Schemata.Proofs.Emitted.Heads
import Schemata.Proofs.Emitted.StaticForms

/-!
# Declared values

The declared values of a text are looked for from left to right, and a declaration that is found may
go on over several lines. Still no line on which a declaration is read is passed over: what is found
before it ends before it, or goes on to its equals sign and then declares the same name.
-/

namespace Schemata.Emitted

open Text

theorem not_mem_of_blanks {chars : List Char} (h : ∀ c ∈ chars, isBlank c = true) : '=' ∉ chars :=
  fun hmem => absurd (h '=' hmem) (by decide)

theorem exists_of_afterKeyword? {keyword : String} (hkeyword : '=' ∉ keyword.toList)
    {chars rest : List Char} (h : afterKeyword? keyword chars = some rest) :
    ∃ front, chars = front ++ rest ∧ '=' ∉ front ∧ ∀ c ∈ front.getLast?, isBlank c = true := by
  rw [afterKeyword?] at h
  obtain ⟨found, hfound, hblanks⟩ := Option.bind_eq_some_iff.1 h
  obtain ⟨gap, hgap, rfl, -⟩ := afterBlanks?_eq_some_iff.1 hblanks
  rw [after?_eq_some_iff] at hfound
  have hindent : '=' ∉ chars.takeWhile (fun c => c == ' ' || c == '\t') := by
    intro hmem
    simpa using List.all_eq_true.1 List.all_takeWhile _ hmem
  have hlast : ∀ front : List Char, ∀ c ∈ (front ++ gap).getLast?, isBlank c = true := by
    intro front c hc
    rw [List.getLast?_append_of_ne_nil _ hgap.1] at hc
    exact hgap.2 c (List.mem_of_getLast? hc)
  have hchars :=
    List.takeWhile_append_dropWhile (p := fun c => c == ' ' || c == '\t') (l := chars)
  rcases skipExport_cases (chars.dropWhile fun c => c == ' ' || c == '\t') with
    hplain | ⟨between, hbetween, hexported⟩
  · rw [← hplain, hfound] at hchars
    rw [← List.append_assoc, ← List.append_assoc] at hchars
    refine ⟨_, hchars.symm, ?_, hlast _⟩
    simp only [List.mem_append, not_or]
    exact ⟨⟨hindent, hkeyword⟩, not_mem_of_blanks hgap.2⟩
  · rw [hexported, hfound] at hchars
    rw [← List.append_assoc, ← List.append_assoc, ← List.append_assoc, ← List.append_assoc]
      at hchars
    refine ⟨_, hchars.symm, ?_, hlast _⟩
    simp only [List.mem_append, not_or]
    exact ⟨⟨⟨⟨hindent, by decide⟩, not_mem_of_blanks hbetween.2⟩, hkeyword⟩,
      not_mem_of_blanks hgap.2⟩

structure LastWord (text word : List Char) : Prop where
  isName : IsName word
  place : ∃ front gap, text = front ++ (word ++ gap) ∧ (∀ c ∈ front.getLast?, isBlank c = true) ∧
    ∀ c ∈ gap, isBlank c = true

theorem LastWord.eq {text word : List Char} (h : LastWord text word) :
    word = ((dropBlanks text.reverse).takeWhile isNameChar).reverse := by
  obtain ⟨hname, front, gap, rfl, hfront, hgap⟩ := h
  have hback : IsName word.reverse := ⟨by simpa using hname.1, by simpa using hname.2⟩
  have hstop : ∀ c ∈ front.reverse.head?, isNameChar c = false := by
    rw [List.head?_reverse]
    exact fun c hc => isNameChar_eq_false_of_isBlank (hfront c hc)
  rw [List.reverse_append, List.reverse_append, List.append_assoc, dropBlanks,
    List.dropWhile_append_of_pos (by simpa using hgap), ← dropBlanks, dropBlanks_name hback,
    takeWhile_isNameChar hback.2 hstop, List.reverse_reverse]

theorem LastWord.append {text word front : List Char} (h : LastWord text word)
    (hfront : ∀ c ∈ front.getLast?, isBlank c = true) : LastWord (front ++ text) word := by
  obtain ⟨hname, before, gap, rfl, hbefore, hgap⟩ := h
  refine ⟨hname, front ++ before, gap, by rw [List.append_assoc], ?_, hgap⟩
  cases before with
  | nil => simpa using hfront
  | cons c before =>
    rw [List.getLast?_append_of_ne_nil _ (List.cons_ne_nil c before)]
    exact hbefore

theorem LastWord.ne_nil {text word : List Char} (h : LastWord text word) : text ≠ [] := by
  obtain ⟨hname, front, gap, rfl, -⟩ := h
  simp [hname.1]

/-- A value declaration: its name is the last word before the first equals sign. -/
theorem exists_of_valueDeclaration? {chars name tail : List Char}
    (h : valueDeclaration? chars = some (name, tail)) :
    ∃ head, chars = head ++ '=' :: tail ∧ '=' ∉ head ∧ LastWord head name := by
  rw [valueDeclaration?] at h
  obtain ⟨⟨run, rest⟩, hread, hequals⟩ := Option.bind_eq_some_iff.1 h
  obtain ⟨found, hfound, hspan⟩ := Option.bind_eq_some_iff.1 hread
  obtain ⟨front, rfl, hfront, hlast⟩ := exists_of_afterKeyword? (by decide) hfound
  obtain ⟨rfl, hname, -⟩ := spanName?_eq_some_iff.1 hspan
  obtain ⟨after, hafter, hpair⟩ := Option.bind_eq_some_iff.1 hequals
  cases hpair
  have hsplit := List.takeWhile_append_dropWhile (p := isBlank) (l := rest)
  have hgap : ∀ c ∈ rest.takeWhile isBlank, isBlank c = true :=
    List.all_eq_true.1 List.all_takeWhile
  rw [afterEquals?] at hafter
  split at hafter
  · rename_i more hmore
    cases hafter
    rw [dropBlanks] at hmore
    rw [hmore] at hsplit
    refine ⟨front ++ (name ++ rest.takeWhile isBlank), ?_, ?_, hname, front, _, rfl, hlast, hgap⟩
    · rw [List.append_assoc, List.append_assoc, hsplit]
    · simp only [List.mem_append, not_or]
      exact ⟨hfront, fun hmem => absurd (hname.2 '=' hmem) (by decide), not_mem_of_blanks hgap⟩
  · cases hafter

theorem takeWhile_mark {head : List Char} (h : '=' ∉ head) (tail : List Char) :
    (head ++ '=' :: tail).takeWhile (· != '=') = head := by
  rw [List.takeWhile_append_of_pos]
  · simp
  · rintro c hc
    rw [bne_iff_ne]
    rintro rfl
    exact h hc

/-- What is found before a line with a value declaration ends before the line, or it goes on to the
equals sign and declares the same value. -/
theorem eq_or_exists_of_valueDeclaration? {front line name tail other after : List Char}
    (hread : valueDeclaration? line = some (name, tail)) (hfront : front.getLast? = some '\n')
    (hfound : valueDeclaration? (front ++ line) = some (other, after)) :
    other = name ∨ ∃ more, after = more ++ line ∧ more.length < front.length ∧
      more.getLast? = some '\n' := by
  obtain ⟨head, rfl, hmark, hname⟩ := exists_of_valueDeclaration? hread
  obtain ⟨begin, hchars, hmark', hother⟩ := exists_of_valueDeclaration? hfound
  rcases List.append_eq_append_iff.1 hchars with ⟨more, rfl, hmore⟩ | ⟨more, rfl, hafter⟩
  · left
    obtain rfl : head = more := by
      rw [← takeWhile_mark hmark tail, hmore, takeWhile_mark]
      exact fun hmem => hmark' (List.mem_append_right _ hmem)
    have hblank : ∀ c ∈ front.getLast?, isBlank c = true := by
      rw [hfront]
      rintro c ⟨⟩
      decide
    rw [hother.eq, ← (hname.append hblank).eq]
  · right
    cases more with
    | nil =>
      obtain ⟨c, head, rfl⟩ := List.exists_cons_of_ne_nil hname.ne_nil
      rw [(List.cons.inj (show '=' :: after = c :: _ from hafter)).1] at hmark
      exact absurd List.mem_cons_self hmark
    | cons c more =>
      obtain ⟨rfl, rfl⟩ := List.cons.inj hafter
      have hne : more ≠ [] := by
        rintro rfl
        rw [List.getLast?_concat] at hfront
        exact absurd hfront (by decide)
      refine ⟨more, rfl, by simp only [List.length_append, List.length_cons]; omega, ?_⟩
      rwa [List.getLast?_append_of_ne_nil _ (List.cons_ne_nil _ _),
        List.getLast?_cons_of_ne_nil hne] at hfront

/-- Where a line begins with a value declaration, the value is among those that are found. -/
theorem mem_declaredValues {line name tail : List Char}
    (hread : valueDeclaration? line = some (name, tail)) {front : List Char} {lineStart : Bool}
    (hfront : front = [] ∧ lineStart = true ∨ front.getLast? = some '\n') :
    name ∈ declaredValues lineStart (front ++ line) := by
  induction hlength : front.length using Nat.strong_induction_on generalizing front lineStart with
  | _ length ih =>
    subst hlength
    cases front with
    | nil =>
      obtain ⟨-, rfl⟩ := hfront.resolve_right (by simp)
      obtain ⟨head, hline, -⟩ := exists_of_valueDeclaration? hread
      obtain ⟨c, rest, rfl⟩ := List.exists_cons_of_ne_nil (show line ≠ [] by rw [hline]; simp)
      rw [List.nil_append, declaredValues, if_pos rfl, hread]
      dsimp only
      split <;> simp
    | cons c front =>
      have hlast := hfront.resolve_left (by simp)
      rw [List.cons_append, declaredValues]
      cases hfound : if lineStart then valueDeclaration? (c :: (front ++ line)) else none with
      | none =>
        refine ih front.length (by simp) ?_ rfl
        cases front with
        | nil => exact Or.inl ⟨rfl, by simpa using hlast⟩
        | cons d front => exact Or.inr (by rwa [List.getLast?_cons_cons] at hlast)
      | some found =>
        obtain ⟨other, after⟩ := found
        have hvalue : valueDeclaration? ((c :: front) ++ line) = some (other, after) := by
          cases lineStart with
          | true => exact hfound
          | false => cases hfound
        obtain ⟨begin, hchars, -⟩ := exists_of_valueDeclaration? hvalue
        have hlength : after.length ≤ (front ++ line).length := by
          have hsame := congrArg List.length hchars
          simp only [List.length_cons, List.length_append] at hsame ⊢
          omega
        dsimp only
        rw [if_pos hlength, List.mem_cons]
        rcases eq_or_exists_of_valueDeclaration? hread hlast hvalue with
          rfl | ⟨more, rfl, hshort, hmore⟩
        · exact Or.inl rfl
        · exact Or.inr (ih more.length hshort (Or.inr hmore) rfl)

end Schemata.Emitted

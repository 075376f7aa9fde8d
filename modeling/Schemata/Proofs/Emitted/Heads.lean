import Schemata.Emitted.Renaming
import Schemata.Proofs.Emitted.Blocks

/-!
# Heads of blocks

The renaming looks for the lines on which declarations begin. On rendered code it finds the static
type line and the value line of every schema with their names, takes the type parameters off both,
and sees no head on any other line.
-/

namespace Schemata.Emitted

open Text

/-! ### Static types -/

theorem assignsStatic_append (before after : List Char) :
    assignsStatic (before ++ ("= Static<".toList ++ after)) = true := by
  induction before with
  | nil => rfl
  | cons c before ih => rw [List.cons_append, assignsStatic, ih, Bool.or_true]

theorem assignsStatic_staticTail (value : List Char) (parameters : List String) :
    assignsStatic (staticTail value parameters) = true := by
  rw [staticTail]
  split
  · exact assignsStatic_append [' '] _
  · have hsplit : '<' :: (boundParameters parameters ++ ("> = Static<ReturnType<typeof ".toList ++
        (value ++ '<' :: ((", ".intercalate parameters).toList ++ ">>>".toList)))) =
        ('<' :: (boundParameters parameters ++ "> ".toList)) ++ ("= Static<".toList ++
          ("ReturnType<typeof ".toList ++
            (value ++ '<' :: ((", ".intercalate parameters).toList ++ ">>>".toList)))) := by
      simp
    rw [hsplit]
    exact assignsStatic_append _ _

theorem head_staticTail (value : List Char) (parameters : List String) :
    ∀ c ∈ (staticTail value parameters).head?, isNameChar c = false := by
  rw [staticTail]
  split <;> (rintro c ⟨⟩; decide)

theorem spanName?_staticTail {name : List Char} (hname : IsName name) (exported : Bool)
    (value : List Char) (parameters : List String) :
    (afterKeyword? "type" (keywordLine exported "type" (name ++ staticTail value parameters))).bind
      spanName? = some (name, staticTail value parameters) := by
  rw [afterKeyword?_type, dropBlanks_name hname, Option.bind_some,
    spanName?_append hname (head_staticTail value parameters)]

/-- A static type line gives its name and what follows it. -/
theorem staticDeclaration?_staticLine {name : List Char} (hname : IsName name) (exported : Bool)
    (value : List Char) (parameters : List String) :
    staticDeclaration? (keywordLine exported "type" (name ++ staticTail value parameters)) =
      some (name, staticTail value parameters) := by
  rw [staticDeclaration?, spanName?_staticTail hname]
  simp [assignsStatic_staticTail]

theorem staticDeclaration?_of_none {line : List Char} (h : afterKeyword? "type" line = none) :
    staticDeclaration? line = none := by
  rw [staticDeclaration?, h]
  rfl

/-! ### Values -/

theorem valueDeclaration?_of_none {chars : List Char} (h : afterKeyword? "const" chars = none) :
    valueDeclaration? chars = none := by
  rw [valueDeclaration?, h]
  rfl

/-- A value line gives its name and what follows the equals sign. -/
theorem valueDeclaration?_valueLine {name : List Char} (hname : IsName name) (exported : Bool)
    (rest : List Char) :
    valueDeclaration? (keywordLine exported "const" (name ++ (" = ".toList ++ rest))) =
      some (name, ' ' :: rest) := by
  have hapart : ∀ c ∈ (" = ".toList ++ rest).head?, isNameChar c = false := by
    rintro c ⟨⟩
    decide
  rw [valueDeclaration?, afterKeyword?_const, dropBlanks_name hname, Option.bind_some,
    spanName?_append hname hapart]
  rfl

theorem afterKeyword?_const_type (exported : Bool) (rest : List Char) :
    afterKeyword? "const" (keywordLine exported "type" rest) = none := by
  cases exported <;> rfl

/-! ### Type parameters -/

theorem splitCommas_of_not_mem {chars : List Char} (h : ',' ∉ chars) :
    splitCommas chars = [chars] := by
  induction chars with
  | nil => rfl
  | cons c chars ih =>
    have hc : (c == ',') = false := by
      rw [beq_eq_false_iff_ne]
      rintro rfl
      exact h (by simp)
    rw [splitCommas, hc, ih fun hmem => h (by simp [hmem])]
    rfl

theorem splitCommas_append {chars : List Char} (h : ',' ∉ chars) (rest : List Char) :
    splitCommas (chars ++ ',' :: rest) = chars :: splitCommas rest := by
  induction chars with
  | nil => rfl
  | cons c chars ih =>
    have hc : (c == ',') = false := by
      rw [beq_eq_false_iff_ne]
      rintro rfl
      exact h (by simp)
    rw [List.cons_append, splitCommas, hc, ih fun hmem => h (by simp [hmem])]
    rfl

/-- The names of type parameters, given their list between the angle brackets. -/
def boundNames (chars : List Char) : List (List Char) :=
  ((splitCommas chars).map dropBlanks).filterMap fun part =>
    if part.isEmpty then none else some (part.takeWhile fun c => !isBlank c)

/-- One type parameter with its bound, blanks in front allowed. -/
theorem boundName_of_bound {parameter : List Char} (h : IsName parameter) (blanks : Nat) :
    [dropBlanks (List.replicate blanks ' ' ++ (parameter ++ " extends TSchema".toList))].filterMap
      (fun part => if part.isEmpty then none else some (part.takeWhile fun c => !isBlank c)) =
        [parameter] := by
  have hblanks : ∀ c ∈ List.replicate blanks ' ', isBlank c = true := by
    intro c hc
    rw [(List.mem_replicate.1 hc).2]
    decide
  have hname : ∀ c ∈ parameter, (!isBlank c) = true := by
    intro c hc
    rw [isBlank_eq_false_of_isNameChar (h.2 c hc)]
    rfl
  have hdrop := dropBlanks_name h " extends TSchema".toList
  have hne : (parameter ++ " extends TSchema".toList).isEmpty = false := by simp
  rw [dropBlanks] at hdrop
  rw [dropBlanks, List.dropWhile_append_of_pos hblanks, hdrop, List.filterMap_cons, hne]
  simp only [Bool.false_eq_true, if_false, List.filterMap_nil]
  rw [List.takeWhile_append_of_pos hname]
  simp [isBlank]

theorem boundNames_boundParameters {parameters : List String}
    (h : ∀ parameter ∈ parameters, IsName parameter.toList) (hne : parameters ≠ []) (blanks : Nat) :
    boundNames (List.replicate blanks ' ' ++ boundParameters parameters) =
      parameters.map String.toList := by
  induction parameters generalizing blanks with
  | nil => exact absurd rfl hne
  | cons parameter others ih =>
    have hname := h parameter (by simp)
    have hcomma : ',' ∉
        List.replicate blanks ' ' ++ (parameter.toList ++ " extends TSchema".toList) := by
      simp only [List.mem_append, not_or]
      refine ⟨?_, ?_, by decide⟩
      · intro hmem
        exact absurd (List.mem_replicate.1 hmem).2 (by decide)
      · intro hmem
        exact absurd (hname.2 ',' hmem) (by decide)
    cases others with
    | nil =>
      have hbound : boundParameters [parameter] =
          parameter.toList ++ " extends TSchema".toList := by
        simp [boundParameters]
      rw [hbound, boundNames, splitCommas_of_not_mem hcomma]
      exact boundName_of_bound hname blanks
    | cons next others =>
      have hbound : List.replicate blanks ' ' ++ boundParameters (parameter :: next :: others) =
          (List.replicate blanks ' ' ++ (parameter.toList ++ " extends TSchema".toList)) ++
            ',' :: (List.replicate 1 ' ' ++ boundParameters (next :: others)) := by
        simp [boundParameters, String.intercalate_cons_cons]
      have hrest := ih (fun other hmem => h other (by simp [hmem])) (by simp) 1
      rw [boundNames] at hrest
      rw [hbound, boundNames, splitCommas_append hcomma, List.map_cons,
        ← List.singleton_append, List.filterMap_append, boundName_of_bound hname, hrest]
      rfl

/-- Between the angle brackets stand the bound parameters, and they end at the first one that
closes. -/
theorem boundNames_brackets {parameters : List String}
    (h : ∀ parameter ∈ parameters, IsName parameter.toList) (hne : parameters ≠ [])
    (rest : List Char) :
    (if (boundParameters parameters ++ '>' :: rest).contains '>' then
      boundNames ((boundParameters parameters ++ '>' :: rest).takeWhile (· != '>')) else []) =
        parameters.map String.toList := by
  have hinside : ∀ c ∈ boundParameters parameters, (c != '>') = true := by
    intro c hc
    simpa using (boundParameters_chars h c hc).2.1
  have htake : (boundParameters parameters ++ '>' :: rest).takeWhile (· != '>') =
      boundParameters parameters := by
    rw [List.takeWhile_append_of_pos hinside]
    simp
  rw [htake, if_pos (by simp)]
  exact boundNames_boundParameters h hne 0

/-- The type parameters on a static type line. -/
theorem lineParameters_staticLine {name : List Char} (hname : IsName name) (exported : Bool)
    (value : List Char) {parameters : List String}
    (h : ∀ parameter ∈ parameters, IsName parameter.toList) :
    lineParameters (keywordLine exported "type" (name ++ staticTail value parameters)) =
      parameters.map String.toList := by
  rw [lineParameters, spanName?_staticTail hname]
  cases parameters with
  | nil => rfl
  | cons parameter others => exact boundNames_brackets h (by simp) _

/-- The type parameters on a value line; an expression opens no angle bracket. -/
theorem lineParameters_valueLine {name : List Char} (hname : IsName name) (exported : Bool)
    {parameters : List String} (h : ∀ parameter ∈ parameters, IsName parameter.toList) {c : Char}
    (hblank : isBlank c = false) (hbracket : c ≠ '<') (body : List Char) :
    lineParameters (keywordLine exported "const"
      (name ++ (" = ".toList ++ (parameterHead parameters ++ c :: body)))) =
        parameters.map String.toList := by
  have hspace : isBlank ' ' = true := by decide
  rw [lineParameters, afterKeyword?_type_keywordLine (by simp), valueDeclaration?_valueLine hname]
  cases parameters with
  | nil =>
    have hopened : dropBlanks (' ' :: (parameterHead [] ++ c :: body)) = c :: body := by
      simp [dropBlanks, parameterHead, hspace, hblank]
    simp only [Option.bind_none, Option.map_some, hopened]
    split
    · rename_i hinner
      cases hinner
      exact absurd rfl hbracket
    · rfl
  | cons parameter others =>
    have hopened : dropBlanks (' ' :: (parameterHead (parameter :: others) ++ c :: body)) =
        '<' :: (boundParameters (parameter :: others) ++ '>' :: ("(".toList ++
          ((", ".intercalate ((parameter :: others).map fun p => p ++ ": " ++ p)).toList ++
            (") => ".toList ++ c :: body)))) := by
      have hangle : isBlank '<' = false := by decide
      simp [dropBlanks, parameterHead, hspace, hangle]
    simp only [Option.bind_none, Option.map_some, hopened]
    exact boundNames_brackets h (by simp) _

/-! ### The names that a text declares -/

theorem declaredValues_false_line {line : List Char} (h : '\n' ∉ line) (rest : List Char) :
    declaredValues false (line ++ '\n' :: rest) = declaredValues true rest := by
  induction line with
  | nil =>
    rw [List.nil_append, declaredValues]
    simp
  | cons c line ih =>
    have hc : (c == '\n') = false := by
      rw [beq_eq_false_iff_ne]
      rintro rfl
      exact h (by simp)
    rw [List.cons_append, declaredValues]
    simp only [Bool.false_eq_true, if_false, hc]
    exact ih fun hmem => h (by simp [hmem])

/-- A line that declares no value is passed over. -/
theorem declaredValues_line {line : List Char} (hfeed : '\n' ∉ line) {rest : List Char}
    (h : valueDeclaration? (line ++ '\n' :: rest) = none) :
    declaredValues true (line ++ '\n' :: rest) = declaredValues true rest := by
  cases line with
  | nil =>
    rw [List.nil_append] at h ⊢
    rw [declaredValues, if_pos rfl, h]
    rfl
  | cons c line =>
    have hc : (c == '\n') = false := by
      rw [beq_eq_false_iff_ne]
      rintro rfl
      exact hfeed (by simp)
    rw [List.cons_append] at h ⊢
    rw [declaredValues, if_pos rfl, h]
    simp only [hc]
    exact declaredValues_false_line (fun hmem => hfeed (by simp [hmem])) rest

/-- A value line declares its name. -/
theorem declaredValues_valueLine {name : List Char} (hname : IsName name) (exported : Bool)
    {body : List Char} (hbody : '\n' ∉ body) (rest : List Char) :
    declaredValues true
      (keywordLine exported "const" (name ++ (" = ".toList ++ body)) ++ '\n' :: rest) =
        name :: declaredValues true rest := by
  have hread := valueDeclaration?_valueLine hname exported (body ++ '\n' :: rest)
  have hline : keywordLine exported "const" (name ++ (" = ".toList ++ body)) ++ '\n' :: rest =
      keywordLine exported "const" (name ++ (" = ".toList ++ (body ++ '\n' :: rest))) := by
    simp [keywordLine]
  obtain ⟨c, more, hcons⟩ : ∃ c more, keywordLine exported "const"
      (name ++ (" = ".toList ++ (body ++ '\n' :: rest))) = c :: more ∧
        (' ' :: (body ++ '\n' :: rest)).length ≤ more.length := by
    cases exported <;> exact ⟨_, _, rfl, by simp; omega⟩
  rw [hline]
  rw [hcons.1] at hread ⊢
  rw [declaredValues, if_pos rfl, hread]
  simp only [hcons.2, if_true]
  rw [declaredValues]
  simp only [Bool.false_eq_true, if_false]
  exact congrArg _ (declaredValues_false_line hbody rest)

end Schemata.Emitted

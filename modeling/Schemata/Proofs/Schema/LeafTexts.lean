import Schemata.Proofs.Json.Quotation
import Schemata.Proofs.Number.Numeral
import Schemata.Proofs.Schema.Folding

/-!
# Line boundaries in rendered code

Of the characters that end a line the renderer writes only line feeds itself. Any other line
boundary in rendered code comes from a name or from a text that is passed through.
-/

namespace Schemata

namespace Text

/-- Every line boundary is a line feed. -/
def FeedsOnly (chars : List Char) : Prop := ∀ c ∈ chars, isLineBreak c = true → c = '\n'

instance (chars : List Char) : Decidable (FeedsOnly chars) := List.decidableBAll _ chars

theorem Unbroken.feedsOnly {chars : List Char} (h : Unbroken chars) : FeedsOnly chars := by
  intro c hc hbreak
  rw [h c hc] at hbreak
  cases hbreak

theorem FeedsOnly.unbroken {chars : List Char} (h : FeedsOnly chars) (hfeed : '\n' ∉ chars) :
    Unbroken chars := by
  intro c hc
  cases hbreak : isLineBreak c with
  | false => rfl
  | true => exact absurd (h c hc hbreak ▸ hc) hfeed

@[simp] theorem feedsOnly_append {first second : List Char} :
    FeedsOnly (first ++ second) ↔ FeedsOnly first ∧ FeedsOnly second :=
  List.forall_mem_append

theorem feedsOnly_intercalate {separator : List Char} {parts : List (List Char)}
    (hseparator : FeedsOnly separator) (hparts : ∀ part ∈ parts, FeedsOnly part) :
    FeedsOnly (separator.intercalate parts) := by
  induction parts with
  | nil => exact unbroken_nil.feedsOnly
  | cons part rest ih =>
    rw [List.forall_mem_cons] at hparts
    cases rest with
    | nil => simpa using hparts.1
    | cons next rest =>
      rw [List.intercalate_cons_cons, feedsOnly_append, feedsOnly_append]
      exact ⟨⟨hparts.1, hseparator⟩, ih hparts.2⟩

theorem feedsOnly_join {separator : String} {parts : List String}
    (hseparator : FeedsOnly separator.toList) (hparts : ∀ part ∈ parts, FeedsOnly part.toList) :
    FeedsOnly (separator.intercalate parts).toList := by
  rw [String.toList_intercalate]
  refine feedsOnly_intercalate hseparator fun part hpart => ?_
  obtain ⟨text, htext, rfl⟩ := List.mem_map.1 hpart
  exact hparts text htext

theorem unbroken_join {separator : String} {parts : List String}
    (hseparator : Unbroken separator.toList) (hparts : ∀ part ∈ parts, Unbroken part.toList) :
    Unbroken (separator.intercalate parts).toList := by
  rw [String.toList_intercalate]
  refine unbroken_intercalate hseparator fun part hpart => ?_
  obtain ⟨text, htext, rfl⟩ := List.mem_map.1 hpart
  exact hparts text htext

end Text

open Text

/-! ### Options -/

namespace Json

theorem unbroken_escapeUnits (c : Char) : Unbroken (escapeUnits c) := by
  rw [escapeUnits]
  split
  · exact unbroken_cons.2 ⟨by decide, unbroken_cons.2 ⟨by decide, unbroken_hexDigits 4 _⟩⟩
  · simp only [List.cons_append, unbroken_cons, unbroken_append]
    exact ⟨by decide, by decide, unbroken_hexDigits 4 _, by decide, by decide,
      unbroken_hexDigits 4 _⟩

/-- Strings escape line feeds, and with `plainOnly` every other line boundary as well. -/
theorem unbroken_escapeChar {plainOnly : Bool} {c : Char}
    (h : plainOnly = true ∨ (isLineBreak c = true → c = '\n')) :
    Unbroken (escapeChar plainOnly c) := by
  by_cases hletter : c ∈ lettered
  · clear h
    simp only [lettered, List.mem_cons, List.not_mem_nil, or_false] at hletter
    rcases hletter with rfl | rfl | rfl | rfl | rfl | rfl | rfl
    all_goals exact of_decide_eq_true (by cases plainOnly <;> rfl)
  · rw [escapeChar_of_not_lettered plainOnly hletter]
    split
    · exact unbroken_escapeUnits c
    · rename_i hkept
      refine unbroken_cons.2 ⟨?_, unbroken_nil⟩
      cases hbreak : isLineBreak c with
      | false => rfl
      | true =>
        rcases h with rfl | h
        · simp only [isLineBreak, Bool.or_eq_true, Bool.and_eq_true, decide_eq_true_eq,
            beq_iff_eq, Bool.true_and] at hbreak hkept
          omega
        · exact absurd (h hbreak ▸ by decide) hletter

theorem unbroken_quote {plainOnly : Bool} {text : String}
    (h : plainOnly = true ∨ FeedsOnly text.toList) : Unbroken (quote plainOnly text).toList := by
  have hinside : Unbroken (text.toList.flatMap (escapeChar plainOnly)) := by
    intro d hd
    obtain ⟨c, hc, hd⟩ := List.mem_flatMap.1 hd
    exact unbroken_escapeChar (h.imp_right fun hfeeds => hfeeds c hc) d hd
  rw [quote, String.toList_ofList, List.cons_append, unbroken_cons, unbroken_append]
  exact ⟨by decide, hinside, by decide⟩

theorem unbroken_quotePoints {plainOnly : Bool} {points : List Nat}
    (h : plainOnly = true ∨ FeedsOnly (shownText points).toList) :
    Unbroken (quotePoints plainOnly points).toList := by
  have hinside : Unbroken (points.flatMap (escapePoint plainOnly)) := by
    intro c hc
    obtain ⟨n, hn, hc⟩ := List.mem_flatMap.1 hc
    rw [escapePoint] at hc
    split at hc
    · exact (unbroken_cons.2 ⟨by decide, unbroken_cons.2 ⟨by decide, unbroken_hexDigits 4 n⟩⟩ :
        Unbroken ('\\' :: 'u' :: hexDigits 4 n)) c hc
    · rename_i hhalf
      refine unbroken_escapeChar (h.imp_right fun hfeeds => hfeeds _ ?_) c hc
      rw [shownText, markedText, String.toList_ofList]
      exact List.mem_map.2 ⟨n, hn, if_neg hhalf⟩
  rw [quotePoints, String.toList_ofList, List.cons_append, unbroken_cons, unbroken_append]
  exact ⟨by decide, hinside, by decide⟩

theorem unbroken_literalText (value : Binary64) : Unbroken value.literalText.toList := by
  cases value with
  | nan => decide
  | infinite negative => cases negative <;> decide
  | finite negative m q => exact unbroken_of_isNumeral (Binary64.isNumeral_literalText negative m q)

mutual

theorem unbroken_write : (value : Json) → Unbroken (value.write true).toList
  | .null => by decide
  | .bool value => by cases value <;> decide
  | .int value => unbroken_of_isNumeral (isNumeral_int value)
  | .float value => unbroken_literalText value
  | .str text => unbroken_quote (Or.inl rfl)
  | .broken points => unbroken_quotePoints (Or.inl rfl)
  | .arr items => by
    rw [write, String.toList_append, String.toList_append, unbroken_append, unbroken_append]
    exact ⟨⟨by decide, unbroken_join (by decide) (unbroken_writeItems items)⟩, by decide⟩
  | .obj entries => by
    rw [write, String.toList_append, String.toList_append, unbroken_append, unbroken_append]
    exact ⟨⟨by decide, unbroken_join (by decide) (unbroken_writeEntries entries)⟩, by decide⟩

theorem unbroken_writeItems :
    (items : List Json) → ∀ text ∈ writeItems true items, Unbroken text.toList
  | [] => by simp [writeItems]
  | item :: rest => List.forall_mem_cons.2 ⟨unbroken_write item, unbroken_writeItems rest⟩

theorem unbroken_writeEntries :
    (entries : List (String × Json)) → ∀ text ∈ writeEntries true entries, Unbroken text.toList
  | [] => by simp [writeEntries]
  | (key, value) :: rest => by
    refine List.forall_mem_cons.2 ⟨?_, unbroken_writeEntries rest⟩
    rw [String.toList_append, String.toList_append, unbroken_append, unbroken_append]
    exact ⟨⟨unbroken_quote (Or.inl rfl), by decide⟩, unbroken_write value⟩

end

end Json

/-- The texts in the value of an option. -/
def OptionValue.texts : OptionValue → List String
  | .raw text => [text]
  | .literal (.str text) => [text]
  | .literal (.broken points) => [Text.shownText points]
  | .literal _ => []

/-- The names of options and the texts in their values. -/
def Options.texts (options : Options) : List String :=
  options.flatMap fun (key, value) => key :: value.texts

theorem feedsOnly_renderKey {key : String} (h : FeedsOnly key.toList) :
    FeedsOnly (renderKey key).toList := by
  rw [renderKey]
  split
  · exact h
  · exact (Json.unbroken_quote (Or.inl rfl)).feedsOnly

theorem OptionValue.feedsOnly_render {value : OptionValue}
    (h : ∀ text ∈ value.texts, FeedsOnly text.toList) : FeedsOnly value.render.toList := by
  unfold OptionValue.render
  split
  · exact h _ (by simp [texts])
  · exact (Json.unbroken_quote (Or.inr (h _ (by simp [texts])))).feedsOnly
  · exact (Json.unbroken_quotePoints (Or.inr (h _ (by simp [texts])))).feedsOnly
  · exact (Json.unbroken_write _).feedsOnly

theorem Options.feedsOnly_render {options : Options}
    (h : ∀ text ∈ options.texts, FeedsOnly text.toList) : FeedsOnly options.render.toList := by
  rw [Options.render, String.toList_append, String.toList_append, feedsOnly_append,
    feedsOnly_append]
  refine ⟨⟨by decide, feedsOnly_join (by decide) ?_⟩, by decide⟩
  intro part hpart
  obtain ⟨⟨key, value⟩, hmem, rfl⟩ := List.mem_map.1 hpart
  have hentry : ∀ text ∈ key :: value.texts, FeedsOnly text.toList :=
    fun text htext => h text (List.mem_flatMap.2 ⟨_, hmem, htext⟩)
  rw [List.forall_mem_cons] at hentry
  simp only [String.toList_append, feedsOnly_append]
  exact ⟨⟨feedsOnly_renderKey hentry.1, by decide⟩, OptionValue.feedsOnly_render hentry.2⟩

/-! ### Expressions -/

namespace Expr

mutual

/-- The names in an expression, and the texts that are passed through. -/
def texts : Expr → List String
  | .call name args options => name :: (textsOf args ++ options.texts)
  | .ref name => [name]
  | .raw text => [text]
  | .apply callee args => callee :: textsOf args
  | .array items => textsOf items
  | .object fields => textsOfFields fields
  | .recursive name body => name :: texts body
  | .absent | .bare => []

def textsOf : List Expr → List String
  | [] => []
  | expr :: rest => texts expr ++ textsOf rest

def textsOfFields : List (String × Expr) → List String
  | [] => []
  | (name, value) :: rest => name :: (texts value ++ textsOfFields rest)

end

theorem feedsOnly_fieldLine {name value : String} (level : Int) (hname : FeedsOnly name.toList)
    (hvalue : FeedsOnly value.toList) : FeedsOnly (fieldLine level name value).toList := by
  have hblanks : FeedsOnly (indentation (level + 1)).toList := by
    rw [toList_indentation]
    exact (unbroken_replicate _).feedsOnly
  rw [fieldLine, String.toList_append, feedsOnly_append]
  refine ⟨hblanks, ?_⟩
  split
  · exact hvalue
  · rw [String.toList_append, String.toList_append, feedsOnly_append, feedsOnly_append]
    exact ⟨⟨hname, by decide⟩, hvalue⟩

/-- A head, parts with commas between them and what closes them. -/
theorem feedsOnly_arguments {head closing : String} {parts : List String}
    (hhead : FeedsOnly head.toList) (hparts : ∀ part ∈ parts, FeedsOnly part.toList)
    (hclosing : FeedsOnly closing.toList) :
    FeedsOnly (head ++ ", ".intercalate parts ++ closing).toList := by
  rw [String.toList_append, String.toList_append, feedsOnly_append, feedsOnly_append]
  exact ⟨⟨hhead, feedsOnly_join (by decide) hparts⟩, hclosing⟩

mutual

theorem feedsOnly_render : (expr : Expr) → (∀ text ∈ expr.texts, FeedsOnly text.toList) →
    ∀ (level : Int) (code : String), expr.render level = .ok code → FeedsOnly code.toList
  | .absent, _, level, code, h => by
    cases h
    decide
  | .bare, _, level, code, h => by cases h
  | .ref name, htexts, level, code, h => by
    cases h
    exact htexts name (by simp [texts])
  | .raw text, htexts, level, code, h => by
    cases h
    exact htexts text (by simp [texts])
  | .call name args options, htexts, level, code, h => by
    rw [texts, List.forall_mem_cons, List.forall_mem_append] at htexts
    rw [render] at h
    obtain ⟨codes, hcodes, h⟩ := bind_eq_ok_iff.1 h
    cases h
    have hargs := feedsOnly_renderAll args htexts.2.1 level codes hcodes
    refine feedsOnly_arguments ?_ ?_ (by decide)
    · rw [String.toList_append, String.toList_append, feedsOnly_append, feedsOnly_append]
      exact ⟨⟨by decide, htexts.1⟩, by decide⟩
    · split
      · exact hargs
      · exact List.forall_mem_append.2
          ⟨hargs, List.forall_mem_singleton.2 (Options.feedsOnly_render htexts.2.2)⟩
  | .apply callee args, htexts, level, code, h => by
    rw [texts, List.forall_mem_cons] at htexts
    rw [render] at h
    obtain ⟨codes, hcodes, h⟩ := bind_eq_ok_iff.1 h
    cases h
    refine feedsOnly_arguments ?_ (feedsOnly_renderAll args htexts.2 level codes hcodes) (by decide)
    rw [String.toList_append, feedsOnly_append]
    exact ⟨htexts.1, by decide⟩
  | .array items, htexts, level, code, h => by
    rw [texts] at htexts
    rw [render] at h
    obtain ⟨codes, hcodes, h⟩ := bind_eq_ok_iff.1 h
    cases h
    exact feedsOnly_arguments (by decide) (feedsOnly_renderAll items htexts level codes hcodes)
      (by decide)
  | .object fields, htexts, level, code, h => by
    rw [texts] at htexts
    rw [render] at h
    obtain ⟨lines, hlines, h⟩ := bind_eq_ok_iff.1 h
    have hfields := feedsOnly_renderFields fields htexts level lines hlines
    split at h
    · cases h
      decide
    · cases h
      simp only [String.toList_append, feedsOnly_append, toList_indentation]
      exact ⟨⟨⟨⟨by decide, feedsOnly_join (by decide) hfields⟩, by decide⟩,
        (unbroken_replicate _).feedsOnly⟩, by decide⟩
  | .recursive name body, htexts, level, code, h => by
    rw [texts, List.forall_mem_cons] at htexts
    rw [render] at h
    obtain ⟨inner, hinner, h⟩ := bind_eq_ok_iff.1 h
    cases h
    simp only [String.toList_append, feedsOnly_append]
    exact ⟨⟨⟨⟨by decide, htexts.1⟩, by decide⟩, feedsOnly_render body htexts.2 level inner hinner⟩,
      by decide⟩

theorem feedsOnly_renderAll : (exprs : List Expr) →
    (∀ text ∈ textsOf exprs, FeedsOnly text.toList) → ∀ (level : Int) (codes : List String),
      renderAll level exprs = .ok codes → ∀ code ∈ codes, FeedsOnly code.toList
  | [], _, level, codes, h => by
    cases h
    simp
  | expr :: rest, htexts, level, codes, h => by
    rw [textsOf, List.forall_mem_append] at htexts
    rw [renderAll] at h
    obtain ⟨code, hcode, h⟩ := bind_eq_ok_iff.1 h
    obtain ⟨more, hmore, h⟩ := bind_eq_ok_iff.1 h
    cases h
    exact List.forall_mem_cons.2 ⟨feedsOnly_render expr htexts.1 level code hcode,
      feedsOnly_renderAll rest htexts.2 level more hmore⟩

theorem feedsOnly_renderFields : (fields : List (String × Expr)) →
    (∀ text ∈ textsOfFields fields, FeedsOnly text.toList) → ∀ (level : Int) (lines : List String),
      renderFields level fields = .ok lines → ∀ line ∈ lines, FeedsOnly line.toList
  | [], _, level, lines, h => by
    cases h
    simp
  | (name, value) :: rest, htexts, level, lines, h => by
    rw [textsOfFields, List.forall_mem_cons, List.forall_mem_append] at htexts
    rw [renderFields] at h
    obtain ⟨code, hcode, h⟩ := bind_eq_ok_iff.1 h
    obtain ⟨more, hmore, h⟩ := bind_eq_ok_iff.1 h
    cases h
    exact List.forall_mem_cons.2
      ⟨feedsOnly_fieldLine level htexts.1 (feedsOnly_render value htexts.2.1 _ code hcode),
        feedsOnly_renderFields rest htexts.2.2 level more hmore⟩

end

end Expr

/-! ### Declarations -/

theorem feedsOnly_exportWord (exported : Bool) : FeedsOnly (exportWord exported).toList := by
  cases exported <;> decide

theorem feedsOnly_indentLines (text : String) : FeedsOnly (indentLines text).toList := by
  refine feedsOnly_join (by decide) fun line hline => ?_
  obtain ⟨origin, horigin, rfl⟩ := List.mem_map.1 hline
  have horigin := (unbroken_of_mem_lineTexts horigin).feedsOnly
  split
  · exact horigin
  · rw [String.toList_append, feedsOnly_append]
    exact ⟨by decide, horigin⟩

/-- Type parameters with what follows each of them. -/
theorem feedsOnly_parameters {separator : String} {parameters : List String}
    {write : String → String} (hseparator : FeedsOnly separator.toList)
    (hwrite : ∀ parameter, FeedsOnly parameter.toList → FeedsOnly (write parameter).toList)
    (h : ∀ parameter ∈ parameters, FeedsOnly parameter.toList) :
    FeedsOnly (separator.intercalate (parameters.map write)).toList := by
  refine feedsOnly_join hseparator fun text htext => ?_
  obtain ⟨parameter, hmem, rfl⟩ := List.mem_map.1 htext
  exact hwrite parameter (h parameter hmem)

theorem feedsOnly_bound {parameter : String} (h : FeedsOnly parameter.toList) :
    FeedsOnly (parameter ++ " extends TSchema").toList := by
  rw [String.toList_append, feedsOnly_append]
  exact ⟨h, by decide⟩

theorem feedsOnly_staticLine {name : String} (exported : Bool) {parameters : List String}
    (hname : FeedsOnly name.toList)
    (hparameters : ∀ parameter ∈ parameters, FeedsOnly parameter.toList) :
    FeedsOnly (staticLine name exported parameters).toList := by
  have hexport := feedsOnly_exportWord exported
  have hcomma : FeedsOnly ", ".toList := by decide
  have hbound := feedsOnly_parameters hcomma (fun _ => feedsOnly_bound) hparameters
  have hplain := feedsOnly_join hcomma hparameters
  unfold staticLine
  split
  · simp only [String.toList_append, feedsOnly_append, hexport, hname, and_true, true_and]
    decide
  · simp only [String.toList_append, feedsOnly_append, hexport, hname, hbound, hplain, and_true,
      true_and]
    decide

theorem feedsOnly_valueLines {name body : String} (exported : Bool) {parameters : List String}
    (hname : FeedsOnly name.toList)
    (hparameters : ∀ parameter ∈ parameters, FeedsOnly parameter.toList)
    (hbody : FeedsOnly body.toList) :
    FeedsOnly (valueLines name exported parameters body).toList := by
  have hexport := feedsOnly_exportWord exported
  have hcomma : FeedsOnly ", ".toList := by decide
  have hbound := feedsOnly_parameters hcomma (fun _ => feedsOnly_bound) hparameters
  have hpairs : FeedsOnly (", ".intercalate (parameters.map fun p => p ++ ": " ++ p)).toList := by
    refine feedsOnly_parameters hcomma (fun parameter h => ?_) hparameters
    rw [String.toList_append, String.toList_append, feedsOnly_append, feedsOnly_append]
    exact ⟨⟨h, by decide⟩, h⟩
  rw [valueLines, String.toList_append, feedsOnly_append]
  constructor
  · simp only [String.toList_append, feedsOnly_append, hexport, hname, and_true, true_and]
    decide
  · split
    · exact hbody
    · simp only [String.toList_append, feedsOnly_append, hbound, hpairs, hbody, and_true]
      decide

theorem feedsOnly_enumerationText {name : String} (exported : Bool) {members : List String}
    (hname : FeedsOnly name.toList) (hmembers : ∀ member ∈ members, FeedsOnly member.toList) :
    FeedsOnly (enumerationText name exported members).toList := by
  have hexport := feedsOnly_exportWord exported
  have hlist := feedsOnly_join (show FeedsOnly ", ".toList by decide) hmembers
  have hblock : ∀ list : String, FeedsOnly list.toList →
      FeedsOnly (if list == "" then "\x7b\x7d" else "\x7b " ++ list ++ " \x7d").toList := by
    intro list h
    split
    · decide
    · simp only [String.toList_append, feedsOnly_append, h, and_true]
      decide
  simp only [enumerationText, String.toList_append, feedsOnly_append, hexport, hname,
    hblock _ hlist, and_true, true_and]
  decide

theorem feedsOnly_scopeText {name keyword : String} (exported : Bool) (body : String)
    (hname : FeedsOnly name.toList) (hkeyword : FeedsOnly keyword.toList) :
    FeedsOnly (scopeText name exported keyword body).toList := by
  have hexport := feedsOnly_exportWord exported
  have hinside : FeedsOnly
      (if indentLines body == "" then "" else indentLines body ++ "\n").toList := by
    split
    · decide
    · rw [String.toList_append, feedsOnly_append]
      exact ⟨feedsOnly_indentLines body, by decide⟩
  simp only [scopeText, String.toList_append, feedsOnly_append, hexport, hname, hkeyword, hinside,
    and_true, true_and]
  decide

namespace Declaration

mutual

/-- The names in a declaration, and the texts that are passed through. -/
def texts : Declaration → List String
  | .schema name _ body parameters => name :: (parameters ++ body.texts)
  | .enumeration name _ members => name :: members
  | .scope name _ keyword body => name :: keyword :: textsOf body
  | .verbatim text => [text]
  | .bare => []

def textsOf : List Declaration → List String
  | [] => []
  | declaration :: rest => texts declaration ++ textsOf rest

end

theorem feedsOnly_render {declaration : Declaration}
    (htexts : ∀ text ∈ declaration.texts, FeedsOnly text.toList) {code : String}
    (h : declaration.render = .ok code) : FeedsOnly code.toList := by
  cases declaration with
  | schema name exported body parameters =>
    rw [texts, List.forall_mem_cons, List.forall_mem_append] at htexts
    obtain ⟨hname, hparameters, hbody⟩ := htexts
    rw [render] at h
    obtain ⟨inner, hinner, h⟩ := bind_eq_ok_iff.1 h
    cases h
    rw [String.toList_append, String.toList_append, feedsOnly_append, feedsOnly_append]
    exact ⟨⟨feedsOnly_staticLine exported hname hparameters, by decide⟩,
      feedsOnly_valueLines exported hname hparameters (body.feedsOnly_render hbody 0 inner hinner)⟩
  | enumeration name exported members =>
    rw [texts, List.forall_mem_cons] at htexts
    cases h
    exact feedsOnly_enumerationText exported htexts.1 htexts.2
  | scope name exported keyword body =>
    rw [texts, List.forall_mem_cons, List.forall_mem_cons] at htexts
    rw [render] at h
    obtain ⟨inner, hinner, h⟩ := bind_eq_ok_iff.1 h
    cases h
    exact feedsOnly_scopeText exported _ htexts.1 htexts.2.1
  | verbatim text =>
    cases h
    exact htexts _ (by simp [texts])
  | bare => cases h

theorem forall_texts_of_mem {motive : String → Prop} {body : List Declaration}
    (h : ∀ text ∈ textsOf body, motive text) {declaration : Declaration}
    (hmem : declaration ∈ body) : ∀ text ∈ declaration.texts, motive text := by
  induction body with
  | nil => cases hmem
  | cons first rest ih =>
    rw [textsOf, List.forall_mem_append] at h
    rcases List.mem_cons.1 hmem with rfl | hmem
    · exact h.1
    · exact ih h.2 hmem

end Declaration

end Schemata

import Mathlib.Data.List.TakeWhile
import Schemata.Proofs.Emitted.Rewriting

/-!
# Renaming and option values

Option values are written as literals, numbers and a few words. As long as no new name is given to
one of these words or to a number, renaming leaves every option as it is.
-/

namespace Schemata

open Text Emitted

/-- The words that stand around names, numbers and texts in emitted code. -/
def skeletonWords : List String :=
  ["Type", "Static", "TSchema", "ReturnType", "import", "from", "export", "type", "const", "typeof",
    "extends", "true", "false", "null"]

def numberWords : List String := ["Infinity", "NaN"]

/-- The words of emitted code that are no names of constants. -/
def reservedWords : List String := skeletonWords ++ numberWords

/-- New names that leave reserved words and numbers alone. -/
structure Emitted.Names.Proper (names : Names) : Prop where
  reserved : ∀ word ∈ reservedWords, names.get? word.toList = none
  digits : SkipsDigits names

/-! ### Option values -/

theorem isLiteralBody_append {quote : Char} {first second : List Char}
    (hfirst : isLiteralBody quote first = true) (hsecond : isLiteralBody quote second = true) :
    isLiteralBody quote (first ++ second) = true := by
  fun_induction isLiteralBody quote first with
  | case1 => exact hsecond
  | case2 c first ih =>
    rw [Bool.and_eq_true] at hfirst
    rw [List.cons_append, List.cons_append, isLiteralBody, hfirst.1, ih hfirst.2]
    rfl
  | case3 c first _ ih =>
    simp only [Bool.and_eq_true, bne_iff_ne] at hfirst
    obtain ⟨⟨⟨hback, hclose⟩, hfeed⟩, hmore⟩ := hfirst
    rw [List.cons_append, isLiteralBody.eq_3 quote c _ (fun _ _ hc _ => hback hc)]
    simp [hback, hclose, hfeed, ih hmore]

theorem isLiteralBody_flatMap {α : Type} {quote : Char} {escape : α → List Char}
    (h : ∀ a, isLiteralBody quote (escape a) = true) (items : List α) :
    isLiteralBody quote (items.flatMap escape) = true := by
  induction items with
  | nil => rfl
  | cons a items ih => exact isLiteralBody_append (h a) ih

theorem isLiteralBody_plain {quote : Char} {chars : List Char}
    (h : ∀ c ∈ chars, c ≠ '\\' ∧ c ≠ quote ∧ c ≠ '\n') : isLiteralBody quote chars = true := by
  induction chars with
  | nil => rfl
  | cons c chars ih =>
    obtain ⟨hback, hclose, hfeed⟩ := h c (by simp)
    rw [isLiteralBody.eq_3 quote c chars (fun _ _ hc _ => hback hc)]
    simp [hback, hclose, hfeed, ih fun d hd => h d (by simp [hd])]

theorem isLiteral_of_body {quote : Char} (hquote : quote = '"' ∨ quote = '\'') {inside : List Char}
    (h : isLiteralBody quote inside = true) : isLiteral (quote :: (inside ++ [quote])) = true := by
  rcases hquote with rfl | rfl <;> simp [isLiteral, h]

theorem hexDigits_plain (width n : Nat) :
    ∀ c ∈ hexDigits width n, c ≠ '\\' ∧ c ≠ '"' ∧ c ≠ '\n' := by
  induction width generalizing n with
  | zero => simp [hexDigits]
  | succ width ih =>
    intro c hc
    rw [hexDigits, List.mem_append, List.mem_singleton] at hc
    rcases hc with hc | rfl
    · exact ih (n / 16) c hc
    · have hall : ∀ n < 16, hexDigit n ≠ '\\' ∧ hexDigit n ≠ '"' ∧ hexDigit n ≠ '\n' := by decide
      exact hall (n % 16) (Nat.mod_lt n (by decide))

theorem isLiteralBody_unit (n : Nat) :
    isLiteralBody '"' ('\\' :: 'u' :: hexDigits 4 n) = true := by
  rw [isLiteralBody, isLiteralBody_plain (hexDigits_plain 4 n)]
  rfl

theorem isLiteralBody_escapeUnits (c : Char) : isLiteralBody '"' (Json.escapeUnits c) = true := by
  rw [Json.escapeUnits]
  split
  · exact isLiteralBody_unit _
  · exact isLiteralBody_append (isLiteralBody_unit _) (isLiteralBody_unit _)

theorem isLiteralBody_escapeChar (plainOnly : Bool) (c : Char) :
    isLiteralBody '"' (Json.escapeChar plainOnly c) = true := by
  rw [Json.escapeChar]
  split
  · rename_i hescaped
    rw [Bool.or_eq_true, beq_iff_eq, beq_iff_eq] at hescaped
    rcases hescaped with rfl | rfl <;> rfl
  · rename_i hescaped
    split
    · rfl
    · rename_i hfeed
      split
      · rfl
      · split
        · rfl
        · split
          · rfl
          · split
            · rfl
            · split
              · exact isLiteralBody_escapeUnits c
              · rw [Bool.or_eq_true, beq_iff_eq, beq_iff_eq, not_or] at hescaped
                rw [beq_iff_eq] at hfeed
                exact isLiteralBody_plain (by simpa using ⟨hescaped.2, hescaped.1, hfeed⟩)

/-- A string is written as a complete literal. -/
theorem isLiteral_quote (plainOnly : Bool) (text : String) :
    isLiteral (Json.quote plainOnly text).toList = true := by
  rw [Json.quote, String.toList_ofList]
  exact isLiteral_of_body (Or.inl rfl)
    (isLiteralBody_flatMap (isLiteralBody_escapeChar plainOnly) _)

theorem isLiteralBody_escapePoint (plainOnly : Bool) (n : Nat) :
    isLiteralBody '"' (Json.escapePoint plainOnly n) = true := by
  rw [Json.escapePoint]
  split
  · exact isLiteralBody_unit n
  · exact isLiteralBody_escapeChar plainOnly _

theorem isLiteral_quotePoints (plainOnly : Bool) (points : List Nat) :
    isLiteral (Json.quotePoints plainOnly points).toList = true := by
  rw [Json.quotePoints, String.toList_ofList]
  exact isLiteral_of_body (Or.inl rfl)
    (isLiteralBody_flatMap (isLiteralBody_escapePoint plainOnly) _)

variable {names : Names}

theorem Emitted.Names.Proper.rewrites_reserved (hnames : names.Proper) {word : String}
    (h : word ∈ reservedWords) : Rewrites names word.toList word.toList := by
  have hword : ∀ word ∈ reservedWords, IsName word.toList := by decide
  exact rewrites_word (hword word h) (hnames.reserved word h)

theorem rewrites_literalText (hnames : names.Proper) (value : Binary64) :
    Rewrites names value.literalText.toList value.literalText.toList := by
  cases value with
  | nan => exact hnames.rewrites_reserved (show "NaN" ∈ reservedWords by decide)
  | infinite negative =>
    have hword : Rewrites names "Infinity".toList "Infinity".toList :=
      hnames.rewrites_reserved (by decide)
    cases negative with
    | false => exact hword
    | true =>
      have hminus : Passes names ['-'] := passes_marks _ (by decide)
      exact hminus.append_rewrites hword
  | finite negative m q =>
    exact rewrites_numeral hnames.digits (Binary64.isNumeral_literalText negative m q)

theorem passes_quote {plainOnly : Bool} {text : String}
    (h : Unbroken (Json.quote plainOnly text).toList) :
    Passes names (Json.quote plainOnly text).toList :=
  passes_literal (isLiteral_quote plainOnly text) h

theorem separates_comma (chars : List Char) : Separates (", ".toList ++ chars) :=
  separates_cons (by decide) (by decide) _

theorem passes_comma : Passes names ", ".toList := passes_marks _ (by decide)

mutual

/-- A value written as a document has no names in it. -/
theorem rewrites_write (hnames : names.Proper) : (value : Json) →
    Unbroken (value.write true).toList →
    Rewrites names (value.write true).toList (value.write true).toList
  | .null => by
    intro _
    rw [Json.write]
    exact hnames.rewrites_reserved (by decide)
  | .bool value => by
    intro _
    rw [Json.write]
    cases value <;> exact hnames.rewrites_reserved (by decide)
  | .int value => by
    intro _
    rw [Json.write]
    exact rewrites_numeral hnames.digits (isNumeral_int value)
  | .float value => by
    intro _
    rw [Json.write]
    exact rewrites_literalText hnames value
  | .str value => by
    intro h
    rw [Json.write] at h ⊢
    exact (passes_quote h).rewrites
  | .broken points => by
    intro h
    rw [Json.write] at h ⊢
    exact (passes_literal (isLiteral_quotePoints true points) h).rewrites
  | .arr items => by
    intro h
    rw [Json.write] at h ⊢
    simp only [String.toList_append, String.toList_intercalate, unbroken_append,
      List.append_assoc] at h ⊢
    have hitems := rewrites_writeItems hnames items h.2.1.of_intercalate
    exact (rewrites_intercalate passes_comma separates_comma hitems).enclose
      (passes_marks _ (by decide)) (passes_marks _ (by decide))
      (separates_cons (by decide) (by decide) _)
  | .obj entries => by
    intro h
    rw [Json.write] at h ⊢
    simp only [String.toList_append, String.toList_intercalate, unbroken_append,
      List.append_assoc] at h ⊢
    have hentries := rewrites_writeEntries hnames entries h.2.1.of_intercalate
    exact (rewrites_intercalate passes_comma separates_comma hentries).enclose
      (passes_marks _ (by decide)) (passes_marks _ (by decide))
      (separates_cons (by decide) (by decide) _)

theorem rewrites_writeItems (hnames : names.Proper) : (items : List Json) →
    (∀ part ∈ (Json.writeItems true items).map String.toList, Unbroken part) →
    List.Forall₂ (Rewrites names) ((Json.writeItems true items).map String.toList)
      ((Json.writeItems true items).map String.toList)
  | [] => by
    intro _
    rw [Json.writeItems]
    exact .nil
  | item :: rest => by
    intro h
    rw [Json.writeItems] at h ⊢
    exact .cons (rewrites_write hnames item (h _ (by simp)))
      (rewrites_writeItems hnames rest fun part hmem => h part (List.mem_cons_of_mem _ hmem))

theorem rewrites_writeEntries (hnames : names.Proper) : (entries : List (String × Json)) →
    (∀ part ∈ (Json.writeEntries true entries).map String.toList, Unbroken part) →
    List.Forall₂ (Rewrites names) ((Json.writeEntries true entries).map String.toList)
      ((Json.writeEntries true entries).map String.toList)
  | [] => by
    intro _
    rw [Json.writeEntries]
    exact .nil
  | (key, value) :: rest => by
    intro h
    rw [Json.writeEntries] at h ⊢
    have hentry := h (Json.quote true key ++ ": " ++ value.write true).toList (by simp)
    simp only [String.toList_append, unbroken_append] at hentry
    refine .cons ?_
      (rewrites_writeEntries hnames rest fun part hmem => h part (List.mem_cons_of_mem _ hmem))
    simp only [String.toList_append]
    exact ((passes_quote hentry.1.1).append (passes_marks _ (by decide))).append_rewrites
      (rewrites_write hnames value hentry.2)

end

/-- A name that begins as names of constants do. -/
def isPlainName : List Char → Bool
  | [] => false
  | c :: rest => isNameStart c && rest.all isNameChar

theorem isName_of_isPlainName {name : List Char} (h : isPlainName name = true) : IsName name := by
  cases name with
  | nil => cases h
  | cons c rest =>
    rw [isPlainName, Bool.and_eq_true, List.all_eq_true] at h
    refine ⟨by simp, ?_⟩
    intro d hd
    rcases List.mem_cons.1 hd with rfl | hd
    · exact isNameChar_of_isNameStart h.1
    · exact h.2 d hd

theorem renderKey_of_isPlainName {key : String} (h : isPlainName key.toList = true) :
    renderKey key = key := by
  have hidentifier : isIdentifier key = true := by
    rw [isIdentifier]
    cases hchars : key.toList with
    | nil =>
      rw [hchars] at h
      cases h
    | cons c rest =>
      rw [hchars, isPlainName, Bool.and_eq_true, List.all_eq_true] at h
      have hrest : rest.dropWhile isNameChar = [] := List.dropWhile_eq_nil_iff.2 h.2
      simp [h.1, hrest]
  rw [renderKey, hidentifier, if_pos rfl]

namespace OptionValue

def isLiteralLine : OptionValue → Bool
  | .literal value => decide (Unbroken (OptionValue.literal value).render.toList)
  | .raw _ => false

end OptionValue

theorem rewrites_optionValue (hnames : names.Proper) {value : OptionValue}
    (h : value.isLiteralLine = true) :
    Rewrites names value.render.toList value.render.toList := by
  cases value with
  | raw text => cases h
  | literal value =>
    rw [OptionValue.isLiteralLine, decide_eq_true_eq] at h
    cases value with
    | str text => exact (passes_quote h).rewrites
    | broken points => exact (passes_literal (isLiteral_quotePoints false points) h).rewrites
    | null => exact rewrites_write hnames .null h
    | bool value => exact rewrites_write hnames (.bool value) h
    | int value => exact rewrites_write hnames (.int value) h
    | float value => exact rewrites_write hnames (.float value) h
    | arr items => exact rewrites_write hnames (.arr items) h
    | obj entries => exact rewrites_write hnames (.obj entries) h

/-- Options with plain names and literals that stay on their line. -/
def Options.isPlain (options : Options) : Bool :=
  options.all fun (name, value) => isPlainName name.toList && value.isLiteralLine

theorem rewrites_options (hnames : names.Proper) {options : Options}
    (h : options.isPlain = true) :
    Rewrites names options.render.toList options.render.toList := by
  have hentries : List.Forall₂ (Rewrites names)
      ((options.map fun (name, value) => renderKey name ++ ": " ++ value.render).map String.toList)
      ((options.map fun (name, value) => renderKey name ++ ": " ++ value.render).map
        String.toList) := by
    rw [List.forall₂_same]
    intro part hpart
    simp only [List.map_map, List.mem_map, Function.comp_apply] at hpart
    obtain ⟨⟨name, value⟩, hmem, rfl⟩ := hpart
    have hoption := List.all_eq_true.1 h _ hmem
    rw [Bool.and_eq_true] at hoption
    rw [renderKey_of_isPlainName hoption.1, String.toList_append, String.toList_append]
    exact (passes_key (isName_of_isPlainName hoption.1)).append_rewrites
      (rewrites_optionValue hnames hoption.2)
  simp only [Options.render, String.toList_append, String.toList_intercalate, List.append_assoc]
  exact (rewrites_intercalate passes_comma separates_comma hentries).enclose
    (passes_marks _ (by decide)) (passes_marks _ (by decide))
    (separates_blank (by decide) _)

end Schemata

import Schemata.Doc.Tag
import Schemata.Proofs.Json.Quotation
import Schemata.Proofs.Schema.Decoding
import Schemata.Proofs.Schema.OptionLiterals

/-!
# Literals of option values

The scanner that reads the value of a documentation tag also reads the code of an option value: it
finds the literal that was written and stops where it ends. So the code of an option value shows
the value.
-/

namespace Schemata

open Text Emitted

namespace Doc

/-- The literal that a value is written as. -/
inductive WrittenAs : OptionValue → Lexeme → Prop where
  | str (text : String) : WrittenAs (.literal (.str text)) (.double (Json.quote false text).toList)
  | broken {points : List Nat} (h : holdsHalf points = true) :
    WrittenAs (.literal (.broken points)) (.double (Json.quotePoints false points).toList)
  | int (value : Int) : WrittenAs (.literal (.int value)) (.number (toString value).toList)
  | bool (value : Bool) : WrittenAs (.literal (.bool value)) (.word (.bool value))
  | null : WrittenAs (.literal .null) (.word .null)

/-- The characters that can stand behind the code of a value. -/
def valueEnds : List Char := [',', ' ']

/-! ### Strings -/

theorem untilQuote_append {quote : Char} (hquote : quote ≠ '\\') {inside : List Char}
    (h : isLiteralBody quote inside = true) (rest : List Char) :
    untilQuote quote (inside ++ quote :: rest) = some (inside, rest) := by
  fun_induction isLiteralBody quote inside with
  | case1 =>
    rw [List.nil_append, untilQuote.eq_4 quote quote rest (fun heq => hquote heq)]
    simp
  | case2 c inside ih =>
    rw [Bool.and_eq_true, bne_iff_ne] at h
    rw [List.cons_append, List.cons_append, untilQuote, ih h.2]
    simp [h.1]
  | case3 c inside _ ih =>
    simp only [Bool.and_eq_true, bne_iff_ne] at h
    obtain ⟨⟨⟨hback, hclose⟩, hfeed⟩, hinside⟩ := h
    rw [List.cons_append, untilQuote.eq_4 quote c _ (fun heq => hback heq), ih hinside]
    simp [hclose]

theorem lexeme?_double {inside : List Char} (h : isLiteralBody '"' inside = true)
    (rest : List Char) :
    lexeme? ('"' :: (inside ++ ['"']) ++ rest) =
      some (.double ('"' :: (inside ++ ['"'])), rest) := by
  rw [List.cons_append, List.append_assoc, List.singleton_append, lexeme?,
    untilQuote_append (by decide) h]
  rfl

theorem lexeme?_quote (text : String) (rest : List Char) :
    lexeme? ((Json.quote false text).toList ++ rest) =
      some (.double (Json.quote false text).toList, rest) := by
  rw [Json.toList_quote]
  exact lexeme?_double (isLiteralBody_flatMap (isLiteralBody_escapeChar false) _) rest

theorem lexeme?_quotePoints (points : List Nat) (rest : List Char) :
    lexeme? ((Json.quotePoints false points).toList ++ rest) =
      some (.double (Json.quotePoints false points).toList, rest) := by
  rw [Json.toList_quotePoints]
  exact lexeme?_double (isLiteralBody_flatMap (isLiteralBody_escapePoint false) _) rest

/-! ### Whole numbers -/

theorem wholeDigits_append (n : Nat) {rest : List Char} (hrest : StopsAt valueEnds rest) :
    wholeDigits (Nat.toDigits 10 n ++ rest) = Nat.toDigits 10 n := by
  rcases Nat.eq_zero_or_pos n with rfl | hpos
  · rfl
  · obtain ⟨c, more, hdigits, hone, hnine⟩ := head_toDigits hpos
    have hmore : ∀ d ∈ more, isDecimal d = true := by
      intro d hd
      apply isDecimal_of_isDigit
      apply isDigit_toDigits n
      rw [hdigits]
      exact List.mem_cons_of_mem c hd
    have hstop : rest.takeWhile isDecimal = [] := by
      have hall : valueEnds.all (!isDecimal ·) = true := by decide
      cases rest with
      | nil => rfl
      | cons d rest =>
        have hd := List.all_eq_true.1 hall d (stopsAt_cons.1 hrest)
        rw [Bool.not_eq_true'] at hd
        rw [List.takeWhile_cons, hd]
        rfl
    have hzero : c ≠ '0' := by
      rintro rfl
      exact absurd hone (by decide)
    rw [hdigits, List.cons_append, wholeDigits.eq_2 c _ hzero, decide_eq_true hone,
      decide_eq_true hnine, List.takeWhile_append_of_pos hmore, hstop, List.append_nil]
    rfl

theorem places_eq_nil {rest : List Char} (hrest : StopsAt valueEnds rest) :
    placeDigits rest = [] ∧ exponentDigits rest = [] := by
  cases rest with
  | nil => exact ⟨rfl, rfl⟩
  | cons c rest =>
    have hends : ∀ c ∈ valueEnds, ∀ rest, placeDigits (c :: rest) = [] ∧
        exponentDigits (c :: rest) = [] := by
      simp [valueEnds, placeDigits, exponentDigits]
    exact hends c (stopsAt_cons.1 hrest) rest

theorem toDigits_append_ne_minus (n : Nat) (rest tail : List Char) :
    Nat.toDigits 10 n ++ rest ≠ '-' :: tail := by
  intro h
  obtain ⟨c, more, hdigits⟩ := List.exists_cons_of_ne_nil (show Nat.toDigits 10 n ≠ [] by simp)
  have hdigit := isDigit_toDigits n c (by simp [hdigits])
  rw [hdigits] at h
  obtain ⟨rfl, -⟩ := List.cons.inj h
  exact absurd hdigit (by decide)

theorem numberChars_int (value : Int) {rest : List Char} (hrest : StopsAt valueEnds rest) :
    numberChars ((toString value).toList ++ rest) = (toString value).toList := by
  rw [toList_int]
  split
  · have hbody : ('-' :: (Nat.toDigits 10 value.natAbs ++ rest)).drop ['-'].length =
        Nat.toDigits 10 value.natAbs ++ rest := rfl
    rw [List.singleton_append, List.cons_append, numberChars]
    simp only [hbody, wholeDigits_append _ hrest, List.drop_left, (places_eq_nil hrest).1]
    simp [(places_eq_nil hrest).2]
  · rw [List.nil_append, numberChars]
    · simp [wholeDigits_append _ hrest, places_eq_nil hrest]
    · exact fun tail htail => toDigits_append_ne_minus _ rest tail htail

/-- What holds of the sign and of each digit holds of every character of a whole number. -/
theorem all_numeral {p : Char → Bool} (h : "-0123456789".toList.all p = true) (value : Int) :
    ∀ c ∈ (toString value).toList, p c = true := by
  intro c hc
  apply List.all_eq_true.1 h
  rw [toList_int, List.mem_append] at hc
  rcases hc with hsign | hdigit
  · split at hsign
    · rw [List.mem_singleton.1 hsign]
      decide
    · cases hsign
  · exact List.mem_cons_of_mem _ (mem_digits_of_isDigit (isDigit_toDigits _ c hdigit))

theorem numeral_ne_nil (value : Int) : (toString value).toList ≠ [] := by
  rw [toList_int]
  simp

theorem lexeme?_int (value : Int) {rest : List Char} (hrest : StopsAt valueEnds rest) :
    lexeme? ((toString value).toList ++ rest) = some (.number (toString value).toList, rest) := by
  have hquote := all_numeral (p := fun c => c != '"' && c != '\'') (by decide) value
  have hhead : ∀ c tail, (toString value).toList ++ rest = c :: tail → c ≠ '"' ∧ c ≠ '\'' := by
    intro c tail htail
    obtain ⟨d, more, hdigits⟩ := List.exists_cons_of_ne_nil (numeral_ne_nil value)
    rw [hdigits] at htail
    obtain ⟨rfl, -⟩ := List.cons.inj htail
    simpa using hquote d (hdigits ▸ List.mem_cons_self)
  unfold lexeme?
  split
  · rename_i tail htail
    exact absurd rfl (hhead '"' tail htail).1
  · rename_i tail htail
    exact absurd rfl (hhead '\'' tail htail).2
  · simp only [numberChars_int value hrest, List.isEmpty_eq_false_iff.2 (numeral_ne_nil value),
      List.drop_left]
    rfl

theorem numeral_injective {first second : Int}
    (h : (toString first).toList = (toString second).toList) : first = second := by
  have hdigits : ∀ m n, Nat.toDigits 10 m = Nat.toDigits 10 n → m = n := by
    intro m n hmn
    rw [← digitsValue_toDigits m, hmn, digitsValue_toDigits]
  have hminus : ∀ n tail, Nat.toDigits 10 n ≠ '-' :: tail := by
    intro n tail htail
    exact toDigits_append_ne_minus n [] tail (by rw [List.append_nil, htail])
  rw [toList_int, toList_int] at h
  split at h <;> split at h
  · have habs := hdigits _ _ (List.append_cancel_left h)
    omega
  · exact absurd h.symm (hminus _ _)
  · exact absurd h (hminus _ _)
  · have habs := hdigits _ _ h
    omega

/-! ### Values -/

theorem lexeme?_render {value : OptionValue} {lexeme : Lexeme} (h : WrittenAs value lexeme)
    {rest : List Char} (hrest : StopsAt valueEnds rest) :
    lexeme? (value.render.toList ++ rest) = some (lexeme, rest) := by
  cases h with
  | str text => exact lexeme?_quote text rest
  | broken => exact lexeme?_quotePoints _ rest
  | int value => exact lexeme?_int value hrest
  | bool value => cases value <;> rfl
  | null => rfl

theorem WrittenAs.inj {first second : OptionValue} {lexeme other : Lexeme}
    (hfirst : WrittenAs first lexeme) (hsecond : WrittenAs second other) (h : lexeme = other) :
    first = second := by
  cases hfirst with
  | str text =>
    cases hsecond with
    | str text' => rw [Json.quote_injective (String.toList_inj.1 (Lexeme.double.inj h))]
    | broken hpoints' =>
      exact absurd (String.toList_inj.1 (Lexeme.double.inj h)).symm
        (Json.quotePoints_ne_quote hpoints' text)
    | _ => cases h
  | broken hpoints =>
    cases hsecond with
    | str text' =>
      exact absurd (String.toList_inj.1 (Lexeme.double.inj h))
        (Json.quotePoints_ne_quote hpoints text')
    | broken hpoints' =>
      rw [Json.quotePoints_injective (lt_of_holdsHalf hpoints) (lt_of_holdsHalf hpoints')
        (String.toList_inj.1 (Lexeme.double.inj h))]
    | _ => cases h
  | int value =>
    cases hsecond with
    | int value' => rw [numeral_injective (Lexeme.number.inj h)]
    | _ => cases h
  | bool value =>
    cases hsecond with
    | bool value' => rw [Lexeme.word.inj h]
    | _ => cases h
  | null =>
    cases hsecond with
    | null => rfl
    | _ => cases h

/-- The values that are written as literals of the tags. -/
theorem readable_optionValue {value : OptionValue} {lexeme : Lexeme} (h : WrittenAs value lexeme) :
    Readable (fun value : OptionValue => value.render.toList)
      (fun other => ∃ lexeme, WrittenAs other lexeme) valueEnds value := by
  rintro other r s ⟨lexeme', hother⟩ hr hs heq
  have hlexeme := congrArg lexeme? heq
  rw [lexeme?_render h hr, lexeme?_render hother hs, Option.some.injEq, Prod.mk.injEq] at hlexeme
  exact ⟨h.inj hother hlexeme.1, hlexeme.2⟩

end Doc

end Schemata

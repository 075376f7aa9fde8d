import Schemata.Proofs.Doc.Literals
import Schemata.Proofs.Schema.CleanCode

/-!
# The arguments of a constructor

Expressions, options and the binding of a fixed point stand side by side between the parentheses of
a constructor. The first characters of an argument, and what stands behind a name at its start, tell
which of them it is: a word, a generic call, a constructor, a binding, a list, an object or options.
-/

namespace Schemata

open Text Emitted

/-! ### Words -/

theorem isName_of_isDigitRow {chars : List Char} (h : isDigitRow chars = true) : IsName chars := by
  simp only [isDigitRow, Bool.and_eq_true, Bool.not_eq_true', List.isEmpty_eq_false_iff,
    List.all_eq_true] at h
  exact ⟨h.1, fun c hc => isNameChar_of_isDecimal (h.2 c hc)⟩

theorem isWordOrLiteral_raw {chars : List Char} (h : isCleanText chars = true) :
    IsWordOrLiteral chars :=
  (Bool.or_eq_true_iff.1 h).imp isName_of_isDigitRow id

theorem isWordOrLiteral_key {chars : List Char} (h : isCleanKey chars = true) :
    IsWordOrLiteral chars :=
  (Bool.or_eq_true_iff.1 h).imp isName_of_isPlainName id

theorem isWordOrLiteral_name {chars : List Char} (h : isPlainName chars = true) :
    IsWordOrLiteral chars :=
  .inl (isName_of_isPlainName h)

/-- No name is a row of digits or a literal. -/
theorem ref_ne_raw {name text : List Char} (hname : isPlainName name = true)
    (htext : isCleanText text = true) : name ≠ text := by
  intro heq
  subst heq
  rcases Bool.or_eq_true_iff.1 htext with hdigits | hliteral
  · cases name with
    | nil => cases hname
    | cons c more =>
      rw [isPlainName, Bool.and_eq_true] at hname
      rw [isDigitRow, List.all_cons, Bool.and_eq_true, Bool.and_eq_true] at hdigits
      rw [isNameStart_eq_false_of_isDecimal hdigits.2.1] at hname
      cases hname.1
  · exact name_ne_literal (isName_of_isPlainName hname) hliteral (r := []) (s := []) rfl

/-! ### Options -/

theorem exists_writtenAs {value : OptionValue} (h : value.isScalar = true) :
    ∃ lexeme, Doc.WrittenAs value lexeme := by
  cases value with
  | raw text => cases h
  | literal value =>
    cases value with
    | str text => exact ⟨_, .str text⟩
    | int value => exact ⟨_, .int value⟩
    | bool value => exact ⟨_, .bool value⟩
    | null => exact ⟨_, .null⟩
    | float value => cases h
    | broken points => exact ⟨_, .broken h⟩
    | arr items => cases h
    | obj entries => cases h

theorem readable_entry {entry : String × OptionValue} (hentry : isCleanEntry entry = true) :
    Readable entryCode (fun other => isCleanEntry other = true) Doc.valueEnds entry := by
  intro other r s hother hr hs h
  rw [isCleanEntry, Bool.and_eq_true] at hentry hother
  obtain ⟨lexeme, hwritten⟩ := exists_writtenAs hentry.2
  rw [entryCode, entryCode, List.append_assoc, List.append_assoc] at h
  obtain ⟨hkey, hrest⟩ := (isWordOrLiteral_name hentry.1).append_cons_inj
    (isWordOrLiteral_name hother.1) (by decide) h
  obtain ⟨hcode, rfl⟩ := Doc.readable_optionValue hwritten other.2 r s (exists_writtenAs hother.2)
    hr hs (List.cons.inj hrest).2
  exact ⟨Prod.ext (String.toList_inj.1 hkey) hcode, rfl⟩

theorem options_append_inj {options others : Options} (hoptions : options.isClean = true)
    (hothers : others.isClean = true) {r s : List Char}
    (h : options.render.toList ++ r = others.render.toList ++ s) : options = others ∧ r = s := by
  rw [Options.toList_render hoptions, Options.toList_render hothers] at h
  simp only [List.cons_append, List.append_assoc, List.nil_append, List.cons.injEq, true_and] at h
  have hmark : ',' ∈ Doc.valueEnds := by decide
  have hstart : ∀ entry, isCleanEntry entry = true →
      ∃ c more, entryCode entry = c :: more ∧ c ≠ ' ' := by
    intro entry hentry
    obtain ⟨c, more, hchars, hc⟩ := (isWordOrLiteral_name (Bool.and_eq_true_iff.1 hentry).1).head
    rw [entryCode, hchars]
    refine ⟨c, _, rfl, ?_⟩
    rintro rfl
    exact hc (by decide)
  obtain ⟨rfl, hclose⟩ := separated_append_inj hmark (by decide) (by decide) hstart
    (List.all_eq_true.1 hoptions) (List.all_eq_true.1 hothers)
    (fun entry hmem => readable_entry (List.all_eq_true.1 hoptions entry hmem)) h
  exact ⟨rfl, (List.cons.inj hclose).2⟩

/-! ### Arguments -/

/-- What can stand between the parentheses of a constructor. -/
inductive Argument where
  | expr (value : Expr)
  | options (entries : Options)
  | binding (name : String) (body : Expr)

/-- The arguments of a call with its options behind them, or the binding of a fixed point. -/
def Expr.arguments : Expr → List Argument
  | .call _ args options => args.map .expr ++ if options.isEmpty then [] else [.options options]
  | .recursive name body => [.binding name body]
  | _ => []

/-- The name of a constructor; fixed points have one of their own. -/
def Expr.constructorName : Expr → String
  | .call name _ _ => name
  | _ => "Recursive"

theorem Expr.mem_arguments_call {name : String} {args : List Expr} {options : Options}
    {argument : Argument} (h : argument ∈ (Expr.call name args options).arguments) :
    (∃ arg ∈ args, argument = .expr arg) ∨ argument = .options options := by
  rw [arguments, List.mem_append, List.mem_map] at h
  rcases h with ⟨arg, harg, rfl⟩ | hoptions
  · exact Or.inl ⟨arg, harg, rfl⟩
  · split at hoptions
    · cases hoptions
    · exact Or.inr (List.mem_singleton.1 hoptions)

namespace Argument

def code (level : Int) : Argument → List Char
  | .expr value => value.code level
  | .options entries => entries.render.toList
  | .binding name body => name.toList ++ ([' ', '=', '>', ' '] ++ body.code level)

def Clean : Argument → Prop
  | .expr value => value.Clean
  | .options entries => entries.isClean = true
  | .binding name body => isPlainName name.toList = true ∧ body.Clean

/-- The characters that can stand behind an argument. -/
def ends : List Char := [',', ')', ']', '\n']

theorem ends_subset_wordEnds : ends ⊆ wordEnds := by decide

/-- The kinds of arguments that the first characters of the code tell apart. References and texts
are both words, and a fixed point looks like any other constructor. -/
inductive Shape where
  | word
  | applied
  | constructor
  | binding
  | array
  | object
  | options
  deriving DecidableEq

def shape : Argument → Shape
  | .expr (.call _ _ _) | .expr (.recursive _ _) => .constructor
  | .expr (.apply _ _) => .applied
  | .expr (.array _) => .array
  | .expr (.object _) => .object
  | .expr _ => .word
  | .options _ => .options
  | .binding _ _ => .binding

def shapeBehind : List Char → Shape
  | '(' :: _ => .applied
  | '.' :: _ => .constructor
  | ' ' :: _ => .binding
  | _ => .word

def shapeOf : List Char → Shape
  | '[' :: _ => .array
  | '{' :: ' ' :: _ => .options
  | '{' :: _ => .object
  | text => shapeBehind (text.dropWhile isNameChar)

theorem shapeOf_name {name : List Char} (h : IsName name) {rest : List Char}
    (hrest : StopsAt wordEnds rest) : shapeOf (name ++ rest) = shapeBehind rest := by
  have hdrop := dropWhile_isNameChar h.2 hrest.not_isNameChar
  obtain ⟨c, more, rfl⟩ := List.exists_cons_of_ne_nil h.1
  have hother : ∀ d tail, isNameChar d = false → c :: more ++ rest ≠ d :: tail := by
    rintro d tail hd heq
    obtain ⟨rfl, -⟩ := List.cons.inj heq
    rw [h.2 c List.mem_cons_self] at hd
    cases hd
  rw [shapeOf.eq_4 _ (fun _ => hother '[' _ (by decide)) (fun _ => hother '{' _ (by decide))
    (fun _ => hother '{' _ (by decide)), hdrop]

theorem shapeOf_literal {literal : List Char} (h : isLiteral literal = true) (rest : List Char) :
    shapeOf (literal ++ rest) = .word := by
  obtain ⟨quote, inside, rfl, hquote, -⟩ := isLiteral_eq_true h
  simp only [isQuote, Bool.or_eq_true, beq_iff_eq] at hquote
  rcases hquote with (rfl | rfl) | rfl <;> rfl

theorem shapeBehind_of_stopsAt {rest : List Char} (h : StopsAt ends rest) :
    shapeBehind rest = .word := by
  cases rest with
  | nil => rfl
  | cons c rest =>
    have hends : ∀ c ∈ ends, shapeBehind (c :: rest) = .word := by simp [ends, shapeBehind]
    exact hends c (stopsAt_cons.1 h)

theorem shapeOf_code {argument : Argument} (h : argument.Clean) (level : Int) {rest : List Char}
    (hrest : StopsAt ends rest) : shapeOf (argument.code level ++ rest) = argument.shape := by
  have hword := hrest.mono ends_subset_wordEnds
  cases argument with
  | options entries =>
    rw [code, Options.toList_render h]
    rfl
  | binding name body =>
    rw [code, List.append_assoc, shapeOf_name (isName_of_isPlainName h.1) (by simp [wordEnds])]
    rfl
  | expr value =>
    cases value with
    | absent => cases h.here
    | bare => cases h.here
    | call name args options => rfl
    | recursive name body => rfl
    | array items => rfl
    | object fields => cases fields <;> rfl
    | apply callee args =>
      rw [code, Expr.code, List.append_assoc,
        shapeOf_name (isName_of_isPlainName h.here) (by simp [wordEnds])]
      rfl
    | ref name =>
      rw [code, Expr.code, shapeOf_name (isName_of_isPlainName h.here) hword,
        shapeBehind_of_stopsAt hrest]
      rfl
    | raw text =>
      rw [code, Expr.code]
      rcases isWordOrLiteral_raw h.here with hname | hliteral
      · rw [shapeOf_name hname hword, shapeBehind_of_stopsAt hrest]
        rfl
      · exact shapeOf_literal hliteral rest

/-- No argument begins with a character that ends one. -/
theorem head_code {argument : Argument} (h : argument.Clean) (level : Int) :
    ∃ c more, argument.code level = c :: more ∧ c ∉ ends := by
  have hword : ∀ {chars : List Char}, IsWordOrLiteral chars → ∀ rest,
      ∃ c more, chars ++ rest = c :: more ∧ c ∉ ends := by
    intro chars hchars rest
    obtain ⟨c, more, rfl, hc⟩ := hchars.head
    exact ⟨c, more ++ rest, rfl, fun hend => hc (ends_subset_wordEnds hend)⟩
  cases argument with
  | options entries =>
    rw [code, Options.toList_render h]
    exact ⟨'{', _, rfl, by decide⟩
  | binding name body => exact hword (isWordOrLiteral_name h.1) _
  | expr value =>
    cases value with
    | absent => cases h.here
    | bare => cases h.here
    | call name args options => exact ⟨'T', _, rfl, by decide⟩
    | recursive name body => exact ⟨'T', _, rfl, by decide⟩
    | array items => exact ⟨'[', _, rfl, by decide⟩
    | object fields =>
      cases fields with
      | nil => exact ⟨'{', _, rfl, by decide⟩
      | cons field fields => exact ⟨'{', _, rfl, by decide⟩
    | apply callee args => exact hword (isWordOrLiteral_name h.here) _
    | ref name =>
      have hname := hword (isWordOrLiteral_name h.here) []
      rwa [List.append_nil] at hname
    | raw text =>
      have htext := hword (isWordOrLiteral_raw h.here) []
      rwa [List.append_nil] at htext

end Argument

end Schemata

import Schemata.Proofs.Schema.OptionLiterals

/-!
# Renamed expressions

Renaming an expression gives new names to the constants it refers to, calls or binds; members, keys
and literals stay. Renaming the code of an expression name by name gives the code of the renamed
expression.
-/

namespace Schemata

open Text Emitted

/-- Looking names up gives the same as a function on names. -/
def Emitted.Names.Gives (names : Names) (value : String → String) : Prop :=
  ∀ name, (value name).toList = (names.get? name.toList).getD name.toList

variable {names : Names}

namespace Expr

mutual

/-- The expression with new names for the constants it refers to, calls or binds. -/
def rename (value : String → String) : Expr → Expr
  | .call name args options => .call name (renameAll value args) options
  | .ref name => .ref (value name)
  | .apply callee args => .apply (value callee) (renameAll value args)
  | .raw text => .raw text
  | .array items => .array (renameAll value items)
  | .object fields => .object (renameFields value fields)
  | .recursive name body => .recursive (value name) (rename value body)
  | .absent => .absent
  | .bare => .bare

def renameAll (value : String → String) : List Expr → List Expr
  | [] => []
  | expr :: rest => rename value expr :: renameAll value rest

/-- The same for fields; their keys stay. -/
def renameFields (value : String → String) : List (String × Expr) → List (String × Expr)
  | [] => []
  | (key, expr) :: rest => (key, rename value expr) :: renameFields value rest

end

mutual

/-- Names are names, texts are numbers or literals, and nothing is missing. -/
def isPlain : Expr → Bool
  | .call name args options =>
    decide (IsName name.toList) && options.isPlain && isPlainAll args
  | .ref name => decide (IsName name.toList)
  | .apply callee args => decide (IsName callee.toList) && isPlainAll args
  | .raw text =>
    (!text.toList.isEmpty && isNumeral false text.toList) ||
      (isLiteral text.toList && decide (Unbroken text.toList))
  | .array items => isPlainAll items
  | .object fields => isPlainFields fields
  | .recursive name body => decide (IsName name.toList) && isPlain body
  | .absent | .bare => false

def isPlainAll : List Expr → Bool
  | [] => true
  | expr :: rest => isPlain expr && isPlainAll rest

/-- The same for fields, whose keys are names or literals. -/
def isPlainFields : List (String × Expr) → Bool
  | [] => true
  | (key, value) :: rest =>
    (decide (IsName key.toList) || (isLiteral key.toList && decide (Unbroken key.toList))) &&
      isPlain value && isPlainFields rest

end

variable {value : String → String}

mutual

/-- Names that stay leave the expression as it is. -/
theorem rename_eq_self (h : ∀ name, value name = name) : (expr : Expr) → expr.rename value = expr
  | .call name args options => by rw [rename, renameAll_eq_self h args]
  | .ref name => by rw [rename, h]
  | .apply callee args => by rw [rename, h, renameAll_eq_self h args]
  | .raw text => by rw [rename]
  | .array items => by rw [rename, renameAll_eq_self h items]
  | .object fields => by rw [rename, renameFields_eq_self h fields]
  | .recursive name body => by rw [rename, h, rename_eq_self h body]
  | .absent => by rw [rename]
  | .bare => by rw [rename]

theorem renameAll_eq_self (h : ∀ name, value name = name) : (exprs : List Expr) →
    renameAll value exprs = exprs
  | [] => by rw [renameAll]
  | expr :: rest => by rw [renameAll, rename_eq_self h expr, renameAll_eq_self h rest]

theorem renameFields_eq_self (h : ∀ name, value name = name) :
    (fields : List (String × Expr)) → renameFields value fields = fields
  | [] => by rw [renameFields]
  | (key, expr) :: rest => by
    rw [renameFields, rename_eq_self h expr, renameFields_eq_self h rest]

end

theorem rewrites_arguments {head head' : List Char} {sources targets : List (List Char)}
    (hhead : Rewrites names head head') (hargs : List.Forall₂ (Rewrites names) sources targets) :
    Rewrites names (head ++ (['('] ++ (", ".toList.intercalate sources ++ [')'])))
      (head' ++ (['('] ++ (", ".toList.intercalate targets ++ [')']))) := by
  have hinner := (rewrites_intercalate passes_comma separates_comma hargs).enclose
    (passes_marks ['('] (by decide)) (passes_marks [')'] (by decide))
    (separates_cons (by decide) (by decide) _)
  exact hhead.append hinner (separates_cons (by decide) (by decide) _)

theorem passes_indentation (level : Int) : Passes names (indentation level).toList := by
  rw [toList_indentation]
  refine passes_marks _ (List.all_eq_true.2 ?_)
  intro c hc
  rw [(List.mem_replicate.1 hc).2]
  decide

theorem rewrites_fieldLine {key : String} (hkey : IsName key.toList ∨
      isLiteral key.toList = true ∧ Unbroken key.toList) (level : Int) {source target : String}
    (h : Rewrites names source.toList target.toList) :
    Rewrites names (fieldLine level key source).toList (fieldLine level key target).toList := by
  have hne : (key == "") = false := by
    rw [beq_eq_false_iff_ne]
    rintro rfl
    rcases hkey with hname | ⟨hliteral, -⟩
    · exact hname.1 rfl
    · exact absurd hliteral (by decide)
  have hcolon : Passes names ": ".toList := passes_marks _ (by decide)
  have hpasses : Passes names (key.toList ++ ": ".toList) := by
    rcases hkey with hname | ⟨hliteral, hunbroken⟩
    · exact passes_key hname
    · exact (passes_literal hliteral hunbroken).append hcolon
  simp only [fieldLine, hne, Bool.false_eq_true, if_false, String.toList_append]
  exact (passes_indentation (level + 1)).append_rewrites (hpasses.append_rewrites h)

mutual

/-- The code of a renamed expression is the renamed code of the expression. -/
theorem rewrites_render (hnames : names.Proper) (hvalue : names.Gives value) :
    (expr : Expr) → (level : Int) → expr.isPlain = true →
    ∃ source target, expr.render level = .ok source ∧
      (expr.rename value).render level = .ok target ∧ Rewrites names source.toList target.toList
  | .absent, _, h | .bare, _, h => by cases h
  | .ref name, level, h => by
    rw [isPlain, decide_eq_true_eq] at h
    refine ⟨name, value name, by rw [render], by rw [rename, render], ?_⟩
    rw [hvalue]
    exact rewrites_name h
  | .raw text, level, h => by
    refine ⟨text, text, by rw [render], by rw [rename, render], ?_⟩
    simp only [isPlain, Bool.or_eq_true, Bool.and_eq_true, decide_eq_true_eq] at h
    rcases h with ⟨-, hnumeral⟩ | ⟨hliteral, hunbroken⟩
    · exact rewrites_numeral hnames.digits hnumeral
    · exact (passes_literal hliteral hunbroken).rewrites
  | .call name args options, level, h => by
    simp only [isPlain, Bool.and_eq_true, decide_eq_true_eq] at h
    obtain ⟨⟨hname, hoptions⟩, hargs⟩ := h
    obtain ⟨sources, targets, hsources, htargets, hrewrites⟩ :=
      rewrites_renderAll hnames hvalue args level hargs
    have hhead : Rewrites names ("Type".toList ++ '.' :: name.toList)
        ("Type".toList ++ '.' :: name.toList) :=
      rewrites_member (by decide) (hnames.reserved "Type" (by decide)) hname
    refine ⟨_, _, by rw [render, hsources]; rfl, by rw [rename, render, htargets]; rfl, ?_⟩
    split
    · simpa [String.toList_append, String.toList_intercalate] using
        rewrites_arguments hhead hrewrites
    · have hall := List.rel_append hrewrites
        (List.Forall₂.cons (rewrites_options hnames hoptions) .nil)
      simpa [String.toList_append, String.toList_intercalate] using rewrites_arguments hhead hall
  | .apply callee args, level, h => by
    simp only [isPlain, Bool.and_eq_true, decide_eq_true_eq] at h
    obtain ⟨sources, targets, hsources, htargets, hrewrites⟩ :=
      rewrites_renderAll hnames hvalue args level h.2
    have hhead : Rewrites names callee.toList (value callee).toList := by
      rw [hvalue]
      exact rewrites_name h.1
    refine ⟨_, _, by rw [render, hsources]; rfl, by rw [rename, render, htargets]; rfl, ?_⟩
    simpa [String.toList_append, String.toList_intercalate] using
      rewrites_arguments hhead hrewrites
  | .array items, level, h => by
    rw [isPlain] at h
    obtain ⟨sources, targets, hsources, htargets, hrewrites⟩ :=
      rewrites_renderAll hnames hvalue items level h
    refine ⟨_, _, by rw [render, hsources]; rfl, by rw [rename, render, htargets]; rfl, ?_⟩
    have hinner := (rewrites_intercalate passes_comma separates_comma hrewrites).enclose
      (passes_marks ['['] (by decide)) (passes_marks [']'] (by decide))
      (separates_cons (by decide) (by decide) _)
    simpa [String.toList_append, String.toList_intercalate] using hinner
  | .object fields, level, h => by
    rw [isPlain] at h
    obtain ⟨sources, targets, hsources, htargets, hrewrites⟩ :=
      rewrites_renderFields hnames hvalue fields level h
    have hlength := hrewrites.length_eq
    rw [List.length_map, List.length_map] at hlength
    cases sources with
    | nil =>
      have hempty : targets = [] := List.length_eq_zero_iff.1 hlength.symm
      subst hempty
      refine ⟨_, _, by rw [render, hsources]; rfl, by rw [rename, render, htargets]; rfl, ?_⟩
      exact (passes_marks _ (by decide)).rewrites
    | cons source sources =>
      obtain ⟨target, targets, rfl⟩ := List.exists_cons_of_length_eq_add_one hlength.symm
      refine ⟨_, _, by rw [render, hsources]; rfl, by rw [rename, render, htargets]; rfl, ?_⟩
      have hclosing : Passes names ('\n' :: ((indentation level).toList ++ ['}'])) :=
        (passes_marks ['\n'] (by decide)).append
          ((passes_indentation level).append (passes_marks _ (by decide)))
      have hinner := (rewrites_intercalate (passes_marks ",\n".toList (by decide))
        (fun _ => separates_cons (by decide) (by decide) _)
        hrewrites).enclose (passes_marks "\x7b\n".toList (by decide)) hclosing
        (separates_feed _)
      simpa [String.toList_append, String.toList_intercalate] using hinner
  | .recursive name body, level, h => by
    simp only [isPlain, Bool.and_eq_true, decide_eq_true_eq] at h
    obtain ⟨source, target, hsource, htarget, hrewrites⟩ :=
      rewrites_render hnames hvalue body level h.2
    refine ⟨_, _, by rw [render, hsource]; rfl, by rw [rename, render, htarget]; rfl, ?_⟩
    have hhead : Rewrites names ("Type".toList ++ '.' :: "Recursive".toList)
        ("Type".toList ++ '.' :: "Recursive".toList) :=
      rewrites_member (by decide) (hnames.reserved "Type" (by decide)) (by decide)
    have hbinder : Rewrites names name.toList (value name).toList := by
      rw [hvalue]
      exact rewrites_name h.1
    have harrow := hrewrites.enclose (passes_marks " => ".toList (by decide))
      (passes_marks [')'] (by decide))
      (separates_cons (by decide) (by decide) _)
    have hbound := (passes_marks ['('] (by decide)).append_rewrites
      (hbinder.append harrow (separates_blank (by decide) _))
    have hall := hhead.append hbound
      (separates_cons (by decide) (by decide) _)
    simpa [String.toList_append] using hall

theorem rewrites_renderAll (hnames : names.Proper) (hvalue : names.Gives value) :
    (exprs : List Expr) → (level : Int) → isPlainAll exprs = true →
    ∃ sources targets, renderAll level exprs = .ok sources ∧
      renderAll level (renameAll value exprs) = .ok targets ∧
      List.Forall₂ (Rewrites names) (sources.map String.toList) (targets.map String.toList)
  | [], level, _ => ⟨[], [], by rw [renderAll], by rw [renameAll, renderAll], .nil⟩
  | expr :: rest, level, h => by
    rw [isPlainAll, Bool.and_eq_true] at h
    obtain ⟨source, target, hsource, htarget, hfirst⟩ :=
      rewrites_render hnames hvalue expr level h.1
    obtain ⟨sources, targets, hsources, htargets, hrest⟩ :=
      rewrites_renderAll hnames hvalue rest level h.2
    refine ⟨source :: sources, target :: targets, ?_, ?_, .cons hfirst hrest⟩
    · rw [renderAll, hsource, hsources]
      rfl
    · rw [renameAll, renderAll, htarget, htargets]
      rfl

theorem rewrites_renderFields (hnames : names.Proper) (hvalue : names.Gives value) :
    (fields : List (String × Expr)) → (level : Int) → isPlainFields fields = true →
    ∃ sources targets, renderFields level fields = .ok sources ∧
      renderFields level (renameFields value fields) = .ok targets ∧
      List.Forall₂ (Rewrites names) (sources.map String.toList) (targets.map String.toList)
  | [], level, _ => ⟨[], [], by rw [renderFields], by rw [renameFields, renderFields], .nil⟩
  | (key, expr) :: rest, level, h => by
    simp only [isPlainFields, Bool.and_eq_true, Bool.or_eq_true, decide_eq_true_eq] at h
    obtain ⟨source, target, hsource, htarget, hfirst⟩ :=
      rewrites_render hnames hvalue expr (level + 1) h.1.2
    obtain ⟨sources, targets, hsources, htargets, hrest⟩ :=
      rewrites_renderFields hnames hvalue rest level h.2
    refine ⟨fieldLine level key source :: sources, fieldLine level key target :: targets, ?_, ?_,
      .cons (rewrites_fieldLine h.1.1 level hfirst) hrest⟩
    · rw [renderFields, hsource, hsources]
      rfl
    · rw [renameFields, renderFields, htarget, htargets]
      rfl

end

/-! ### Lines of plain expressions -/

theorem head_isLiteral {chars : List Char} (h : isLiteral chars = true) :
    ∃ c rest, chars = c :: rest ∧ isQuote c = true := by
  obtain ⟨quote, inside, rfl, hquote, -⟩ := isLiteral_eq_true h
  exact ⟨quote, inside ++ [quote], rfl, hquote⟩

theorem isFieldName_of_plain {key : List Char}
    (h : IsName key ∨ isLiteral key = true ∧ Unbroken key) :
    Unbroken key ∧ isFieldName key = true := by
  rcases h with hname | ⟨hliteral, hunbroken⟩
  · exact ⟨hname.unbroken, by simp [isFieldName, hname]⟩
  · obtain ⟨c, rest, rfl, hquote⟩ := head_isLiteral hliteral
    exact ⟨hunbroken, by simp [isFieldName, hquote]⟩

theorem keepsLines_options {options : Options} (h : options.isPlain = true) :
    options.keepsLines = true := by
  refine List.all_eq_true.2 ?_
  rintro ⟨name, value⟩ hmem
  have hoption := List.all_eq_true.1 h _ hmem
  rw [Bool.and_eq_true] at hoption
  rw [Bool.and_eq_true, decide_eq_true_eq, decide_eq_true_eq,
    renderKey_of_isPlainName hoption.1]
  refine ⟨(isName_of_isPlainName hoption.1).unbroken, ?_⟩
  cases value with
  | raw text => cases hoption.2
  | literal value => simpa [OptionValue.isLiteralLine] using hoption.2

mutual

/-- No text in a plain expression breaks a line. -/
theorem keepsLines_of_isPlain : (expr : Expr) → expr.isPlain = true → expr.keepsLines = true
  | .absent, h | .bare, h => by cases h
  | .ref name, h => by
    rw [isPlain, decide_eq_true_eq] at h
    simp [keepsLines, h.unbroken]
  | .raw text, h => by
    simp only [isPlain, Bool.or_eq_true, Bool.and_eq_true, decide_eq_true_eq] at h
    rw [keepsLines, decide_eq_true_eq]
    rcases h with ⟨-, hnumeral⟩ | ⟨-, hunbroken⟩
    · exact unbroken_of_isNumeral hnumeral
    · exact hunbroken
  | .call name args options, h => by
    simp only [isPlain, Bool.and_eq_true, decide_eq_true_eq] at h
    simp [keepsLines, h.1.1.unbroken, keepsLines_options h.1.2,
      keepsLinesAll_of_isPlainAll args h.2]
  | .apply callee args, h => by
    simp only [isPlain, Bool.and_eq_true, decide_eq_true_eq] at h
    simp [keepsLines, h.1.unbroken, keepsLinesAll_of_isPlainAll args h.2]
  | .array items, h => by
    rw [isPlain] at h
    rw [keepsLines]
    exact keepsLinesAll_of_isPlainAll items h
  | .object fields, h => by
    rw [isPlain] at h
    rw [keepsLines]
    exact keepsLinesFields_of_isPlainFields fields h
  | .recursive name body, h => by
    simp only [isPlain, Bool.and_eq_true, decide_eq_true_eq] at h
    simp [keepsLines, h.1.unbroken, keepsLines_of_isPlain body h.2]

theorem keepsLinesAll_of_isPlainAll : (exprs : List Expr) → isPlainAll exprs = true →
    keepsLinesAll exprs = true
  | [], _ => rfl
  | expr :: rest, h => by
    rw [isPlainAll, Bool.and_eq_true] at h
    rw [keepsLinesAll, keepsLines_of_isPlain expr h.1, keepsLinesAll_of_isPlainAll rest h.2]
    rfl

theorem keepsLinesFields_of_isPlainFields : (fields : List (String × Expr)) →
    isPlainFields fields = true → keepsLinesFields fields = true
  | [], _ => rfl
  | (key, value) :: rest, h => by
    simp only [isPlainFields, Bool.and_eq_true, Bool.or_eq_true, decide_eq_true_eq] at h
    obtain ⟨hunbroken, hfield⟩ := isFieldName_of_plain h.1.1
    simp [keepsLinesFields, hunbroken, hfield, keepsLines_of_isPlain value h.1.2,
      keepsLinesFields_of_isPlainFields rest h.2]

end

/-- The text begins with neither a blank nor an angle bracket. -/
def Solid (text : String) : Prop :=
  ∃ c rest, text.toList = c :: rest ∧ isBlank c = false ∧ c ≠ '<'

theorem solid_of_isName {name : String} (h : IsName name.toList) (rest : String) :
    Solid (name ++ rest) := by
  obtain ⟨c, more, hchars⟩ := List.exists_cons_of_ne_nil h.1
  have hc := h.2 c (by simp [hchars])
  refine ⟨c, more ++ rest.toList, by simp [hchars], isBlank_eq_false_of_isNameChar hc, ?_⟩
  rintro rfl
  exact absurd hc (by decide)

theorem solid_of_isNumeral {text : String} (hne : (!text.toList.isEmpty) = true)
    (h : isNumeral false text.toList = true) : Solid text := by
  cases hchars : text.toList with
  | nil => simp [hchars] at hne
  | cons c rest =>
    refine ⟨c, rest, hchars, ?_⟩
    rw [hchars, isNumeral] at h
    split at h
    · rename_i hdigit
      refine ⟨isBlank_eq_false_of_isNameChar (isNameChar_of_isDigit hdigit), ?_⟩
      rintro rfl
      exact absurd hdigit (by decide)
    · split at h
      · cases h
      · simp only [Bool.and_eq_true, Bool.or_eq_true, beq_iff_eq] at h
        rcases h.1 with (rfl | rfl) | rfl <;> decide

/-- The code of a plain expression begins with neither a blank nor an angle bracket. -/
theorem solid_render {expr : Expr} (h : expr.isPlain = true) {level : Int} {text : String}
    (htext : expr.render level = .ok text) : Solid text := by
  cases expr with
  | absent => cases h
  | bare => cases h
  | ref name =>
    rw [isPlain, decide_eq_true_eq] at h
    rw [render] at htext
    cases htext
    simpa using solid_of_isName h ""
  | raw code =>
    rw [render] at htext
    cases htext
    simp only [isPlain, Bool.or_eq_true, Bool.and_eq_true, decide_eq_true_eq] at h
    rcases h with ⟨hne, hnumeral⟩ | ⟨hliteral, -⟩
    · exact solid_of_isNumeral hne hnumeral
    · obtain ⟨c, rest, hchars, hquote⟩ := head_isLiteral hliteral
      refine ⟨c, rest, hchars, ?_, ?_⟩
      · simp only [isQuote, Bool.or_eq_true, beq_iff_eq] at hquote
        rcases hquote with (rfl | rfl) | rfl <;> decide
      · rintro rfl
        cases hquote
  | call name args options =>
    rw [render] at htext
    obtain ⟨args, -, htext⟩ := bind_eq_ok_iff.1 htext
    cases htext
    exact ⟨'T', _, by simp [String.toList_append]; rfl, by decide, by decide⟩
  | apply callee args =>
    simp only [isPlain, Bool.and_eq_true, decide_eq_true_eq] at h
    rw [render] at htext
    obtain ⟨args, -, htext⟩ := bind_eq_ok_iff.1 htext
    cases htext
    rw [String.append_assoc, String.append_assoc]
    exact solid_of_isName h.1 _
  | array items =>
    rw [render] at htext
    obtain ⟨items, -, htext⟩ := bind_eq_ok_iff.1 htext
    cases htext
    exact ⟨'[', _, by simp [String.toList_append]; rfl, by decide, by decide⟩
  | object fields =>
    rw [render] at htext
    obtain ⟨lines, -, htext⟩ := bind_eq_ok_iff.1 htext
    split at htext
    · cases htext
      exact ⟨'{', _, rfl, by decide, by decide⟩
    · cases htext
      exact ⟨'{', _, by simp [String.toList_append]; rfl, by decide, by decide⟩
  | recursive name body =>
    rw [render] at htext
    obtain ⟨code, -, htext⟩ := bind_eq_ok_iff.1 htext
    cases htext
    exact ⟨'T', _, by simp [String.toList_append]; rfl, by decide, by decide⟩

end Expr

end Schemata

import Schemata.Proofs.Schema.Arguments

/-!
# Rendering loses nothing

A clean expression is known from its code, whatever follows it: its shape shows in the first
characters, and its parts are read one after another, each up to a character that cannot continue
it. So two clean expressions with the same code are the same.
-/

namespace Schemata

open Text Emitted

namespace Argument

/-- The argument is known from its code. -/
def IsReadable (level : Int) (argument : Argument) : Prop :=
  Readable (code level) Clean ends argument

variable {level : Int}

/-- Only arguments of the same shape need to be compared. -/
theorem readable_of_shape {argument : Argument} (h : argument.Clean)
    (hsame : ∀ other r s, other.Clean → other.shape = argument.shape → StopsAt ends r →
      StopsAt ends s → argument.code level ++ r = other.code level ++ s →
        argument = other ∧ r = s) : argument.IsReadable level := by
  intro other r s hother hr hs heq
  have hshape := congrArg shapeOf heq
  rw [shapeOf_code h level hr, shapeOf_code hother level hs] at hshape
  exact hsame other r s hother hshape.symm hr hs heq

/-- Arguments between a pair of brackets are known from their codes. -/
theorem arguments_append_inj {close : Char} (hclose : close ∈ ends) (hne : ',' ≠ close)
    {arguments others : List Argument} (harguments : ∀ argument ∈ arguments, argument.Clean)
    (hothers : ∀ other ∈ others, other.Clean)
    (hreadable : ∀ argument ∈ arguments, argument.IsReadable level) {r s : List Char}
    (h : [',', ' '].intercalate (arguments.map (code level)) ++ close :: r =
      [',', ' '].intercalate (others.map (code level)) ++ close :: s) :
    arguments = others ∧ r = s := by
  have hmark : ',' ∈ ends := by decide
  have hstart : ∀ argument : Argument, argument.Clean →
      ∃ c more, argument.code level = c :: more ∧ c ≠ close := by
    intro argument hargument
    obtain ⟨c, more, hcode, hc⟩ := head_code hargument level
    exact ⟨c, more, hcode, fun heq => hc (heq ▸ hclose)⟩
  exact separated_append_inj hmark hclose hne hstart harguments hothers hreadable h

theorem map_expr_code (level : Int) (exprs : List Expr) :
    (exprs.map Argument.expr).map (code level) = Expr.codes level exprs := by
  rw [Expr.codes_eq_map, List.map_map]
  rfl

theorem codes_append_inj {close : Char} (hclose : close ∈ ends) (hne : ',' ≠ close)
    {exprs others : List Expr} (hexprs : ∀ expr ∈ exprs, expr.Clean)
    (hothers : ∀ other ∈ others, other.Clean)
    (hreadable : ∀ expr ∈ exprs, (Argument.expr expr).IsReadable level) {r s : List Char}
    (h : [',', ' '].intercalate (Expr.codes level exprs) ++ close :: r =
      [',', ' '].intercalate (Expr.codes level others) ++ close :: s) :
    exprs = others ∧ r = s := by
  rw [← map_expr_code, ← map_expr_code] at h
  obtain ⟨hargs, rfl⟩ := arguments_append_inj hclose hne (by simpa [Clean] using hexprs)
    (by simpa [Clean] using hothers) (by simpa using hreadable) h
  exact ⟨List.map_injective_iff.2 (fun _ _ => Argument.expr.inj) hargs, rfl⟩

/-! ### One kind of argument after another -/

theorem readable_array {items : List Expr} (h : (Expr.array items).Clean)
    (hitems : ∀ item ∈ items, (Argument.expr item).IsReadable level) :
    (Argument.expr (.array items)).IsReadable level := by
  refine readable_of_shape h fun other r s hother hshape _ _ heq => ?_
  cases other with
  | expr value =>
    cases value with
    | array others =>
      simp only [code, Expr.code, List.cons_append, List.append_assoc, List.nil_append,
        List.cons.injEq, true_and] at heq
      obtain ⟨rfl, rfl⟩ := codes_append_inj (by decide) (by decide)
        (Expr.everywhere_array_iff.1 h).2 (Expr.everywhere_array_iff.1 hother).2 hitems heq
      exact ⟨rfl, rfl⟩
    | _ => cases hshape
  | _ => cases hshape

theorem readable_apply {callee : String} {args : List Expr} (h : (Expr.apply callee args).Clean)
    (hargs : ∀ arg ∈ args, (Argument.expr arg).IsReadable level) :
    (Argument.expr (.apply callee args)).IsReadable level := by
  refine readable_of_shape h fun other r s hother hshape _ _ heq => ?_
  cases other with
  | expr value =>
    cases value with
    | apply callee' others =>
      simp only [code, Expr.code, List.cons_append, List.append_assoc, List.nil_append] at heq
      obtain ⟨hcallee, hrest⟩ := (isWordOrLiteral_name h.here).append_cons_inj
        (isWordOrLiteral_name hother.here) (by decide) heq
      obtain ⟨rfl, rfl⟩ := codes_append_inj (by decide) (by decide)
        (Expr.everywhere_apply_iff.1 h).2 (Expr.everywhere_apply_iff.1 hother).2 hargs hrest
      rw [String.toList_inj.1 hcallee]
      exact ⟨rfl, rfl⟩
    | _ => cases hshape
  | _ => cases hshape

theorem readable_options {entries : Options} (h : entries.isClean = true) :
    (Argument.options entries).IsReadable level := by
  refine readable_of_shape h fun other r s hother hshape _ _ heq => ?_
  cases other with
  | options others =>
    obtain ⟨rfl, rfl⟩ := options_append_inj h hother heq
    exact ⟨rfl, rfl⟩
  | expr value => cases value <;> cases hshape
  | binding name body => cases hshape

theorem readable_binding {name : String} {body : Expr} (h : (Argument.binding name body).Clean)
    (hbody : (Argument.expr body).IsReadable level) :
    (Argument.binding name body).IsReadable level := by
  refine readable_of_shape h fun other r s hother hshape hr hs heq => ?_
  cases other with
  | binding name' body' =>
    simp only [code, List.cons_append, List.append_assoc, List.nil_append] at heq
    obtain ⟨hname, hrest⟩ := (isWordOrLiteral_name h.1).append_cons_inj
      (isWordOrLiteral_name hother.1) (by decide) heq
    simp only [List.cons.injEq, true_and] at hrest
    obtain ⟨hsame, rfl⟩ := hbody (.expr body') r s hother.2 hr hs hrest
    rw [String.toList_inj.1 hname, Argument.expr.inj hsame]
    exact ⟨rfl, rfl⟩
  | expr value => cases value <;> cases hshape
  | options entries => cases hshape

/-- A word is a reference if it is a name, and text otherwise. -/
def ofWord (text : String) : Argument :=
  .expr (if isPlainName text.toList then .ref text else .raw text)

theorem code_ofWord (text : String) : (ofWord text).code level = text.toList := by
  rw [ofWord, code]
  split <;> rfl

theorem exists_word {argument : Argument} (h : argument.Clean) (hshape : argument.shape = .word) :
    ∃ text, argument = ofWord text ∧ IsWordOrLiteral text.toList := by
  cases argument with
  | expr value =>
    cases value with
    | ref name =>
      have hname : isPlainName name.toList = true := h.here
      exact ⟨name, by rw [ofWord, if_pos hname], isWordOrLiteral_name hname⟩
    | raw text =>
      have hname : ¬ isPlainName text.toList = true := fun hname => ref_ne_raw hname h.here rfl
      exact ⟨text, by rw [ofWord, if_neg hname], isWordOrLiteral_raw h.here⟩
    | absent => cases h.here
    | bare => cases h.here
    | _ => cases hshape
  | _ => cases hshape

theorem readable_word {argument : Argument} (h : argument.Clean) (hword : argument.shape = .word) :
    argument.IsReadable level := by
  refine readable_of_shape h fun other r s hother hshape hr hs heq => ?_
  obtain ⟨text, rfl, htext⟩ := exists_word h hword
  obtain ⟨text', rfl, htext'⟩ := exists_word hother (hshape.trans hword)
  rw [code_ofWord, code_ofWord] at heq
  obtain ⟨hsame, rfl⟩ := htext.append_inj htext' (hr.mono ends_subset_wordEnds)
    (hs.mono ends_subset_wordEnds) heq
  rw [String.toList_inj.1 hsame]
  exact ⟨rfl, rfl⟩

/-! ### Constructors -/

theorem code_constructor {value : Expr} (h : (Argument.expr value).shape = .constructor) :
    value.code level =
      Expr.constructorCode value.constructorName (value.arguments.map (code level)) := by
  cases value with
  | call name args options =>
    rw [Expr.code, Expr.arguments, List.map_append, map_expr_code, Expr.constructorName,
      Expr.optionCodes]
    split <;> rfl
  | recursive name body =>
    rw [Expr.code]
    rfl
  | _ => cases h

theorem isWordOrLiteral_constructorName {value : Expr} (h : value.Clean)
    (hshape : (Argument.expr value).shape = .constructor) :
    IsWordOrLiteral value.constructorName.toList := by
  cases value with
  | call name args options => exact isWordOrLiteral_name (Bool.and_eq_true_iff.1 h.here).1
  | recursive name body =>
    have hname : isPlainName "Recursive".toList = true := by decide
    exact isWordOrLiteral_name hname
  | _ => cases hshape

theorem clean_arguments {value : Expr} (h : value.Clean) :
    ∀ argument ∈ value.arguments, argument.Clean := by
  cases value with
  | call name args options =>
    intro argument hmem
    rcases Expr.mem_arguments_call hmem with ⟨arg, harg, rfl⟩ | rfl
    · exact (Expr.everywhere_call_iff.1 h).2 arg harg
    · exact (Bool.and_eq_true_iff.1 h.here).2
  | recursive name body =>
    intro argument hmem
    rw [Expr.arguments, List.mem_singleton] at hmem
    rw [hmem]
    exact ⟨h.here, (Expr.everywhere_recursive_iff.1 h).2⟩
  | _ => simp [Expr.arguments]

def expr? : Argument → Option Expr
  | .expr value => some value
  | _ => none

def entries : Argument → Options
  | .options given => given
  | _ => []

theorem filterMap_arguments (name : String) (args : List Expr) (options : Options) :
    (Expr.call name args options).arguments.filterMap expr? = args := by
  have hargs : (args.map Argument.expr).filterMap expr? = args := by
    rw [List.filterMap_map]
    exact List.filterMap_some
  rw [Expr.arguments, List.filterMap_append, hargs]
  split <;> exact List.append_nil args

theorem flatMap_arguments (name : String) (args : List Expr) (options : Options) :
    (Expr.call name args options).arguments.flatMap entries = options := by
  have hargs : (args.map Argument.expr).flatMap entries = [] := by simp [entries]
  rw [Expr.arguments, List.flatMap_append, hargs]
  split
  · rename_i hempty
    exact (List.isEmpty_iff.1 hempty).symm
  · exact List.append_nil options

theorem binding_not_mem_arguments (binder : String) (body : Expr) {name : String}
    {args : List Expr} {options : Options} :
    Argument.binding binder body ∉ (Expr.call name args options).arguments := by
  intro hmem
  rcases Expr.mem_arguments_call hmem with ⟨arg, -, harg⟩ | hoptions
  · cases harg
  · cases hoptions

/-- The name and the arguments tell which constructor it is. -/
theorem constructor_ext {first second : Expr}
    (hfirst : (Argument.expr first).shape = .constructor)
    (hsecond : (Argument.expr second).shape = .constructor)
    (hname : first.constructorName = second.constructorName)
    (harguments : first.arguments = second.arguments) : first = second := by
  cases first with
  | call name args options =>
    cases second with
    | call name' args' options' =>
      have hargs := congrArg (List.filterMap expr?) harguments
      have hoptions := congrArg (List.flatMap entries) harguments
      rw [filterMap_arguments, filterMap_arguments] at hargs
      rw [flatMap_arguments, flatMap_arguments] at hoptions
      rw [hargs, hoptions, show name = name' from hname]
    | recursive name' body =>
      have hmem : Argument.binding name' body ∈ (Expr.call name args options).arguments := by
        rw [harguments]
        exact List.mem_singleton_self _
      exact absurd hmem (binding_not_mem_arguments name' body)
    | _ => cases hsecond
  | recursive name body =>
    cases second with
    | call name' args options =>
      have hmem : Argument.binding name body ∈ (Expr.call name' args options).arguments := by
        rw [← harguments]
        exact List.mem_singleton_self _
      exact absurd hmem (binding_not_mem_arguments name body)
    | recursive name' body' =>
      cases harguments
      rfl
    | _ => cases hsecond
  | _ => cases hfirst

theorem readable_constructor {value : Expr} (h : value.Clean)
    (hconstructor : (Argument.expr value).shape = .constructor)
    (harguments : ∀ argument ∈ value.arguments, argument.IsReadable level) :
    (Argument.expr value).IsReadable level := by
  refine readable_of_shape h fun other r s hother hshape _ _ heq => ?_
  rw [hconstructor] at hshape
  cases other with
  | expr other =>
    rw [code, code, code_constructor hconstructor, code_constructor hshape] at heq
    simp only [Expr.constructorCode, List.cons_append, List.append_assoc, List.nil_append,
      List.cons.injEq, true_and] at heq
    obtain ⟨hname, hrest⟩ := (isWordOrLiteral_constructorName h hconstructor).append_cons_inj
      (isWordOrLiteral_constructorName hother hshape) (by decide) heq
    obtain ⟨hsame, rfl⟩ := arguments_append_inj (by decide) (by decide) (clean_arguments h)
      (clean_arguments hother) harguments hrest
    rw [constructor_ext hconstructor hshape (String.toList_inj.1 hname) hsame]
    exact ⟨rfl, rfl⟩
  | _ => cases hshape

/-! ### Objects -/

theorem head_fieldCode {field : String × Expr} (h : Expr.CleanField field) :
    ∃ c more, Expr.fieldCode level field = c :: more ∧ c ≠ '\n' := by
  rw [Expr.fieldCode, toList_indentation]
  cases 2 * (level + 1).toNat with
  | zero =>
    obtain ⟨c, more, hchars, hc⟩ := (isWordOrLiteral_key h.1).head
    rw [hchars]
    refine ⟨c, _, rfl, ?_⟩
    rintro rfl
    exact hc (by decide)
  | succ blanks => exact ⟨' ', _, rfl, by decide⟩

theorem readable_field {field : String × Expr} (h : Expr.CleanField field)
    (hvalue : (Argument.expr field.2).IsReadable (level + 1)) :
    Readable (Expr.fieldCode level) Expr.CleanField [',', '\n'] field := by
  intro other r s hother hr hs heq
  have hends : [',', '\n'] ⊆ ends := by decide
  -- both lines stand at the same level, so their indentations are the same
  simp only [Expr.fieldCode, List.append_assoc, List.cons_append] at heq
  obtain ⟨hkey, hrest⟩ := (isWordOrLiteral_key h.1).append_cons_inj (isWordOrLiteral_key hother.1)
    (by decide) (List.append_cancel_left heq)
  obtain ⟨hsame, rfl⟩ := hvalue (.expr other.2) r s hother.2 (hr.mono hends) (hs.mono hends)
    (List.cons.inj hrest).2
  exact ⟨Prod.ext (String.toList_inj.1 hkey) (Argument.expr.inj hsame), rfl⟩

theorem readable_object {fields : List (String × Expr)} (h : (Expr.object fields).Clean)
    (hfields : ∀ field ∈ fields, (Argument.expr field.2).IsReadable (level + 1)) :
    (Argument.expr (.object fields)).IsReadable level := by
  refine readable_of_shape h fun other r s hother hshape _ _ heq => ?_
  cases other with
  | expr value =>
    cases value with
    | object others =>
      have hclean := Expr.clean_object_iff.1 h
      have hclean' := Expr.clean_object_iff.1 hother
      have hmark : ',' ∈ [',', '\n'] := by decide
      simp only [code, Expr.code, Expr.fieldCodes_eq_map] at heq
      -- an object without fields is closed at once, any other one goes on with a line feed
      cases fields with
      | nil =>
        cases others with
        | nil => simpa using heq
        | cons other others => cases (List.cons.inj (List.cons.inj heq).2).1
      | cons field fields =>
        cases others with
        | nil => cases (List.cons.inj (List.cons.inj heq).2).1
        | cons other others =>
          simp only [List.isEmpty_cons, Bool.false_eq_true, if_false, List.cons_append,
            List.append_assoc, List.nil_append, List.cons.injEq, true_and] at heq
          obtain ⟨hsame, hrest⟩ := separated_append_inj hmark (by decide) (by decide)
            (fun field hfield => head_fieldCode hfield) hclean hclean'
            (fun field hmem => readable_field (hclean field hmem) (hfields field hmem)) heq
          rw [hsame]
          exact ⟨rfl, (List.cons.inj (List.append_cancel_left hrest)).2⟩
    | _ => cases hshape
  | _ => cases hshape

end Argument

namespace Expr

mutual

-- The recursion follows the expression; the level goes up by one inside an object.
theorem isReadable : (expr : Expr) → expr.Clean → (level : Int) →
    (Argument.expr expr).IsReadable level
  | .absent, h, _ => by cases h.here
  | .bare, h, _ => by cases h.here
  | .ref name, h, _ => Argument.readable_word h rfl
  | .raw text, h, _ => Argument.readable_word h rfl
  | .array items, h, level =>
    Argument.readable_array h (isReadable_all items (everywhere_array_iff.1 h).2 level)
  | .apply callee args, h, level =>
    Argument.readable_apply h (isReadable_all args (everywhere_apply_iff.1 h).2 level)
  | .object fields, h, level =>
    Argument.readable_object h (isReadable_fields fields (everywhere_object_iff.1 h).2 (level + 1))
  | .recursive name body, h, level => by
    apply Argument.readable_constructor h rfl
    intro argument hmem
    rw [arguments, List.mem_singleton] at hmem
    subst hmem
    have hbody := (everywhere_recursive_iff.1 h).2
    exact Argument.readable_binding ⟨h.here, hbody⟩ (isReadable body hbody level)
  | .call name args options, h, level => by
    have hargs := isReadable_all args (everywhere_call_iff.1 h).2 level
    apply Argument.readable_constructor h rfl
    intro argument hmem
    rcases mem_arguments_call hmem with ⟨arg, harg, rfl⟩ | rfl
    · exact hargs arg harg
    · exact Argument.readable_options (Bool.and_eq_true_iff.1 h.here).2

theorem isReadable_all : (exprs : List Expr) → (∀ expr ∈ exprs, expr.Clean) → (level : Int) →
    ∀ expr ∈ exprs, (Argument.expr expr).IsReadable level
  | [], _, _ => by simp
  | expr :: rest, h, level => by
    rw [List.forall_mem_cons] at h ⊢
    exact ⟨isReadable expr h.1 level, isReadable_all rest h.2 level⟩

theorem isReadable_fields : (fields : List (String × Expr)) →
    (∀ field ∈ fields, field.2.Clean) → (level : Int) →
    ∀ field ∈ fields, (Argument.expr field.2).IsReadable level
  | [], _, _ => by simp
  | (name, value) :: rest, h, level => by
    rw [List.forall_mem_cons] at h ⊢
    exact ⟨isReadable value h.1 level, isReadable_fields rest h.2 level⟩

end

/-- **Rendering loses nothing.** A clean expression has a code, and no other one has the same. -/
theorem render_lossless (level : Int) (first second : Expr) (hfirst : first.Clean)
    (hsecond : second.Clean) :
    (∃ text, first.render level = .ok text) ∧
      (first.render level = second.render level → first = second) := by
  refine ⟨⟨_, render_eq_code first hfirst level⟩, fun h => ?_⟩
  rw [render_eq_code first hfirst level, render_eq_code second hsecond level,
    Except.ok.injEq, String.ofList_inj] at h
  obtain ⟨hsame, -⟩ := isReadable first hfirst level (.expr second) [] [] hsecond (stopsAt_nil _)
    (stopsAt_nil _) (congrArg (· ++ []) h)
  exact Argument.expr.inj hsame

/-- A list of the schema itself, with brackets and commas in its texts. -/
def selfList : Expr :=
  .recursive "This" (.call "Array"
    [.object [("head", .raw "\"\x7d, \x7b a: 1 \x7d\""),
      ("\"the rest\"", .apply "Maybe" [.ref "This"])]]
    [("title", .literal (.str "\x7d, [\"\n")), ("minItems", .literal (.int (-1)))])

theorem render_lossless_selfList :
    selfList.Clean ∧ (∃ text, selfList.render 2 = .ok text) ∧
      selfList.render 2 ≠ (Expr.call "Recursive" [.ref "This", .raw "1"] []).render 2 := by
  have hclean : selfList.Clean := by decide
  have hlossless := render_lossless 2 selfList (.call "Recursive" [.ref "This", .raw "1"] []) hclean
    (by decide)
  exact ⟨hclean, hlossless.1, fun h => by cases hlossless.2 h⟩

end Expr

end Schemata

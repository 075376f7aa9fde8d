import Schemata.Proofs.Mapping
import Schemata.Schema.Expr

/-!
# Options attached to an expression

Options go to one constructor, which is reached through fixed points and wrappers; the rest of the
expression stays as it is. All that is known of expressions with options attached is derived from
this: the new options are carried, and the objects inside, with their fields, are still there.
-/

namespace Schemata

namespace Expr

/-- One constructor of an expression gains the options. -/
inductive Gains (options : Options) : Expr → Expr → Prop where
  | constructor (name : String) (args : List Expr) (own : Options) :
      Gains options (.call name args own) (.call name args (own.update options))
  | wrapped (name : String) (rest : List Expr) (own : Options) {first result : Expr}
      (h : Gains options first result) :
      Gains options (.call name (first :: rest) own) (.call name (result :: rest) own)
  | recursive (name : String) {body result : Expr} (h : Gains options body result) :
      Gains options (.recursive name body) (.recursive name result)

theorem gains_of_addOptions {options : Options} {expr result : Expr}
    (h : expr.addOptions options = some result) : Gains options expr result := by
  fun_induction addOptions options expr generalizing result with
  | case1 name body hpresent ih =>
    obtain ⟨inner, hinner, rfl⟩ := Option.map_eq_some_iff.1 h
    exact .recursive name (ih hinner)
  | case2 => cases h
  | case3 name first rest own hwrapper ih =>
    obtain ⟨inner, hinner, rfl⟩ := Option.map_eq_some_iff.1 h
    exact .wrapped name rest own (ih hinner)
  | case4 name first rest own hwrapper =>
    cases h
    exact .constructor name (first :: rest) own
  | case5 name own =>
    cases h
    exact .constructor name [] own
  | case6 => cases h

theorem attach_eq_some {options : Options} {expr result : Expr}
    (h : expr.attach options = some result) :
    (options = [] ∧ result = expr) ∨ Gains options expr result := by
  rw [attach] at h
  split at h
  · rename_i hempty
    cases h
    exact Or.inl ⟨List.isEmpty_iff.1 hempty, rfl⟩
  · exact Or.inr (gains_of_addOptions h)

/-! ### Inside expressions -/

mutual

/-- An expression and everything inside it. -/
def subterms : Expr → List Expr
  | .call name args options => .call name args options :: subtermsOf args
  | .apply callee args => .apply callee args :: subtermsOf args
  | .array items => .array items :: subtermsOf items
  | .object fields => .object fields :: subtermsOfFields fields
  | .recursive name body => .recursive name body :: subterms body
  | .ref name => [.ref name]
  | .raw text => [.raw text]
  | .absent => [.absent]
  | .bare => [.bare]

def subtermsOf : List Expr → List Expr
  | [] => []
  | expr :: rest => subterms expr ++ subtermsOf rest

def subtermsOfFields : List (String × Expr) → List Expr
  | [] => []
  | (_, value) :: rest => subterms value ++ subtermsOfFields rest

end

theorem self_mem_subterms (expr : Expr) : expr ∈ expr.subterms := by
  cases expr <;> simp [subterms]

theorem mem_subtermsOf {exprs : List Expr} {inner : Expr} :
    inner ∈ subtermsOf exprs ↔ ∃ expr ∈ exprs, inner ∈ expr.subterms := by
  induction exprs with
  | nil => simp [subtermsOf]
  | cons expr rest ih => simp [subtermsOf, ih]

theorem mem_subtermsOfFields {fields : List (String × Expr)} {inner : Expr} :
    inner ∈ subtermsOfFields fields ↔ ∃ field ∈ fields, inner ∈ field.2.subterms := by
  induction fields with
  | nil => simp [subtermsOfFields]
  | cons field rest ih => simp [subtermsOfFields, ih]

mutual

/-- The names that an expression refers to, each with the fixed points around it, the innermost
first. -/
def uses : Expr → List (String × List String)
  | .ref name => [(name, [])]
  | .apply callee args => (callee, []) :: usesOf args
  | .call _ args _ => usesOf args
  | .array items => usesOf items
  | .object fields => usesOfFields fields
  | .recursive name body => (uses body).map fun use => (use.1, use.2 ++ [name])
  | .raw _ | .absent | .bare => []

def usesOf : List Expr → List (String × List String)
  | [] => []
  | expr :: rest => uses expr ++ usesOf rest

def usesOfFields : List (String × Expr) → List (String × List String)
  | [] => []
  | (_, value) :: rest => uses value ++ usesOfFields rest

end

theorem mem_usesOf {exprs : List Expr} {use : String × List String} :
    use ∈ usesOf exprs ↔ ∃ expr ∈ exprs, use ∈ expr.uses := by
  induction exprs with
  | nil => simp [usesOf]
  | cons expr rest ih => simp [usesOf, ih]

theorem mem_usesOfFields {fields : List (String × Expr)} {use : String × List String} :
    use ∈ usesOfFields fields ↔ ∃ field ∈ fields, use ∈ field.2.uses := by
  induction fields with
  | nil => simp [usesOfFields]
  | cons field rest ih => simp [usesOfFields, ih]

theorem subterms_subset_call {name : String} {args : List Expr} {options : Options} {arg : Expr}
    (h : arg ∈ args) : arg.subterms ⊆ (Expr.call name args options).subterms :=
  fun _ hinner => List.mem_cons_of_mem _ (mem_subtermsOf.2 ⟨arg, h, hinner⟩)

/-- One of the constructors in an expression has the option. -/
def Carries (expr : Expr) (option : String × OptionValue) : Prop :=
  ∃ name args options, .call name args options ∈ expr.subterms ∧ option ∈ options

/-- One of the objects in an expression has the field. -/
def HasField (expr : Expr) (field : String × Expr) : Prop :=
  ∃ fields, .object fields ∈ expr.subterms ∧ field ∈ fields

theorem Carries.mono {expr whole : Expr} {option : String × OptionValue} (h : expr.Carries option)
    (hsubset : expr.subterms ⊆ whole.subterms) : whole.Carries option := by
  obtain ⟨name, args, options, hcall, hoption⟩ := h
  exact ⟨name, args, options, hsubset hcall, hoption⟩

theorem HasField.mono {expr whole : Expr} {field : String × Expr} (h : expr.HasField field)
    (hsubset : expr.subterms ⊆ whole.subterms) : whole.HasField field := by
  obtain ⟨fields, hobject, hfield⟩ := h
  exact ⟨fields, hsubset hobject, hfield⟩

/-- The options that an expression gains are carried. -/
theorem Gains.carries {options : Options} {expr result : Expr} (h : Gains options expr result)
    (hnodup : (options.map Prod.fst).Nodup) {option : String × OptionValue}
    (hoption : option ∈ options) : result.Carries option := by
  induction h with
  | constructor name args own =>
    refine ⟨name, args, own.update options, self_mem_subterms _, mem_of_valueAt? ?_⟩
    rw [Options.update, valueAt?_foldl_setEntry, lastValue?_of_mem hnodup hoption, Option.some_or]
  | wrapped name rest own _ ih => exact ih.mono (subterms_subset_call List.mem_cons_self)
  | recursive name _ ih => exact ih.mono (List.subset_cons_self _ _)

theorem Gains.object_mem_subterms {options : Options} {expr result : Expr}
    (h : Gains options expr result) {fields : List (String × Expr)}
    (hobject : .object fields ∈ expr.subterms) : .object fields ∈ result.subterms := by
  induction h with
  | constructor name args own => simpa [subterms] using hobject
  | wrapped name rest own _ ih =>
    simp only [subterms, subtermsOf, List.mem_cons, List.mem_append, reduceCtorEq, false_or]
      at hobject ⊢
    exact hobject.imp_left ih
  | recursive name _ ih =>
    simp only [subterms, List.mem_cons, reduceCtorEq, false_or] at hobject ⊢
    exact ih hobject

theorem HasField.attach {options : Options} {expr result : Expr} {field : String × Expr}
    (h : expr.HasField field) (hattach : expr.attach options = some result) :
    result.HasField field := by
  obtain ⟨-, rfl⟩ | hgains := attach_eq_some hattach
  · exact h
  · obtain ⟨fields, hobject, hfield⟩ := h
    exact ⟨fields, hgains.object_mem_subterms hobject, hfield⟩

theorem Carries.withModifiers {expr : Expr} {option : String × OptionValue}
    (h : expr.Carries option) (readonly optional : Bool) :
    (expr.withModifiers readonly optional).Carries option := by
  cases readonly <;> cases optional
  · exact h
  · exact h.mono (subterms_subset_call List.mem_cons_self)
  · exact h.mono (subterms_subset_call List.mem_cons_self)
  · exact h.mono (subterms_subset_call List.mem_cons_self)

end Expr

end Schemata

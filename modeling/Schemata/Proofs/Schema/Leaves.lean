import Schemata.Proofs.Schema.Attachment

/-!
# What holds everywhere in an expression

Many facts about expressions are about their leaves alone: that no reference of some name occurs, or
nothing that cannot be written. Such a fact holds of an expression exactly if it holds of the parts,
so it passes through constructors and options without further thought.
-/

namespace Schemata

namespace Expr

/-- The property holds of an expression and of everything inside it. -/
def Everywhere (holds : Expr → Prop) (expr : Expr) : Prop := ∀ inner ∈ expr.subterms, holds inner

/-- A property that only tells leaves apart. -/
structure Leafwise (holds : Expr → Prop) : Prop where
  call : ∀ name args options, holds (.call name args options)
  apply : ∀ callee args, holds (.apply callee args)
  array : ∀ items, holds (.array items)
  object : ∀ fields, holds (.object fields)
  recursive : ∀ name body, holds (.recursive name body)

section Everywhere

variable {holds : Expr → Prop}

theorem forall_mem_subtermsOf {exprs : List Expr} :
    (∀ inner ∈ subtermsOf exprs, holds inner) ↔ ∀ expr ∈ exprs, expr.Everywhere holds := by
  simp only [mem_subtermsOf, Everywhere]
  constructor
  · exact fun h expr hexpr inner hinner => h inner ⟨expr, hexpr, hinner⟩
  · rintro h inner ⟨expr, hexpr, hinner⟩
    exact h expr hexpr inner hinner

theorem forall_mem_subtermsOfFields {fields : List (String × Expr)} :
    (∀ inner ∈ subtermsOfFields fields, holds inner) ↔
      ∀ field ∈ fields, field.2.Everywhere holds := by
  simp only [mem_subtermsOfFields, Everywhere]
  constructor
  · exact fun h field hfield inner hinner => h inner ⟨field, hfield, hinner⟩
  · rintro h inner ⟨field, hfield, hinner⟩
    exact h field hfield inner hinner

/-! ### One constructor -/

theorem everywhere_call_iff {name : String} {args : List Expr} {options : Options} :
    (Expr.call name args options).Everywhere holds ↔
      holds (.call name args options) ∧ ∀ arg ∈ args, arg.Everywhere holds := by
  rw [Everywhere, subterms, List.forall_mem_cons, forall_mem_subtermsOf]

theorem everywhere_apply_iff {callee : String} {args : List Expr} :
    (Expr.apply callee args).Everywhere holds ↔
      holds (.apply callee args) ∧ ∀ arg ∈ args, arg.Everywhere holds := by
  rw [Everywhere, subterms, List.forall_mem_cons, forall_mem_subtermsOf]

theorem everywhere_array_iff {items : List Expr} :
    (Expr.array items).Everywhere holds ↔
      holds (.array items) ∧ ∀ item ∈ items, item.Everywhere holds := by
  rw [Everywhere, subterms, List.forall_mem_cons, forall_mem_subtermsOf]

theorem everywhere_object_iff {fields : List (String × Expr)} :
    (Expr.object fields).Everywhere holds ↔
      holds (.object fields) ∧ ∀ field ∈ fields, field.2.Everywhere holds := by
  rw [Everywhere, subterms, List.forall_mem_cons, forall_mem_subtermsOfFields]

theorem everywhere_recursive_iff {name : String} {body : Expr} :
    (Expr.recursive name body).Everywhere holds ↔
      holds (.recursive name body) ∧ body.Everywhere holds := by
  rw [Everywhere, subterms, List.forall_mem_cons, Everywhere]

namespace Leafwise

variable (leafwise : Leafwise holds)

include leafwise

theorem everywhere_call {name : String} {args : List Expr} {options : Options} :
    (Expr.call name args options).Everywhere holds ↔ ∀ arg ∈ args, arg.Everywhere holds := by
  rw [everywhere_call_iff]
  exact and_iff_right (leafwise.call name args options)

theorem everywhere_apply {callee : String} {args : List Expr} :
    (Expr.apply callee args).Everywhere holds ↔ ∀ arg ∈ args, arg.Everywhere holds := by
  rw [everywhere_apply_iff]
  exact and_iff_right (leafwise.apply callee args)

theorem everywhere_array {items : List Expr} :
    (Expr.array items).Everywhere holds ↔ ∀ item ∈ items, item.Everywhere holds := by
  rw [everywhere_array_iff]
  exact and_iff_right (leafwise.array items)

theorem everywhere_object {fields : List (String × Expr)} :
    (Expr.object fields).Everywhere holds ↔ ∀ field ∈ fields, field.2.Everywhere holds := by
  rw [everywhere_object_iff]
  exact and_iff_right (leafwise.object fields)

theorem everywhere_recursive {name : String} {body : Expr} :
    (Expr.recursive name body).Everywhere holds ↔ body.Everywhere holds := by
  rw [everywhere_recursive_iff]
  exact and_iff_right (leafwise.recursive name body)

theorem everywhere_gains {options : Options} {expr result : Expr} (h : Gains options expr result) :
    result.Everywhere holds ↔ expr.Everywhere holds := by
  induction h with
  | constructor name args own => rw [leafwise.everywhere_call, leafwise.everywhere_call]
  | wrapped name rest own _ ih =>
    rw [leafwise.everywhere_call, leafwise.everywhere_call, List.forall_mem_cons,
      List.forall_mem_cons, ih]
  | recursive name _ ih => rw [leafwise.everywhere_recursive, leafwise.everywhere_recursive, ih]

theorem everywhere_attach {options : Options} {expr result : Expr}
    (h : expr.attach options = some result) :
    result.Everywhere holds ↔ expr.Everywhere holds := by
  obtain ⟨-, rfl⟩ | hgains := attach_eq_some h
  · exact Iff.rfl
  · exact leafwise.everywhere_gains hgains

end Leafwise

theorem everywhere_ref {name : String} : (Expr.ref name).Everywhere holds ↔ holds (.ref name) := by
  rw [Everywhere, subterms, List.forall_mem_singleton]

theorem everywhere_raw {text : String} : (Expr.raw text).Everywhere holds ↔ holds (.raw text) := by
  rw [Everywhere, subterms, List.forall_mem_singleton]

end Everywhere

end Expr

end Schemata

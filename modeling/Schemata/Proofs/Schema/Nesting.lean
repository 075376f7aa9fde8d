import Schemata.Schema.Declaration

/-!
# Declarations at any depth

A namespace holds declarations, so what is said of every declaration of a file is said of those
inside its namespaces too.
-/

namespace Schemata

namespace Declaration

mutual

/-- A declaration and all declarations inside it, at any depth. -/
def nested : Declaration → List Declaration
  | .scope name exported keyword body => .scope name exported keyword body :: nestedOf body
  | declaration => [declaration]

/-- Several declarations and all declarations inside them. -/
def nestedOf : List Declaration → List Declaration
  | [] => []
  | declaration :: rest => nested declaration ++ nestedOf rest

end

theorem mem_nestedOf {inner : Declaration} {declarations : List Declaration} :
    inner ∈ nestedOf declarations ↔ ∃ declaration ∈ declarations, inner ∈ declaration.nested := by
  induction declarations with
  | nil => simp [nestedOf]
  | cons declaration rest ih => simp [nestedOf, ih]

theorem mem_nested_self (declaration : Declaration) : declaration ∈ declaration.nested := by
  cases declaration <;> simp [nested]

/-- One declaration stands inside of another, below that many namespaces. -/
inductive NestedAt (inner : Declaration) : Nat → Declaration → Prop where
  | self : NestedAt inner 0 inner
  | inside {depth : Nat} {name keyword : String} {exported : Bool} {body : List Declaration}
      {member : Declaration} (hmember : member ∈ body) (h : NestedAt inner depth member) :
      NestedAt inner (depth + 1) (.scope name exported keyword body)

mutual

theorem exists_nestedAt {inner : Declaration} :
    (outer : Declaration) → inner ∈ outer.nested → ∃ depth, NestedAt inner depth outer
  | .scope name exported keyword body, h => by
    rw [nested, List.mem_cons] at h
    rcases h with rfl | h
    · exact ⟨0, .self⟩
    · obtain ⟨member, hmember, depth, h⟩ := exists_nestedAt_of_mem_nestedOf body h
      exact ⟨depth + 1, .inside hmember h⟩
  | .schema _ _ _ _, h | .enumeration _ _ _, h | .verbatim _, h | .bare, h =>
    ⟨0, List.mem_singleton.1 h ▸ .self⟩

theorem exists_nestedAt_of_mem_nestedOf {inner : Declaration} :
    (body : List Declaration) → inner ∈ nestedOf body →
      ∃ member ∈ body, ∃ depth, NestedAt inner depth member
  | [], h => by cases h
  | member :: rest, h => by
    rw [nestedOf, List.mem_append] at h
    rcases h with h | h
    · exact ⟨member, List.mem_cons_self, exists_nestedAt member h⟩
    · obtain ⟨other, hother, hnested⟩ := exists_nestedAt_of_mem_nestedOf rest h
      exact ⟨other, List.mem_cons_of_mem _ hother, hnested⟩

end

/-- What holds of a namespace and of all declarations inside it. -/
theorem forall_nested_scope {motive : Declaration → Prop} {name keyword : String} {exported : Bool}
    {body : List Declaration} (hself : motive (.scope name exported keyword body))
    (hbody : ∀ declaration ∈ body, ∀ inner ∈ declaration.nested, motive inner) :
    ∀ inner ∈ (Declaration.scope name exported keyword body).nested, motive inner := by
  intro inner hinner
  rw [nested, List.mem_cons] at hinner
  rcases hinner with rfl | hinner
  · exact hself
  · obtain ⟨declaration, hmem, hnested⟩ := mem_nestedOf.1 hinner
    exact hbody declaration hmem inner hnested

/-- A schema with type parameters. -/
def isGeneric : Declaration → Bool
  | .schema _ _ _ parameters => !parameters.isEmpty
  | _ => false

end Declaration

end Schemata

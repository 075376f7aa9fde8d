import Schemata.Proofs.Schema.Attachment
import Schemata.Proofs.Schema.Nesting
import Schemata.Text.Blank

/-!
# The scope of a name

A name in the code is looked up from inside out: in the fixed points around it, in the type
parameters of the schema it stands in, in the namespaces around that schema, and at last in the
file. Of a dotted name only the first part is looked up.

What a namespace declares is left open here, because statements that are passed through declare
names too, and so do other blocks of the same namespace.
-/

namespace Schemata

/-- Where the first part of a dotted name ends: before the point, or a blank or comment in front of
it. -/
def endsHead (c : Char) : Bool :=
  c == '.' || c == '/' || Text.isBlank c || c.toNat ∈ [0x200B, 0x2060, 0xFEFF]

def headName (name : String) : String :=
  String.ofList (name.toList.takeWhile fun c => !endsHead c)

/-- What a name meets on the way out to the file. -/
inductive Binder where
  | fixedPoint (name : String)
  | parameter (name : String)
  | space (block : Declaration)

def Binder.binds (declares : Declaration → String → Bool) (head : String) : Binder → Bool
  | .fixedPoint name | .parameter name => name == head
  | .space block => declares block head

/-- The nearest binder of a name. Without one the name is what it is in the file. -/
def referent? (declares : Declaration → String → Bool) (around : List Binder) (name : String) :
    Option Binder :=
  around.find? (·.binds declares (headName name))

/-- What is around a name in a schema: the fixed points, then the type parameters, then the
namespaces, each from inside out. -/
def environment (binders parameters : List String) (blocks : List Declaration) : List Binder :=
  binders.map .fixedPoint ++ parameters.map .parameter ++ blocks.map .space

theorem referent?_environment_eq_none_iff {declares : Declaration → String → Bool}
    {binders parameters : List String} {blocks : List Declaration} {name : String} :
    referent? declares (environment binders parameters blocks) name = none ↔
      headName name ∉ binders ∧ headName name ∉ parameters ∧
        ∀ block ∈ blocks, declares block (headName name) = false := by
  simp only [referent?, environment, List.find?_eq_none, List.forall_mem_append,
    List.forall_mem_map, Binder.binds, Bool.not_eq_true, beq_eq_false_iff_ne, ne_eq, and_assoc]
  exact and_congr List.forall_mem_ne' (and_congr List.forall_mem_ne' Iff.rfl)

namespace Declaration

mutual

/-- The names in the values of a declaration, each with what is around it. -/
def uses : Declaration → List (String × List Binder)
  | .schema _ _ body parameters =>
    body.uses.map fun use => (use.1, environment use.2 parameters [])
  | .scope name exported keyword body =>
    (usesOf body).map fun use => (use.1, use.2 ++ [.space (.scope name exported keyword body)])
  | .enumeration _ _ _ | .verbatim _ | .bare => []

def usesOf : List Declaration → List (String × List Binder)
  | [] => []
  | declaration :: rest => uses declaration ++ usesOf rest

end

theorem mem_usesOf {declarations : List Declaration} {use : String × List Binder} :
    use ∈ usesOf declarations ↔ ∃ declaration ∈ declarations, use ∈ declaration.uses := by
  induction declarations with
  | nil => simp [usesOf]
  | cons declaration rest ih => simp [usesOf, ih]

/-- One declaration stands among others, inside of these namespaces, the innermost first. -/
inductive Within (inner : Declaration) : List Declaration → List Declaration → Prop where
  | here {declarations : List Declaration} (hmem : inner ∈ declarations) :
      Within inner [] declarations
  | inside {name keyword : String} {exported : Bool} {body blocks declarations : List Declaration}
      (hmem : .scope name exported keyword body ∈ declarations) (h : Within inner blocks body) :
      Within inner (blocks ++ [.scope name exported keyword body]) declarations

theorem NestedAt.exists_within {inner outer : Declaration} {depth : Nat}
    (h : NestedAt inner depth outer) {declarations : List Declaration}
    (hmem : outer ∈ declarations) : ∃ blocks, Within inner blocks declarations := by
  induction h generalizing declarations with
  | self => exact ⟨[], .here hmem⟩
  | inside hmember _ ih =>
    obtain ⟨blocks, hwithin⟩ := ih hmember
    exact ⟨_, .inside hmem hwithin⟩

theorem exists_within {inner : Declaration} {declarations : List Declaration}
    (h : inner ∈ nestedOf declarations) : ∃ blocks, Within inner blocks declarations := by
  obtain ⟨member, hmember, depth, hnested⟩ := exists_nestedAt_of_mem_nestedOf declarations h
  exact hnested.exists_within hmember

/-- Each namespace is around all that stands inside it. -/
theorem Within.mem_usesOf {inner : Declaration} {blocks declarations : List Declaration}
    (h : Within inner blocks declarations) {use : String × List Binder} (huse : use ∈ inner.uses) :
    (use.1, use.2 ++ blocks.map .space) ∈ usesOf declarations := by
  induction h with
  | here hmem =>
    rw [List.map_nil, List.append_nil]
    exact Declaration.mem_usesOf.2 ⟨_, hmem, huse⟩
  | inside hmem _ ih =>
    refine Declaration.mem_usesOf.2 ⟨_, hmem, ?_⟩
    rw [uses, List.map_append, ← List.append_assoc]
    exact List.mem_map.2 ⟨_, ih, rfl⟩

theorem Within.mem_usesOf_schema {name : String} {exported : Bool} {body : Expr}
    {parameters : List String} {blocks declarations : List Declaration}
    (h : Within (.schema name exported body parameters) blocks declarations)
    {use : String × List String} (huse : use ∈ body.uses) :
    (use.1, environment use.2 parameters blocks) ∈ usesOf declarations := by
  have hmem : (use.1, environment use.2 parameters []) ∈
      (Declaration.schema name exported body parameters).uses := by
    rw [uses]
    exact List.mem_map.2 ⟨use, huse, rfl⟩
  simpa [environment] using h.mem_usesOf hmem

end Declaration

end Schemata

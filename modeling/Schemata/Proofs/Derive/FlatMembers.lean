import Mathlib.Data.List.Forall2
import Mathlib.Logic.Relation
import Schemata.Proofs.Derive.Traversal

/-!
# Members of unions and intersections

The grammar nests the operators of a union: `A | B | C` is a union of a union and a member. What a
union means is the row of its members from left to right, so the derivation takes nodes of the same
kind apart and keeps everything else, parentheses included, as one member. The row is described here
without the derivation; then a union is derived as its row, and how the operators were nested no
longer matters. Intersections are the same with another constructor.
-/

namespace Schemata

namespace Node

/-- The members that siblings spell out from left to right: a node of the kind stands for the
members inside it, every other part for itself. -/
inductive Spells (kind : Kind) : List Node → List Node → Prop where
  | nil : Spells kind [] []
  | between {node : Node} {rest members : List Node} (hpart : node.isPart = false)
      (h : Spells kind rest members) : Spells kind (node :: rest) members
  | member {node : Node} {rest members : List Node} (hpart : node.isPart = true)
      (hkind : node.kind ≠ kind) (h : Spells kind rest members) :
      Spells kind (node :: rest) (node :: members)
  | nested {node : Node} {rest inner members : List Node} (hpart : node.isPart = true)
      (hkind : node.kind = kind) (hinner : Spells kind node.children inner)
      (h : Spells kind rest members) : Spells kind (node :: rest) (inner ++ members)

/-- A part of another kind lies below a node, and only nodes of the kind lie between. -/
def Reaches (kind : Kind) (node member : Node) : Prop :=
  ∃ inner, Relation.ReflTransGen (fun outer part => part ∈ outer.parts ∧ part.kind = kind) node
    inner ∧ member ∈ inner.parts ∧ member.kind ≠ kind

theorem membersAt_eq (kind : Kind) (node : Node) :
    membersAt kind node =
      if node.isPart = true then
        if node.kind = kind then members kind node.children else [node]
      else [] := by
  obtain ⟨label, children⟩ := node
  rw [membersAt, isPart_mk]
  simp only [beq_iff_eq]
  rfl

theorem Spells.eq_members {kind : Kind} {nodes found : List Node} (h : Spells kind nodes found) :
    found = members kind nodes := by
  induction h with
  | nil => rw [members]
  | between hpart _ ih => rw [members, membersAt_eq, hpart, ih]; rfl
  | member hpart hkind _ ih => rw [members, membersAt_eq, if_pos hpart, if_neg hkind, ih]; rfl
  | nested hpart hkind _ _ ihinner ih =>
    rw [members, membersAt_eq, if_pos hpart, if_pos hkind, ← ihinner, ← ih]

private theorem spells_members_of_children {kind : Kind} {nodes : List Node}
    (h : ∀ node ∈ nodes, Spells kind node.children (members kind node.children)) :
    Spells kind nodes (members kind nodes) := by
  induction nodes with
  | nil =>
    rw [members]
    exact .nil
  | cons node rest ih =>
    have hrest := ih fun other hother => h other (List.mem_cons_of_mem _ hother)
    rw [members, membersAt_eq]
    by_cases hpart : node.isPart = true
    · by_cases hkind : node.kind = kind
      · rw [if_pos hpart, if_pos hkind]
        exact .nested hpart hkind (h node List.mem_cons_self) hrest
      · rw [if_pos hpart, if_neg hkind]
        exact .member hpart hkind hrest
    · rw [if_neg hpart]
      exact .between (by simpa using hpart) hrest

/-- Siblings spell out exactly one row of members. -/
theorem spells_iff {kind : Kind} {nodes found : List Node} :
    Spells kind nodes found ↔ found = members kind nodes := by
  refine ⟨Spells.eq_members, ?_⟩
  rintro rfl
  refine spells_members_of_children fun node hnode => ?_
  clear hnode
  induction node using Node.induct with
  | step node ih =>
    exact spells_members_of_children fun inner hinner =>
      ih inner (mem_descendants_of_mem_children hinner)

theorem members_eq_flatMap_parts (kind : Kind) (node : Node) :
    members kind node.children =
      node.parts.flatMap fun part =>
        if part.kind = kind then members kind part.children else [part] := by
  rw [parts]
  induction node.children with
  | nil => rw [members, List.filter_nil, List.flatMap_nil]
  | cons child rest ih =>
    rw [members, membersAt_eq, ih]
    by_cases hpart : child.isPart = true <;> simp [hpart]

theorem mem_members_iff {kind : Kind} {node member : Node} :
    member ∈ members kind node.children ↔ Reaches kind node member := by
  induction node using Node.induct with
  | step node ih =>
    rw [members_eq_flatMap_parts, List.mem_flatMap]
    constructor
    · rintro ⟨part, hpart, hmember⟩
      split at hmember
      · rename_i hkind
        obtain ⟨inner, hpath, hinner⟩ := (ih part (mem_descendants_of_mem_parts hpart)).1 hmember
        exact ⟨inner, .head ⟨hpart, hkind⟩ hpath, hinner⟩
      · rename_i hkind
        rw [List.mem_singleton.1 hmember]
        exact ⟨node, .refl, hpart, hkind⟩
    · rintro ⟨inner, hpath, hmember, hkind⟩
      rcases hpath.cases_head with rfl | ⟨part, ⟨hpart, hsame⟩, hpath⟩
      · exact ⟨member, hmember, by simp [hkind]⟩
      · refine ⟨part, hpart, ?_⟩
        rw [if_pos hsame]
        exact (ih part (mem_descendants_of_mem_parts hpart)).2 ⟨inner, hpath, hmember, hkind⟩

mutual

theorem membersAt_sublist (kind : Kind) : (node : Node) → (membersAt kind node).Sublist node.nodes
  | mk label children => by
    rw [membersAt, nodes]
    split
    · split
      · exact (members_sublist kind children).cons _
      · exact (List.nil_sublist _).cons_cons _
    · exact List.nil_sublist _

theorem members_sublist (kind : Kind) :
    (nodes : List Node) → (members kind nodes).Sublist (nodesOf nodes)
  | [] => by
    rw [members]
    exact List.nil_sublist _
  | node :: rest => by
    rw [members, nodesOf]
    exact (membersAt_sublist kind node).append (members_sublist kind rest)

end

end Node

namespace Report

variable {α β : Type} {f : α → Report β}

/-- One report for each element has a value exactly if all of them have one. -/
theorem result_mapM_eq_ok {xs : List α} {ys : List β} :
    (xs.mapM f).result = .ok ys ↔ List.Forall₂ (fun x y => (f x).result = .ok y) xs ys := by
  induction xs generalizing ys with
  | nil =>
    rw [List.mapM_nil, result_pure, List.forall₂_nil_left_iff, Except.ok.injEq]
    exact eq_comm
  | cons x rest ih =>
    rw [List.mapM_cons, result_bind_eq_ok, List.forall₂_cons_left_iff]
    constructor
    · rintro ⟨y, hy, hrest⟩
      obtain ⟨tail, htail, hys⟩ := result_bind_eq_ok.1 hrest
      cases hys
      exact ⟨y, tail, hy, ih.1 htail, rfl⟩
    · rintro ⟨y, tail, hy, htail, rfl⟩
      exact ⟨y, hy, result_bind_eq_ok.2 ⟨tail, ih.2 htail, rfl⟩⟩

theorem events_mapM {xs : List α} {ys : List β}
    (h : List.Forall₂ (fun x y => (f x).result = .ok y) xs ys) :
    (xs.mapM f).events = xs.flatMap fun x => (f x).events := by
  induction h with
  | nil => rfl
  | @cons x y rest tail hy hrest ih =>
    have htail := result_mapM_eq_ok.2 hrest
    rw [List.mapM_cons, events_bind_of_ok hy, events_bind_of_ok htail, ih, List.flatMap_cons,
      events_pure, List.append_nil]

end Report

def Kind.listing? : Kind → Option String
  | .unionType => some "Union"
  | .intersectionType => some "Intersect"
  | _ => none

/-- A node is derived as the row of its members. -/
structure DerivedAsRow (find : String → Option Expr) (constructor : String) (node : Node)
    (members : List Node) : Prop where
  spelled : Node.Spells node.kind node.children members
  reached : ∀ member, member ∈ members ↔ Node.Reaches node.kind node member
  ordered : members.Sublist node.descendants
  /-- The members are derived one after another, and the first fault among them is the fault. -/
  derived : typeExpr find node =
    (fun items => .construct constructor [.array items]) <$> members.mapM (typeExpr find)
  result : ∀ expr, (typeExpr find node).result = .ok expr ↔
    ∃ items, List.Forall₂ (fun member item => (typeExpr find member).result = .ok item)
      members items ∧ expr = .construct constructor [.array items]
  events : ∀ expr, (typeExpr find node).result = .ok expr →
    (typeExpr find node).events = members.flatMap fun member => (typeExpr find member).events
  associated : ∀ other : Node, other.kind = node.kind →
    Node.Spells node.kind other.children members → typeExpr find other = typeExpr find node
  grouped : ∀ part ∈ node.parts, part.kind = .parenthesizedType → part ∈ members ∧
    ∀ inner, part.parts.head? = some inner → typeExpr find part = typeExpr find inner

theorem typeExpr_eq_mapM_members (find : String → Option Expr) {node : Node} {constructor : String}
    (h : node.kind.listing? = some constructor) :
    typeExpr find node = (fun items => .construct constructor [.array items]) <$>
      (Node.members node.kind node.children).mapM (typeExpr find) := by
  obtain ⟨⟨kind, role, text, line, named, missing, flawed⟩, children⟩ := node
  dsimp only [Node.kind, Node.label] at h
  cases kind
  case unionType =>
    cases h
    rw [typeExpr, map_eq_pure_bind]
    exact congrArg (· >>= _) (memberExprs_eq_mapM find .unionType children)
  case intersectionType =>
    cases h
    rw [typeExpr, map_eq_pure_bind]
    exact congrArg (· >>= _) (memberExprs_eq_mapM find .intersectionType children)
  all_goals cases h

theorem typeExpr_parenthesized (find : String → Option Expr) {node inner : Node}
    (hkind : node.kind = .parenthesizedType) (hinner : node.parts.head? = some inner) :
    typeExpr find node = typeExpr find inner := by
  obtain ⟨⟨kind, role, text, line, named, missing, flawed⟩, children⟩ := node
  dsimp only [Node.kind, Node.label] at hkind
  subst hkind
  have hhead : (children.filter Node.isPart).head? = some inner := hinner
  rw [typeExpr, firstExpr_eq, hhead]
  rfl

/-- **Unions and intersections are flat.** A union or an intersection is derived as the row of its
members: their expressions in source order, with their events in that order. Another node of the
kind with the same row has the same derivation, however its operators are nested; a parenthesized
type stays one member, with the expression of the type inside. -/
theorem union_by_row (find : String → Option Expr) {node : Node} {constructor : String}
    (h : node.kind.listing? = some constructor) :
    ∃ members, DerivedAsRow find constructor node members := by
  have hderived := typeExpr_eq_mapM_members find h
  have hresult : ∀ expr, (typeExpr find node).result = .ok expr ↔
      ∃ items, List.Forall₂ (fun member item => (typeExpr find member).result = .ok item)
        (Node.members node.kind node.children) items ∧
        expr = .construct constructor [.array items] := by
    intro expr
    rw [hderived, map_eq_pure_bind, Report.result_bind_eq_ok]
    simp only [Report.result_mapM_eq_ok, Report.result_pure, Except.ok.injEq, @eq_comm _ expr]
  refine ⟨Node.members node.kind node.children, ?_⟩
  constructor
  · exact Node.spells_iff.2 rfl
  · exact fun member => Node.mem_members_iff
  · exact Node.members_sublist node.kind node.children
  · exact hderived
  · exact hresult
  · intro expr hexpr
    obtain ⟨items, hitems, -⟩ := (hresult expr).1 hexpr
    rw [hderived, map_eq_pure_bind, Report.events_bind_of_ok (Report.result_mapM_eq_ok.2 hitems),
      Report.events_mapM hitems, Report.events_pure, List.append_nil]
  · intro other hkind hspells
    have hlisting : other.kind.listing? = some constructor := by rw [hkind, h]
    rw [typeExpr_eq_mapM_members find hlisting, hderived, hkind, ← hspells.eq_members]
  · intro part hpart hkind
    refine ⟨?_, fun inner hinner => typeExpr_parenthesized find hkind hinner⟩
    have hother : part.kind ≠ node.kind := by
      rw [hkind]
      intro heq
      rw [← heq] at h
      cases h
    exact Node.mem_members_iff.2 ⟨node, .refl, hpart, hother⟩

/-- `C | D` in parentheses. -/
def groupedUnion : Node :=
  .sample .parenthesizedType none "" [
    .sample .unionType none "" [
      .sample .typeIdentifier none "C" [], .sample .typeIdentifier none "D" []]]

/-- `A | B | (C | D)` as the grammar nests it. -/
def leftUnion : Node :=
  .sample .unionType none "" [
    .sample .unionType none "" [
      .sample .typeIdentifier none "A" [], .sample .typeIdentifier none "B" []],
    groupedUnion]

/-- `A | B | (C | D)` with the second operator inside the first. -/
def rightUnion : Node :=
  .sample .unionType none "" [
    .sample .typeIdentifier none "A" [],
    .sample .unionType none "" [.sample .typeIdentifier none "B" [], groupedUnion]]

/-- Both nestings give three members, the last of which is a union of its own. -/
theorem union_by_row_leftUnion :
    ∃ members, DerivedAsRow (fun _ => none) "Union" leftUnion members ∧
      typeExpr (fun _ => none) rightUnion = typeExpr (fun _ => none) leftUnion ∧
      (typeExpr (fun _ => none) leftUnion).result = .ok (.construct "Union" [.array
        [.ref "A", .ref "B", .construct "Union" [.array [.ref "C", .ref "D"]]]]) := by
  have hlisting : leftUnion.kind.listing? = some "Union" := rfl
  obtain ⟨members, hrow⟩ := union_by_row (fun _ => none) hlisting
  have hmembers : members = Node.members .unionType rightUnion.children := hrow.spelled.eq_members
  exact ⟨members, hrow, hrow.associated rightUnion rfl (Node.spells_iff.2 hmembers), rfl⟩

end Schemata

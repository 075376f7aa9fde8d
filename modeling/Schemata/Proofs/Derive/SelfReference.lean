import Schemata.Proofs.Derive.Assembly

/-!
# Self references are bound

Two traversals go through a declaration. One derives its expression from the types that it is made
of, the other looks for its name anywhere below it. On trees of the grammar's shape the second finds
whatever the first refers to: a name that becomes a reference has no generic type, qualified name or
type parameter right above it. So a reference to the declaration's own name is always inside the
fixed point, and a fixed point is only made for a name that really stands there.
-/

namespace Schemata

namespace Node

/-- A type identifier with the given text. -/
def IsName (name : String) (node : Node) : Prop := node.kind = .typeIdentifier ∧ node.text = name

/-- A child of a node, given the children before it, is neither the callee of a generic type nor
part of a qualified name nor the name of a type parameter. -/
def StandsPlain (parent : Kind) (before : List Node) (node : Node) : Prop :=
  parent ≠ .genericType ∧ parent ≠ .nestedTypeIdentifier ∧
    (parent = .typeParameter → node.label.role = some .name →
      ∃ other ∈ before, other.label.role = some .name)

/-- The name stands at some depth below a node, and plainly so. -/
def PlainBelow (name : String) (tree node : Node) : Prop :=
  node.IsName name ∧ ∃ parent ∈ tree.nodes, ∃ before after,
    parent.children = before ++ node :: after ∧ node.StandsPlain parent.kind before

theorem PlainBelow.mono {name : String} {tree outer node : Node} (h : tree.PlainBelow name node)
    (htree : tree ∈ outer.nodes) : outer.PlainBelow name node := by
  obtain ⟨hname, parent, hparent, hplace⟩ := h
  exact ⟨hname, parent, nodes_subset_nodes outer htree hparent, hplace⟩

def namesNone (nodes : List Node) : Bool := nodes.all fun node => node.label.role != some .name

/-- Whether a name counts at a place: under which parent, and whether it is the name of that. -/
def countsUnder (parent : Kind) (isName : Bool) : Bool :=
  match parent with
  | .genericType | .nestedTypeIdentifier => false
  | .typeParameter => !isName
  | _ => true

theorem countsUnder_iff {parent : Kind} {before : List Node} {node : Node} :
    countsUnder parent (namesNone before && node.label.role == some .name) = true ↔
      node.StandsPlain parent before := by
  have hname : (!(namesNone before && node.label.role == some .name)) = true ↔
      (node.label.role = some .name → ∃ other ∈ before, other.label.role = some .name) := by
    simp only [namesNone, Bool.not_and, Bool.or_eq_true, Bool.not_eq_eq_eq_not, Bool.not_true,
      List.all_eq_false, bne_iff_ne, ne_eq, Decidable.not_not, beq_eq_false_iff_ne]
    grind
  cases parent with
  | typeParameter => simpa [countsUnder, StandsPlain] using hname
  | _ => simp [countsUnder, StandsPlain]

end Node

theorem mentionedIn_cons (name : String) (parent : Kind) (nameOpen : Bool) (node : Node)
    (rest : List Node) :
    mentionedIn name parent nameOpen (node :: rest) =
      (node.mentions name (Node.countsUnder parent
          (nameOpen && node.label.role == some .name)) ||
        mentionedIn name parent (nameOpen && !(nameOpen && node.label.role == some .name))
          rest) := by
  rw [mentionedIn.eq_def]
  rfl

theorem mentionedIn_iff {name : String} {parent : Kind} (front : List Node) {nodes : List Node} :
    mentionedIn name parent (Node.namesNone front) nodes = true ↔
      ∃ before node after, nodes = before ++ node :: after ∧
        node.mentions name (Node.countsUnder parent
          (Node.namesNone (front ++ before) && node.label.role == some .name)) = true := by
  induction nodes generalizing front with
  | nil => simp [mentionedIn]
  | cons node rest ih =>
    have hopen : (Node.namesNone front &&
        !(Node.namesNone front && node.label.role == some .name)) =
          Node.namesNone (front ++ [node]) := by
      have happend : Node.namesNone (front ++ [node]) =
          (Node.namesNone front && node.label.role != some .name) := by
        simp [Node.namesNone]
      rw [happend]
      cases Node.namesNone front <;> rfl
    rw [mentionedIn_cons, hopen, Bool.or_eq_true, ih]
    constructor
    · rintro (h | ⟨before, inner, after, rfl, h⟩)
      · exact ⟨[], node, rest, rfl, by rwa [List.append_nil]⟩
      · exact ⟨node :: before, inner, after, rfl, by rwa [List.append_assoc] at h⟩
    · rintro ⟨before, inner, after, hsplit, h⟩
      cases before with
      | nil =>
        cases hsplit
        exact Or.inl (by rwa [List.append_nil] at h)
      | cons first before =>
        cases hsplit
        exact Or.inr ⟨before, inner, after, rfl, by rwa [List.append_assoc]⟩

/-- The search finds a name exactly where it stands plainly: at the top, if it counts there, or
below. -/
theorem mentions_iff {name : String} {tree : Node} {plain : Bool} :
    tree.mentions name plain = true ↔
      (plain = true ∧ tree.IsName name) ∨ ∃ node, tree.PlainBelow name node := by
  induction tree using Node.induct generalizing plain with
  | step tree ih =>
    obtain ⟨label, children⟩ := tree
    have hchildren : mentionedIn name label.kind true children = true ↔
        ∃ node, (Node.mk label children).PlainBelow name node := by
      refine Iff.trans (mentionedIn_iff []) ?_
      constructor
      · rintro ⟨before, child, after, hsplit, h⟩
        have hmem : child ∈ children := by simp [hsplit]
        have hbelow : child ∈ (Node.mk label children).descendants :=
          Node.mem_descendants_of_mem_children hmem
        rw [ih child hbelow, List.nil_append, Node.countsUnder_iff] at h
        rcases h with ⟨hplain, hname⟩ | ⟨node, hnode⟩
        · exact ⟨child, hname, _, Node.self_mem_nodes _, before, after, hsplit, hplain⟩
        · exact ⟨node, hnode.mono (Node.mem_nodes_iff.2 (Or.inr hbelow))⟩
      · rintro ⟨node, hname, parent, hparent, before, after, hsplit, hplain⟩
        rcases Node.mem_nodes_iff.1 hparent with rfl | hparent
        · refine ⟨before, node, after, hsplit, ?_⟩
          rw [ih node (Node.mem_descendants_of_mem_children (by rw [hsplit]; simp))]
          exact Or.inl ⟨by rwa [List.nil_append, Node.countsUnder_iff], hname⟩
        · obtain ⟨child, hchild, hinside⟩ := Node.exists_of_mem_nodesOf hparent
          obtain ⟨front, back, hchildren⟩ := List.append_of_mem hchild
          refine ⟨front, child, back, hchildren, ?_⟩
          rw [ih child (Node.mem_descendants_of_mem_children hchild)]
          exact Or.inr ⟨node, hname, parent, hinside, before, after, hsplit, hplain⟩
    rw [Node.mentions, Bool.or_eq_true, hchildren]
    simp [Node.IsName, Node.kind, Node.text, Node.label, and_assoc]

/-! ### The grammar's shape -/

namespace Node

/-- What the grammar says of a node, as far as it matters here: qualified names have a dot, type
arguments stand in a list of their own, and so do annotations. -/
structure Shaped (node : Node) : Prop where
  dotted : node.kind = .nestedTypeIdentifier → '.' ∈ node.text.toList
  arguments : node.kind = .genericType → ∀ list ∈ node.child? .typeArguments,
    list.kind = .other "type_arguments"
  marked : node.kind ∈ [.propertySignature, .requiredParameter, .optionalParameter] →
    ∀ mark ∈ node.child? .type, mark.kind = .typeMark
  parameters : node.kind ∈ [.functionType, .constructorType] →
    ∀ parameter ∈ node.typeParameterList, parameter.kind ∈ [.requiredParameter, .optionalParameter]

instance (node : Node) : Decidable node.Shaped :=
  decidable_of_iff
    ((node.kind = .nestedTypeIdentifier → '.' ∈ node.text.toList) ∧
      (node.kind = .genericType → ∀ list ∈ node.child? .typeArguments,
        list.kind = .other "type_arguments") ∧
      (node.kind ∈ [.propertySignature, .requiredParameter, .optionalParameter] →
        ∀ mark ∈ node.child? .type, mark.kind = .typeMark) ∧
      (node.kind ∈ [.functionType, .constructorType] → ∀ parameter ∈ node.typeParameterList,
        parameter.kind ∈ [.requiredParameter, .optionalParameter]))
    ⟨fun h => ⟨h.1, h.2.1, h.2.2.1, h.2.2.2⟩,
      fun h => ⟨h.dotted, h.arguments, h.marked, h.parameters⟩⟩

/-- A node is a child somewhere in a tree, and a name counts under its parent. -/
def PlainChild (tree node : Node) : Prop :=
  ∃ parent ∈ tree.nodes, node ∈ parent.children ∧
    parent.kind ∉ [.genericType, .nestedTypeIdentifier, .typeParameter]

theorem PlainChild.mono {tree outer node : Node} (h : tree.PlainChild node)
    (htree : tree ∈ outer.nodes) : outer.PlainChild node := by
  obtain ⟨parent, hparent, hplace⟩ := h
  exact ⟨parent, nodes_subset_nodes outer htree hparent, hplace⟩

theorem PlainChild.plainBelow {tree node : Node} {name : String} (h : tree.PlainChild node)
    (hname : node.IsName name) : tree.PlainBelow name node := by
  obtain ⟨parent, hparent, hchild, hkind⟩ := h
  obtain ⟨before, after, hsplit⟩ := List.append_of_mem hchild
  simp only [List.mem_cons, List.not_mem_nil, or_false, not_or] at hkind
  exact ⟨hname, parent, hparent, before, after, hsplit, hkind.1, hkind.2.1,
    fun hparameter => absurd hparameter hkind.2.2⟩

theorem plainChild_of_mem_children {tree node : Node} (h : node ∈ tree.children)
    (hkind : tree.kind ∉ [.genericType, .nestedTypeIdentifier, .typeParameter]) :
    tree.PlainChild node :=
  ⟨tree, self_mem_nodes tree, h, hkind⟩

theorem mem_nodes_of_child? {tree child : Node} {role : Role} (h : tree.child? role = some child) :
    child ∈ tree.nodes :=
  mem_nodes_iff.2 (Or.inr (mem_descendants_of_child? h))

theorem plainChild_of_mark {tree mark node : Node} (hmark : mark ∈ tree.nodes)
    (hkind : mark.kind = .typeMark) (h : mark.parts.head? = some node) : tree.PlainChild node := by
  have hchild : node ∈ mark.children := (List.mem_filter.1 (List.mem_of_head? h)).1
  exact (plainChild_of_mem_children hchild (by rw [hkind]; simp)).mono hmark

theorem plainChild_of_annotatedType? {tree node : Node}
    (hkind : tree.kind ∈ [.propertySignature, .requiredParameter, .optionalParameter])
    (hshaped : tree.Shaped) (h : tree.annotatedType? = some node) : tree.PlainChild node := by
  obtain ⟨mark, hmark, hhead⟩ := Option.bind_eq_some_iff.1 h
  exact plainChild_of_mark (mem_nodes_of_child? hmark) (hshaped.marked hkind mark hmark) hhead

theorem members_eq_flatMap (kind : Kind) (nodes : List Node) :
    members kind nodes = nodes.flatMap (membersAt kind) := by
  induction nodes with
  | nil => rw [members, List.flatMap_nil]
  | cons node rest ih => rw [members, List.flatMap_cons, ih]

theorem plainChild_of_mem_members {kind : Kind} {tree node : Node} (hkind : tree.kind = kind)
    (hplain : kind ∉ [.genericType, .nestedTypeIdentifier, .typeParameter])
    (h : node ∈ members kind tree.children) : tree.PlainChild node := by
  induction tree using Node.induct with
  | step tree ih =>
    rw [members_eq_flatMap] at h
    obtain ⟨⟨label, children⟩, hchild, h⟩ := List.mem_flatMap.1 h
    rw [membersAt] at h
    split at h
    · split at h
      · rename_i hsame
        have hbelow := mem_descendants_of_mem_children hchild
        exact (ih _ hbelow (eq_of_beq hsame) h).mono (mem_nodes_iff.2 (Or.inr hbelow))
      · rw [List.mem_singleton.1 h]
        exact plainChild_of_mem_children hchild (hkind ▸ hplain)
    · cases h

theorem exists_of_mem_childParts {tree node : Node} {role : Role}
    (h : node ∈ ((tree.child? role).map parts).getD []) :
    ∃ list, tree.child? role = some list ∧ node ∈ list.parts := by
  cases hlist : tree.child? role with
  | none => simp [hlist] at h
  | some list =>
    rw [hlist] at h
    exact ⟨list, rfl, h⟩

theorem plainChild_of_typeArguments {tree node : Node} (hkind : tree.kind = .genericType)
    (hshaped : tree.Shaped) (h : node ∈ tree.typeArguments) : tree.PlainChild node := by
  obtain ⟨list, hlist, hnode⟩ := exists_of_mem_childParts h
  have hplain : list.kind ∉ [.genericType, .nestedTypeIdentifier, .typeParameter] := by
    rw [hshaped.arguments hkind list hlist]
    simp
  exact (plainChild_of_mem_children (List.mem_filter.1 hnode).1 hplain).mono
    (mem_nodes_of_child? hlist)

theorem plainChild_of_signature {tree node : Node}
    (hkind : tree.kind ∈ [.functionType, .constructorType])
    (hshaped : ∀ inner ∈ tree.nodes, inner.Shaped)
    (h : node ∈ tree.typeParameterList.filterMap annotatedType? ++ tree.resultType?.toList) :
    tree.PlainChild node := by
  rcases List.mem_append.1 h with hparameter | hresult
  · obtain ⟨parameter, hmem, htype⟩ := List.mem_filterMap.1 hparameter
    have hparameterKind := (hshaped tree (self_mem_nodes tree)).parameters hkind parameter hmem
    obtain ⟨list, hlist, hpart⟩ := exists_of_mem_childParts hmem
    have hnodes : parameter ∈ tree.nodes := nodes_subset_nodes tree (mem_nodes_of_child? hlist)
      (mem_nodes_iff.2 (Or.inr (mem_descendants_of_mem_parts hpart)))
    exact (plainChild_of_annotatedType? (List.mem_cons_of_mem _ hparameterKind)
      (hshaped parameter hnodes) htype).mono hnodes
  · refine plainChild_of_mem_children
      (mem_children_of_resultType? (Option.mem_toList.1 hresult)) ?_
    simp only [List.mem_cons, List.not_mem_nil, or_false] at hkind
    rcases hkind with hkind | hkind <;> simp [hkind]

theorem plainChild_of_memberType? {tree node : Node}
    (hkind : tree.kind ∈ [.requiredParameter, .optionalParameter]) (hshaped : tree.Shaped)
    (h : tree.memberType? = some node) : tree.PlainChild node := by
  obtain ⟨mark, hmark, hhead⟩ := Option.bind_eq_some_iff.1 h
  cases hrole : tree.child? .type with
  | some inner =>
    rw [hrole] at hmark
    cases hmark
    exact plainChild_of_mark (mem_nodes_of_child? hrole)
      (hshaped.marked (List.mem_cons_of_mem _ hkind) _ hrole) hhead
  | none =>
    rw [hrole] at hmark
    have hfound : tree.children.find? (fun child => child.label.named &&
        child.kind == .typeMark) = some mark := hmark
    have hmarkKind : mark.kind = .typeMark := by
      have hsome := List.find?_some hfound
      rw [Bool.and_eq_true] at hsome
      exact eq_of_beq hsome.2
    have hnodes : mark ∈ tree.nodes := mem_nodes_iff.2
      (Or.inr (mem_descendants_of_mem_children (List.mem_of_find?_eq_some hfound)))
    exact plainChild_of_mark hnodes hmarkKind hhead

theorem plainChild_of_property {tree node : Node} (hshaped : ∀ inner ∈ tree.nodes, inner.Shaped)
    {property : Node} (hproperty : property ∈ tree.properties)
    (h : property.annotatedType? = some node) : property.PlainChild node := by
  obtain ⟨hpart, hkind⟩ := List.mem_filter.1 hproperty
  have hnodes : property ∈ tree.nodes :=
    mem_nodes_iff.2 (Or.inr (mem_descendants_of_mem_parts hpart))
  exact plainChild_of_annotatedType? (by simp [eq_of_beq hkind]) (hshaped property hnodes) h

/-- Whatever a type is made of stands where a name counts. -/
theorem plainChild_of_mem_typeParts {tree node : Node}
    (hshaped : ∀ inner ∈ tree.nodes, inner.Shaped) (h : node ∈ tree.typeParts) :
    tree.PlainChild node := by
  have hself : tree.Shaped := hshaped tree (self_mem_nodes tree)
  have hfirst : tree.kind ∉ [.genericType, .nestedTypeIdentifier, .typeParameter] →
      node ∈ tree.parts.head?.toList → tree.PlainChild node :=
    fun hkind hhead => plainChild_of_mem_children
      (List.mem_filter.1 (List.mem_of_head? (Option.mem_toList.1 hhead))).1 hkind
  rw [typeParts] at h
  split at h <;> rename_i hkind
  · split at h
    · cases h
    · exact plainChild_of_typeArguments hkind hself h
  · exact hfirst (by simp [hkind]) h
  · exact hfirst (by simp [hkind]) h
  · exact hfirst (by simp [hkind]) h
  · exact hfirst (by simp [hkind]) h
  · exact hfirst (by simp [hkind]) h
  · exact plainChild_of_mem_children (List.mem_filter.1 h).1 (by simp [hkind])
  · exact plainChild_of_mem_members rfl (by simp [hkind]) h
  · exact plainChild_of_mem_members rfl (by simp [hkind]) h
  · obtain ⟨property, hproperty, htype⟩ := List.mem_filterMap.1 h
    exact (plainChild_of_property hshaped hproperty htype).mono (mem_nodes_iff.2
      (Or.inr (mem_descendants_of_mem_parts (List.mem_filter.1 hproperty).1)))
  · exact plainChild_of_signature (by simp [hkind]) hshaped h
  · exact plainChild_of_signature (by simp [hkind]) hshaped h
  · obtain ⟨role, -, hrole⟩ := List.mem_filterMap.1 h
    exact plainChild_of_mem_children (List.mem_of_find?_eq_some hrole) (by simp [hkind])
  · exact plainChild_of_memberType? (by simp [hkind]) hself (Option.mem_toList.1 h)
  · exact plainChild_of_memberType? (by simp [hkind]) hself (Option.mem_toList.1 h)
  · cases h

theorem mem_nodes_of_typeWithin {tree node : Node} (h : TypeWithin tree node) :
    node ∈ tree.nodes := by
  induction h with
  | refl => exact self_mem_nodes tree
  | tail _ hpart ih =>
    exact nodes_subset_nodes tree ih
      (mem_nodes_iff.2 (Or.inr (mem_descendants_of_mem_typeParts hpart)))

/-- A name that a type is made of is the type itself, or stands plainly below it. -/
theorem eq_or_plainBelow_of_typeWithin {tree node : Node} {name : String}
    (hshaped : ∀ inner ∈ tree.nodes, inner.Shaped) (h : TypeWithin tree node)
    (hname : node.IsName name) : node = tree ∨ tree.PlainBelow name node := by
  rcases Relation.ReflTransGen.cases_tail h with heq | ⟨outer, houter, hpart⟩
  · exact Or.inl heq
  · have hnodes := mem_nodes_of_typeWithin houter
    have hplain := plainChild_of_mem_typeParts
      (fun inner hinner => hshaped inner (nodes_subset_nodes tree hnodes hinner)) hpart
    exact Or.inr ((hplain.mono hnodes).plainBelow hname)

/-- The value of an alias, or the members of an interface. -/
def ownMembers (node : Node) : List Node :=
  if node.kind == .typeAlias then (node.child? .value).toList
  else ((node.child? .body).map parts).getD []

/-- The name is the node itself, or stands plainly below it. -/
def HasPlainName (name : String) (tree : Node) : Prop :=
  tree.IsName name ∨ ∃ node, tree.PlainBelow name node

theorem mentionedIn_parts_iff {body : Node} {name : String} :
    mentionedIn name body.kind true body.parts = true ↔
      ∃ before member after, body.parts = before ++ member :: after ∧
        ((member.StandsPlain body.kind before ∧ member.IsName name) ∨
          ∃ node, member.PlainBelow name node) := by
  refine Iff.trans (mentionedIn_iff []) ?_
  simp only [List.nil_append, mentions_iff, countsUnder_iff]

section Declaration

variable {declaration : Node} {name : String}

theorem isSelfReferential_alias (hkind : declaration.kind = .typeAlias)
    (hname : (declaration.child? .name).map text = some name) :
    declaration.isSelfReferential = true ↔
      ∃ value, declaration.child? .value = some value ∧ value.HasPlainName name := by
  obtain ⟨nameNode, hnameNode, rfl⟩ := Option.map_eq_some_iff.1 hname
  rw [isSelfReferential, hnameNode]
  simp only [hkind, beq_self_eq_true, if_true]
  cases declaration.child? .value with
  | none => simp
  | some value => simp [mentions_iff, HasPlainName]

theorem isSelfReferential_other (hkind : declaration.kind ≠ .typeAlias)
    (hname : (declaration.child? .name).map text = some name) :
    declaration.isSelfReferential = true ↔
      ∃ body, declaration.child? .body = some body ∧
        mentionedIn name body.kind true body.parts = true := by
  obtain ⟨nameNode, hnameNode, rfl⟩ := Option.map_eq_some_iff.1 hname
  rw [isSelfReferential, hnameNode]
  simp only [beq_iff_eq, hkind, if_false]
  cases declaration.child? .body with
  | none => simp
  | some body => simp

/-- A fixed point is made only for a name that stands plainly in the value or in a member. -/
theorem exists_plainName_of_isSelfReferential
    (hname : (declaration.child? .name).map text = some name)
    (h : declaration.isSelfReferential = true) :
    ∃ tree ∈ declaration.ownMembers, tree.HasPlainName name := by
  unfold ownMembers
  by_cases hkind : declaration.kind = .typeAlias
  · obtain ⟨value, hvalue, hplain⟩ := (isSelfReferential_alias hkind hname).1 h
    rw [if_pos (beq_iff_eq.2 hkind), hvalue]
    exact ⟨value, by simp, hplain⟩
  · obtain ⟨body, hbody, hmentioned⟩ := (isSelfReferential_other hkind hname).1 h
    obtain ⟨before, member, after, hsplit, hplain⟩ := mentionedIn_parts_iff.1 hmentioned
    rw [if_neg (by simpa using hkind), hbody]
    exact ⟨member, by simp [hsplit], hplain.imp_left And.right⟩

/-- What the declaration's own expression refers to by its name is found by the search. -/
theorem isSelfReferential_of_names (hkind : declaration.kind.isSchema = true)
    (hshaped : ∀ inner ∈ declaration.nodes, inner.Shaped)
    (hname : (declaration.child? .name).map text = some name) (hdot : '.' ∉ name.toList)
    (h : ∃ origin ∈ declaration.ownTypes, origin.Names name) :
    declaration.isSelfReferential = true := by
  obtain ⟨origin, horigin, inner, hwithin, hinnerKind, htext⟩ := h
  have horiginNodes : origin ∈ declaration.nodes :=
    mem_nodes_iff.2 (Or.inr (mem_descendants_of_mem_ownTypes horigin))
  have hinnerNodes : inner ∈ declaration.nodes :=
    nodes_subset_nodes declaration horiginNodes (mem_nodes_of_typeWithin hwithin)
  -- qualified names have a dot, so it is a plain one
  have hisName : inner.IsName name := by
    simp only [List.mem_cons, List.not_mem_nil, or_false] at hinnerKind
    rcases hinnerKind with hplain | hqualified
    · exact ⟨hplain, htext⟩
    · exact absurd (htext ▸ (hshaped inner hinnerNodes).dotted hqualified) hdot
  have horiginShaped : ∀ node ∈ origin.nodes, node.Shaped := fun node hnode =>
    hshaped node (nodes_subset_nodes declaration horiginNodes hnode)
  have hplace := eq_or_plainBelow_of_typeWithin horiginShaped hwithin hisName
  rw [ownTypes] at horigin
  rcases Kind.eq_of_isSchema hkind with hkind | hkind
  · rw [if_pos (beq_iff_eq.2 hkind)] at horigin
    rw [isSelfReferential_alias hkind hname]
    refine ⟨origin, Option.mem_toList.1 horigin, ?_⟩
    rcases hplace with rfl | hbelow
    · exact Or.inl hisName
    · exact Or.inr ⟨inner, hbelow⟩
  · have hother : declaration.kind ≠ .typeAlias := by simp [hkind]
    rw [if_neg (by simpa using hother)] at horigin
    rw [isSelfReferential_other hother hname]
    cases hbody : declaration.child? .body with
    | none => simp [hbody] at horigin
    | some body =>
      rw [hbody] at horigin
      obtain ⟨property, hproperty, htype⟩ := List.mem_filterMap.1 horigin
      have hpart : property ∈ body.parts := (List.mem_filter.1 hproperty).1
      have hbodyShaped : ∀ node ∈ body.nodes, node.Shaped := fun node hnode =>
        hshaped node (nodes_subset_nodes declaration (mem_nodes_of_child? hbody) hnode)
      have hchild := plainChild_of_property hbodyShaped hproperty htype
      have hbelow : property.PlainBelow name inner := by
        rcases hplace with rfl | hbelow
        · exact hchild.plainBelow hisName
        · exact hbelow.mono (mem_nodes_iff.2 (Or.inr (mem_descendants_of_annotatedType? htype)))
      obtain ⟨before, after, hsplit⟩ := List.append_of_mem hpart
      exact ⟨body, rfl, mentionedIn_parts_iff.2
        ⟨before, property, after, hsplit, Or.inr ⟨inner, hbelow⟩⟩⟩

end Declaration

/-- The value of an alias, or the body of an interface. -/
def ownTree? (node : Node) : Option Node :=
  if node.kind == .typeAlias then node.child? .value else node.child? .body

theorem mem_nodes_ownTree?_of_mem_ownTypes {node origin : Node} (h : origin ∈ node.ownTypes) :
    ∃ tree ∈ node.ownTree?, origin ∈ tree.nodes := by
  rw [ownTypes] at h
  unfold ownTree?
  split at h <;> rename_i hkind
  · rw [if_pos hkind]
    exact ⟨origin, Option.mem_toList.1 h, self_mem_nodes origin⟩
  · rw [if_neg hkind]
    cases hbody : node.child? .body with
    | none => simp [hbody] at h
    | some body =>
      rw [hbody] at h
      refine ⟨body, rfl, mem_nodes_iff.2 (Or.inr ?_)⟩
      exact mem_descendants_of_mem_filterMap
        (fun other hother => mem_descendants_of_mem_parts (List.mem_filter.1 hother).1) h

end Node

theorem Node.tied_eq_recursive_iff {node : Node} {name : String} {own : Expr} :
    node.tied name own = .recursive name own ↔ node.isSelfReferential = true := by
  unfold Node.tied
  split
  · simpa using ‹_›
  · rename_i hplain
    refine iff_of_false (fun h => ?_) hplain
    have hsize := congrArg sizeOf h
    simp at hsize

/-- **Self references are bound.** Take an alias or an interface of the grammar's shape whose name
has no dot, with no access in its value or body. If its own expression refers to its name at any
depth, then it is put inside a fixed point of that name; and if it is, then the name really stands,
plainly, in the value or in a member. -/
theorem selfReferences_bound {find : String → Option Expr} {topLevel exported : Bool}
    {previous : Option Node} {node : Node} {name : String} {found : Option Declaration}
    (hkind : node.kind.isSchema = true) (hshaped : ∀ inner ∈ node.nodes, inner.Shaped)
    (hname : (node.child? .name).map Node.text = some name) (hdot : '.' ∉ name.toList)
    (haccess : ∀ tree ∈ node.ownTree?, ∀ inner ∈ tree.nodes, inner.kind ≠ .lookupType)
    (hfound : (statement find topLevel exported previous node).result = .ok found) :
    ∃ parts : SchemaParts, parts.name = name ∧
      found = some (.schema name exported (node.composed name parts.heritage parts.own)
        parts.parameters) ∧
      (ownExpr find node).result = .ok parts.value ∧
      (withOptions node.label parts.options parts.value).result = .ok parts.own ∧
      (.ref name ∈ parts.value.subterms ∨ .ref name ∈ parts.own.subterms →
        node.tied name parts.own = .recursive name parts.own) ∧
      (node.tied name parts.own = .recursive name parts.own →
        ∃ tree ∈ node.ownMembers, tree.HasPlainName name) := by
  rw [statement_eq_schemaStatement hkind, map_eq_pure_bind] at hfound
  obtain ⟨declaration, hdeclaration, hfound⟩ := Report.result_bind_eq_ok.1 hfound
  obtain ⟨parts, rfl, hparts⟩ := exists_schemaParts hdeclaration
  cases hfound
  obtain rfl : parts.name = name := Option.some.inj (hparts.name.symm.trans hname)
  have hvalue : parts.value.Everywhere
      (Expr.RefersIn fun name => ∃ origin ∈ node.ownTypes, origin.Names name) := by
    refine anyEvents_holds.1 (refersIn_ownExpr find fun origin horigin inner hinner => ?_)
      parts.value hparts.value
    obtain ⟨tree, htree, hmem⟩ := Node.mem_nodes_ownTree?_of_mem_ownTypes horigin
    exact haccess tree htree inner (Node.nodes_subset_nodes tree hmem hinner)
  have hown : parts.own.Everywhere
      (Expr.RefersIn fun name => ∃ origin ∈ node.ownTypes, origin.Names name) :=
    anyEvents_holds.1 (everywhere_withOptions (Expr.leafwise_refersIn _) hvalue) parts.own
      hparts.own
  refine ⟨parts, rfl, rfl, hparts.value, hparts.own, fun href => ?_, fun htied => ?_⟩
  · rw [Node.tied_eq_recursive_iff]
    refine Node.isSelfReferential_of_names hkind hshaped hname hdot ?_
    rcases href with href | href
    · exact hvalue _ href _ rfl
    · exact hown _ href _ rfl
  · exact Node.exists_plainName_of_isSelfReferential hname (Node.tied_eq_recursive_iff.1 htied)

/-- `interface Tree { children: Tree[] }` -/
def treeInterface : Node :=
  .sample .interface none "" [
    .sample .typeIdentifier (some .name) "Tree" [],
    .sample (.other "interface_body") (some .body) "" [
      .sampleProperty "children"
        (.sample .arrayType none "" [.sample .typeIdentifier none "Tree" []])]]

/-- The interface refers to itself inside an array, and is tied by its name. -/
theorem selfReferences_treeInterface :
    ∃ parts : SchemaParts, parts.name = "Tree" ∧ .ref "Tree" ∈ parts.value.subterms ∧
      treeInterface.tied "Tree" parts.own = .recursive "Tree" parts.own ∧
      ∃ tree ∈ treeInterface.ownMembers, tree.HasPlainName "Tree" := by
  have hfound : (statement (fun _ => none) true false none treeInterface).result = .ok
      (some (.schema "Tree" false (.recursive "Tree" (.construct "Object" [.object
        [("children", .construct "Array" [.ref "Tree"])]])) [])) := rfl
  obtain ⟨parts, hname, -, hvalue, -, hbound, hplain⟩ :=
    selfReferences_bound rfl (by decide) rfl (by decide) (by decide) hfound
  have hown : (ownExpr (fun _ => none) treeInterface).result = .ok (.construct "Object" [.object
      [("children", .construct "Array" [.ref "Tree"])]]) := rfl
  have href : .ref "Tree" ∈ parts.value.subterms := by
    rw [← Except.ok.inj (hown.symm.trans hvalue)]
    simp [Expr.construct, Expr.subterms, Expr.subtermsOf, Expr.subtermsOfFields]
  exact ⟨parts, hname, href, hbound (Or.inl href), hplain (hbound (Or.inl href))⟩

end Schemata

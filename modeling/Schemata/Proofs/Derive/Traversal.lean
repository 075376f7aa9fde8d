import Schemata.Proofs.Derive.Judgement
import Schemata.Proofs.Derive.StatementLaw

/-!
# What a derivation goes through

The functions that derive types and statements recurse on lists of children, for that is where trees
get smaller. Seen from outside each of them picks some children, as parts or by a role, and derives
these in order. Here they are read that way, and what they pick gets names of its own: the types
that a type is made of, and the statements inside a statement. All of it lies below the node it is
picked from, so statements about whole derivations are shown by one induction along the nodes.
-/

namespace Schemata

namespace Node

def first? (role : Role) (nodes : List Node) : Option Node :=
  nodes.find? fun node => node.label.role == some role

/-- Each of several siblings with the one before it. -/
def withPrevious (previous : Option Node) : List Node → List (Option Node × Node)
  | [] => []
  | node :: rest => (previous, node) :: withPrevious (some node) rest

/-! ### Sample trees -/

/-- `type name = value`, with type parameters in between or without. -/
def sampleAlias (name : String) (parameters : List Node) (value : Node) : Node :=
  sample .typeAlias none "" (sample .typeIdentifier (some .name) name [] :: parameters ++ [value])

/-- The type parameter `<name>`. -/
def sampleParameter (name : String) : Node :=
  sample .typeParameters (some .typeParameters) "" [
    sample .typeParameter none name [sample .typeIdentifier (some .name) name []]]

/-- The property `name: type`. -/
def sampleProperty (name : String) (type : Node) : Node :=
  sample .propertySignature none "" [
    sample (.other "property_identifier") (some .name) name [],
    sample .typeMark (some .type) "" [type]]

/-- The value `base[key]`. -/
def sampleAccess (base key : String) : Node :=
  sample .lookupType (some .value) "" [
    sample .typeIdentifier none base [], sample .literalType none key []]

def sampleNamespace (name : String) (body : List Node) : Node :=
  sample .internalModule none "" [
    sample (.other "identifier") (some .name) name [],
    sample (.other "statement_block") (some .body) "" body]

/-! ### The types that a type is made of -/

def annotatedType? (node : Node) : Option Node :=
  (node.child? .type).bind fun mark => mark.parts.head?

def memberType? (node : Node) : Option Node :=
  (node.child? .type <|>
    node.children.find? fun child => child.label.named && child.kind == .typeMark).bind
    fun mark => mark.parts.head?

def typeArguments (node : Node) : List Node :=
  ((node.child? .typeArguments).map parts).getD []

def properties (node : Node) : List Node :=
  node.parts.filter fun part => part.kind == .propertySignature

def typeParameterList (node : Node) : List Node :=
  ((node.child? .parameters).map parts).getD []

/-- The result of a function type: by its role, or the last part that is no list of parameters. -/
def resultType? (node : Node) : Option Node :=
  node.child? .returnType <|> node.child? .type <|>
    (node.children.filter fun child => child.isPart && child.kind != .formalParameters &&
      child.kind != .typeParameters).getLast?

mutual

/-- A member of a union or an intersection, or the members of one of the same kind in its place. -/
def membersAt (kind : Kind) : Node → List Node
  | mk label children =>
    if label.named && !label.kind.isComment then
      if label.kind == kind then members kind children else [mk label children]
    else []

def members (kind : Kind) : List Node → List Node
  | [] => []
  | node :: rest => membersAt kind node ++ members kind rest

end

/-- The types that a type is made of: those whose expressions its expression is built from. -/
def typeParts (node : Node) : List Node :=
  match node.kind with
  | .genericType =>
    if (node.child? .name).map text = some "Uint8Array" then [] else node.typeArguments
  | .arrayType | .keyofType | .readonlyType | .optionalType | .parenthesizedType =>
    node.parts.head?.toList
  | .tupleType => node.parts
  | .unionType | .intersectionType => members node.kind node.children
  | .objectType => node.properties.filterMap annotatedType?
  | .functionType | .constructorType =>
    node.typeParameterList.filterMap annotatedType? ++ node.resultType?.toList
  | .conditionalType => [.left, .right, .consequence, .alternative].filterMap node.child?
  | .requiredParameter | .optionalParameter => node.memberType?.toList
  | _ => []

/-! ### The statements inside a statement -/

/-- The statements whose declarations go into that of a statement, each with what stands before it,
or before the export around it. -/
def subStatements (previous : Option Node) (node : Node) : List (Option Node × Node) :=
  match node.kind with
  | .exportStatement => (node.child? .declaration).toList.map fun inner => (previous, inner)
  | .internalModule | .externalModule =>
    ((node.child? .body).map fun block =>
      (withPrevious none block.children).filter fun pair => pair.2.label.named).getD []
  | .expressionStatement =>
    match node.parts with
    | [part] => if part.kind == .internalModule then [(none, part)] else []
    | _ => []
  | _ => []

/-- A statement declares a name: by itself, through an export, or as a namespace that the grammar
takes for an expression. -/
inductive Declares (name : String) : Node → Prop where
  | named {node : Node} (hkind : node.kind ∈ [.typeAlias, .interface, .enumeration,
      .internalModule, .externalModule]) (hname : (node.child? .name).map text = some name) :
      Declares name node
  | exported {node inner : Node} (hkind : node.kind = .exportStatement)
      (hinner : node.child? .declaration = some inner) (h : Declares name inner) :
      Declares name node
  | expression {node part : Node} (hkind : node.kind = .expressionStatement)
      (hparts : node.parts = [part]) (hpart : part.kind = .internalModule)
      (h : Declares name part) : Declares name node

/-- The types that the expression of an alias, or the own members of an interface, are made of. -/
def ownTypes (declaration : Node) : List Node :=
  if declaration.kind == .typeAlias then (declaration.child? .value).toList
  else ((declaration.child? .body).map fun body => body.properties.filterMap annotatedType?).getD []

/-- The types in the `extends` clauses of an interface: the arguments of generic types. -/
def heritageTypes (declaration : Node) : List Node :=
  if declaration.kind == .typeAlias then []
  else ((declaration.children.filter fun child => child.kind == .extendsClause).flatMap
    fun clause => clause.parts.filter fun part => part.kind == .genericType).flatMap typeArguments

/-! ### Below a node -/

def descendants (node : Node) : List Node := nodesOf node.children

theorem mem_nodes_iff {node tree : Node} :
    node ∈ tree.nodes ↔ node = tree ∨ node ∈ tree.descendants := by
  cases tree
  simp [nodes, descendants, children]

theorem exists_of_mem_nodesOf {node : Node} {trees : List Node} (h : node ∈ nodesOf trees) :
    ∃ tree ∈ trees, node ∈ tree.nodes := by
  induction trees with
  | nil => simp [nodesOf] at h
  | cons tree rest ih =>
    rw [nodesOf, List.mem_append] at h
    rcases h with h | h
    · exact ⟨tree, List.mem_cons_self, h⟩
    · obtain ⟨other, hother, hnode⟩ := ih h
      exact ⟨other, List.mem_cons_of_mem _ hother, hnode⟩

theorem mem_descendants_of_mem_children {node tree : Node} (h : node ∈ tree.children) :
    node ∈ tree.descendants :=
  mem_nodesOf h (self_mem_nodes node)

mutual

theorem nodes_subset_nodes {node : Node} :
    (tree : Node) → node ∈ tree.nodes → node.nodes ⊆ tree.nodes
  | mk label children, h => by
    rcases mem_nodes_iff.1 h with rfl | h
    · exact List.Subset.refl _
    · intro inner hinner
      exact mem_nodes_iff.2 (Or.inr (nodes_subset_nodesOf children h hinner))

theorem nodes_subset_nodesOf {node : Node} :
    (trees : List Node) → node ∈ nodesOf trees → node.nodes ⊆ nodesOf trees
  | [], h => by simp [nodesOf] at h
  | tree :: rest, h => by
    rw [nodesOf, List.mem_append] at h
    rw [nodesOf]
    rcases h with h | h
    · exact fun inner hinner => List.mem_append_left _ (nodes_subset_nodes tree h hinner)
    · exact fun inner hinner => List.mem_append_right _ (nodes_subset_nodesOf rest h hinner)

end

theorem descendants_subset {node tree : Node} (h : node ∈ tree.descendants) :
    node.descendants ⊆ tree.descendants :=
  fun _ hinner => nodes_subset_nodesOf tree.children h (mem_nodes_iff.2 (Or.inr hinner))

theorem mem_descendants_of_mem_parts {node tree : Node} (h : node ∈ tree.parts) :
    node ∈ tree.descendants :=
  mem_descendants_of_mem_children (List.mem_filter.1 h).1

theorem mem_descendants_of_child? {node tree : Node} {role : Role}
    (h : tree.child? role = some node) : node ∈ tree.descendants :=
  mem_descendants_of_mem_children (List.mem_of_find?_eq_some h)

theorem mem_descendants_trans {inner node tree : Node} (hinner : inner ∈ node.descendants)
    (hnode : node ∈ tree.descendants) : inner ∈ tree.descendants :=
  descendants_subset hnode hinner

private theorem mem_descendants_of_bind_parts {node tree : Node} {mark? : Option Node}
    (hmark : ∀ mark ∈ mark?, mark ∈ tree.descendants)
    (h : mark?.bind (fun mark => mark.parts.head?) = some node) : node ∈ tree.descendants := by
  obtain ⟨mark, rfl, hhead⟩ := Option.bind_eq_some_iff.1 h
  exact mem_descendants_trans (mem_descendants_of_mem_parts (List.mem_of_head? hhead))
    (hmark mark rfl)

theorem mem_descendants_of_map_parts {node tree : Node} {role : Role}
    (h : node ∈ ((tree.child? role).map parts).getD []) : node ∈ tree.descendants := by
  cases hchild : tree.child? role with
  | none => simp [hchild] at h
  | some child =>
    rw [hchild] at h
    exact mem_descendants_trans (mem_descendants_of_mem_parts h) (mem_descendants_of_child? hchild)

theorem mem_descendants_of_annotatedType? {node tree : Node}
    (h : tree.annotatedType? = some node) : node ∈ tree.descendants :=
  mem_descendants_of_bind_parts (fun _ hmark => mem_descendants_of_child? hmark) h

private theorem eq_some_of_orElse {first second : Option Node} {node : Node}
    (h : (first <|> second) = some node) : first = some node ∨ second = some node := by
  cases first with
  | none => exact Or.inr h
  | some _ => exact Or.inl h

theorem mem_descendants_of_memberMark? {mark tree : Node}
    (h : (tree.child? .type <|> tree.children.find? fun child =>
      child.label.named && child.kind == .typeMark) = some mark) : mark ∈ tree.descendants := by
  rcases eq_some_of_orElse h with hrole | hkind
  · exact mem_descendants_of_child? hrole
  · exact mem_descendants_of_mem_children (List.mem_of_find?_eq_some hkind)

theorem mem_descendants_of_memberType? {node tree : Node} (h : tree.memberType? = some node) :
    node ∈ tree.descendants :=
  mem_descendants_of_bind_parts (fun _ => mem_descendants_of_memberMark?) h

theorem mem_children_of_resultType? {node tree : Node} (h : tree.resultType? = some node) :
    node ∈ tree.children := by
  rcases eq_some_of_orElse h with hreturn | hrest
  · exact List.mem_of_find?_eq_some hreturn
  · rcases eq_some_of_orElse hrest with htype | hlast
    · exact List.mem_of_find?_eq_some htype
    · exact (List.mem_filter.1 (List.mem_of_getLast? hlast)).1

theorem mem_descendants_of_resultType? {node tree : Node} (h : tree.resultType? = some node) :
    node ∈ tree.descendants :=
  mem_descendants_of_mem_children (mem_children_of_resultType? h)

theorem mem_descendants_of_mem_filterMap {node tree : Node} {nodes : List Node}
    (hnodes : ∀ other ∈ nodes, other ∈ tree.descendants)
    (h : node ∈ nodes.filterMap annotatedType?) : node ∈ tree.descendants := by
  obtain ⟨other, hother, htype⟩ := List.mem_filterMap.1 h
  exact mem_descendants_trans (mem_descendants_of_annotatedType? htype) (hnodes other hother)

mutual

theorem mem_nodes_of_mem_membersAt {kind : Kind} {node : Node} :
    (tree : Node) → node ∈ membersAt kind tree → node ∈ tree.nodes
  | mk label children, h => by
    rw [membersAt] at h
    split at h
    · split at h
      · exact mem_nodes_of_child (mem_nodesOf_of_mem_members children h)
      · rw [List.mem_singleton.1 h]
        exact self_mem_nodes _
    · cases h

theorem mem_nodesOf_of_mem_members {kind : Kind} {node : Node} :
    (trees : List Node) → node ∈ members kind trees → node ∈ nodesOf trees
  | [], h => by simp [members] at h
  | tree :: rest, h => by
    rw [members, List.mem_append] at h
    rw [nodesOf, List.mem_append]
    rcases h with h | h
    · exact Or.inl (mem_nodes_of_mem_membersAt tree h)
    · exact Or.inr (mem_nodesOf_of_mem_members rest h)

end

theorem mem_descendants_of_mem_typeParts {node tree : Node} (h : node ∈ tree.typeParts) :
    node ∈ tree.descendants := by
  have hfirst : node ∈ tree.parts.head?.toList → node ∈ tree.descendants :=
    fun hhead => mem_descendants_of_mem_parts (List.mem_of_head? (Option.mem_toList.1 hhead))
  have hsignature : node ∈ tree.typeParameterList.filterMap annotatedType? ++
      tree.resultType?.toList → node ∈ tree.descendants := by
    intro hnode
    rcases List.mem_append.1 hnode with hparameter | hresult
    · exact mem_descendants_of_mem_filterMap (fun _ => mem_descendants_of_map_parts) hparameter
    · exact mem_descendants_of_resultType? (Option.mem_toList.1 hresult)
  rw [typeParts] at h
  split at h
  · split at h
    · cases h
    · exact mem_descendants_of_map_parts h
  · exact hfirst h
  · exact hfirst h
  · exact hfirst h
  · exact hfirst h
  · exact hfirst h
  · exact mem_descendants_of_mem_parts h
  · exact mem_nodesOf_of_mem_members _ h
  · exact mem_nodesOf_of_mem_members _ h
  · refine mem_descendants_of_mem_filterMap (fun other hother => ?_) h
    exact mem_descendants_of_mem_parts (List.mem_filter.1 hother).1
  · exact hsignature h
  · exact hsignature h
  · obtain ⟨role, -, hchild⟩ := List.mem_filterMap.1 h
    exact mem_descendants_of_child? hchild
  · exact mem_descendants_of_memberType? (Option.mem_toList.1 h)
  · exact mem_descendants_of_memberType? (Option.mem_toList.1 h)
  · cases h

theorem mem_of_mem_withPrevious {previous : Option Node} {nodes : List Node}
    {pair : Option Node × Node} (h : pair ∈ withPrevious previous nodes) : pair.2 ∈ nodes := by
  induction nodes generalizing previous with
  | nil => cases h
  | cons node rest ih =>
    rcases List.mem_cons.1 h with rfl | h
    · exact List.mem_cons_self
    · exact List.mem_cons_of_mem _ (ih h)

theorem exists_mem_withPrevious (previous : Option Node) {nodes : List Node} {node : Node}
    (h : node ∈ nodes) : ∃ before, (before, node) ∈ withPrevious previous nodes := by
  induction nodes generalizing previous with
  | nil => cases h
  | cons other rest ih =>
    rcases List.mem_cons.1 h with rfl | h
    · exact ⟨previous, List.mem_cons_self⟩
    · obtain ⟨before, hbefore⟩ := ih (some other) h
      exact ⟨before, List.mem_cons_of_mem _ hbefore⟩

theorem mem_descendants_of_mem_ownTypes {node tree : Node} (h : node ∈ tree.ownTypes) :
    node ∈ tree.descendants := by
  rw [ownTypes] at h
  split at h
  · exact mem_descendants_of_child? (Option.mem_toList.1 h)
  · cases hbody : tree.child? .body with
    | none => simp [hbody] at h
    | some body =>
      rw [hbody] at h
      refine mem_descendants_of_mem_filterMap (fun other hother => ?_) h
      exact mem_descendants_trans (mem_descendants_of_mem_parts (List.mem_filter.1 hother).1)
        (mem_descendants_of_child? hbody)

theorem mem_descendants_of_mem_heritageTypes {node tree : Node} (h : node ∈ tree.heritageTypes) :
    node ∈ tree.descendants := by
  rw [heritageTypes] at h
  split at h
  · cases h
  · obtain ⟨generic, hgeneric, hnode⟩ := List.mem_flatMap.1 h
    obtain ⟨clause, hclause, hpart⟩ := List.mem_flatMap.1 hgeneric
    have hclause' := mem_descendants_of_mem_children (List.mem_filter.1 hclause).1
    have hgeneric' := mem_descendants_of_mem_parts (List.mem_filter.1 hpart).1
    exact mem_descendants_trans (mem_descendants_of_map_parts hnode)
      (mem_descendants_trans hgeneric' hclause')

mutual

private theorem forall_mem_nodes {motive : Node → Prop}
    (step : ∀ node : Node, (∀ inner ∈ node.descendants, motive inner) → motive node) :
    (tree : Node) → ∀ node ∈ tree.nodes, motive node
  | mk label children, node, h => by
    have hbelow : ∀ inner ∈ nodesOf children, motive inner := forall_mem_nodesOf step children
    rcases mem_nodes_iff.1 h with rfl | h
    · exact step _ hbelow
    · exact hbelow node h

private theorem forall_mem_nodesOf {motive : Node → Prop}
    (step : ∀ node : Node, (∀ inner ∈ node.descendants, motive inner) → motive node) :
    (trees : List Node) → ∀ node ∈ nodesOf trees, motive node
  | [], node, h => by simp [nodesOf] at h
  | tree :: rest, node, h => by
    rw [nodesOf, List.mem_append] at h
    rcases h with h | h
    · exact forall_mem_nodes step tree node h
    · exact forall_mem_nodesOf step rest node h

end

/-- What holds of a node as soon as it holds of all nodes below it holds of every node. -/
theorem induct {motive : Node → Prop}
    (step : ∀ node : Node, (∀ inner ∈ node.descendants, motive inner) → motive node)
    (node : Node) : motive node :=
  forall_mem_nodes step node node (self_mem_nodes node)

end Node

theorem Node.child?_eq (node : Node) (role : Role) :
    node.child? role = Node.first? role node.children := rfl

@[simp] theorem Node.first?_nil (role : Role) : Node.first? role [] = none := rfl

theorem Node.first?_cons (role : Role) (label : Label) (children rest : List Node) :
    Node.first? role (mk label children :: rest) =
      if label.role == some role then some (mk label children) else Node.first? role rest := by
  by_cases h : label.role = some role <;> simp [first?, Node.label, h]

theorem Node.isPart_mk (label : Label) (children : List Node) :
    (mk label children).isPart = (label.named && !label.kind.isComment) := rfl

/-! ### Types

One equation for each of the functions that go through a list of children. -/

section Types

variable (find : String → Option Expr)

theorem firstExpr_eq (nodes : List Node) :
    firstExpr find nodes = ((nodes.filter Node.isPart).head?.map (typeExpr find)).getD
      (Report.fault .noPart) := by
  induction nodes with
  | nil => rfl
  | cons node rest ih =>
    rw [firstExpr]
    by_cases hpart : node.isPart = true <;> simp [hpart, ih]

theorem partExprs_eq_mapM (nodes : List Node) :
    partExprs find nodes = (nodes.filter Node.isPart).mapM (typeExpr find) := by
  induction nodes with
  | nil => rfl
  | cons node rest ih =>
    rw [partExprs]
    by_cases hpart : node.isPart = true <;> simp [hpart, ih]

theorem roleExpr?_eq (role : Role) (nodes : List Node) :
    roleExpr? find role nodes = (Node.first? role nodes).map (typeExpr find) := by
  induction nodes with
  | nil => rfl
  | cons node rest ih =>
    obtain ⟨label, children⟩ := node
    simp only [roleExpr?, Node.first?_cons, Node.label, ih]
    split <;> rfl

theorem roleExpr_eq (role : Role) (nodes : List Node) :
    roleExpr find role nodes = orAny (roleExpr? find role nodes) := by
  induction nodes with
  | nil => rfl
  | cons node rest ih =>
    rw [roleExpr, roleExpr?, ih]
    split <;> rfl

theorem argumentExprs_eq_mapM (nodes : List Node) :
    argumentExprs find nodes =
      (((Node.first? .typeArguments nodes).map Node.parts).getD []).mapM (typeExpr find) := by
  induction nodes with
  | nil => rfl
  | cons node rest ih =>
    obtain ⟨label, children⟩ := node
    rw [argumentExprs, Node.first?_cons, ih, partExprs_eq_mapM]
    by_cases h : (label.role == some .typeArguments) = true
    · rw [if_pos h, if_pos h]
      rfl
    · rw [if_neg h, if_neg h]

theorem annotationExpr?_eq (nodes : List Node) :
    annotationExpr? find nodes =
      (Node.first? .type nodes).map fun mark => firstExpr find mark.children := by
  induction nodes with
  | nil => rfl
  | cons node rest ih =>
    obtain ⟨label, children⟩ := node
    rw [annotationExpr?, Node.first?_cons, ih]
    by_cases h : (label.role == some .type) = true
    · rw [if_pos h, if_pos h]
      rfl
    · rw [if_neg h, if_neg h]

theorem looseAnnotationExpr?_eq (nodes : List Node) :
    looseAnnotationExpr? find nodes =
      (nodes.find? fun child => child.label.named && child.kind == .typeMark).map
        fun mark => firstExpr find mark.children := by
  induction nodes with
  | nil => rfl
  | cons node rest ih =>
    obtain ⟨label, children⟩ := node
    rw [looseAnnotationExpr?, ih, List.find?_cons]
    dsimp only [Node.label, Node.kind]
    cases label.named && label.kind == .typeMark <;> rfl

theorem parameterTypes_eq_mapM (nodes : List Node) :
    parameterTypes find nodes =
      (nodes.filter Node.isPart).mapM fun parameter =>
        orAny (annotationExpr? find parameter.children) := by
  induction nodes with
  | nil => rfl
  | cons node rest ih =>
    obtain ⟨label, children⟩ := node
    rw [parameterTypes, List.filter_cons, Node.isPart_mk, ih]
    by_cases h : (label.named && !label.kind.isComment) = true
    · rw [if_pos h, if_pos h, List.mapM_cons]
      rfl
    · rw [if_neg h, if_neg h]

theorem parameterExprs_eq_mapM (nodes : List Node) :
    parameterExprs find nodes =
      (((Node.first? .parameters nodes).map Node.parts).getD []).mapM fun parameter =>
        orAny (annotationExpr? find parameter.children) := by
  induction nodes with
  | nil => rfl
  | cons node rest ih =>
    obtain ⟨label, children⟩ := node
    rw [parameterExprs, Node.first?_cons, ih, parameterTypes_eq_mapM]
    by_cases h : (label.role == some .parameters) = true
    · rw [if_pos h, if_pos h]
      rfl
    · rw [if_neg h, if_neg h]

theorem lastExpr?_eq (nodes : List Node) :
    lastExpr? find nodes =
      (nodes.filter fun child => child.isPart && child.kind != .formalParameters &&
        child.kind != .typeParameters).getLast?.map (typeExpr find) := by
  induction nodes with
  | nil => rfl
  | cons node rest ih =>
    rw [lastExpr?, ih, List.filter_cons]
    split
    · rw [List.getLast?_cons]
      cases (rest.filter _).getLast? <;> rfl
    · simp

theorem memberAnnotation?_eq (node : Node) :
    (annotationExpr? find node.children <|> looseAnnotationExpr? find node.children) =
      (node.child? .type <|> node.children.find? fun child =>
        child.label.named && child.kind == .typeMark).map
          fun mark => firstExpr find mark.children := by
  rw [annotationExpr?_eq, looseAnnotationExpr?_eq, ← Node.child?_eq]
  cases node.child? .type <;> rfl

theorem resultExpr?_eq (node : Node) :
    (roleExpr? find .returnType node.children <|> roleExpr? find .type node.children <|>
      lastExpr? find node.children) = node.resultType?.map (typeExpr find) := by
  rw [roleExpr?_eq, roleExpr?_eq, lastExpr?_eq, ← Node.child?_eq, ← Node.child?_eq,
    Node.resultType?]
  cases node.child? .returnType with
  | some inner => rfl
  | none => cases node.child? .type <;> rfl

private theorem memberExprs_eq_mapM_of_children (kind : Kind) {nodes : List Node}
    (h : ∀ node ∈ nodes, memberExprs find kind node.children =
      (Node.members kind node.children).mapM (typeExpr find)) :
    memberExprs find kind nodes = (Node.members kind nodes).mapM (typeExpr find) := by
  induction nodes with
  | nil => rw [memberExprs, Node.members, List.mapM_nil]
  | cons node rest ih =>
    obtain ⟨label, children⟩ := node
    have hinside : memberExprs find kind children =
        (Node.members kind children).mapM (typeExpr find) := h _ List.mem_cons_self
    have hrest := ih fun node hnode => h node (List.mem_cons_of_mem _ hnode)
    rw [memberExprs, Node.members, Node.membersAt, hrest]
    split
    · split
      · rw [hinside, List.mapM_append]
      · rw [List.singleton_append, List.mapM_cons]
    · rfl

theorem memberExprs_eq_mapM (kind : Kind) (nodes : List Node) :
    memberExprs find kind nodes = (Node.members kind nodes).mapM (typeExpr find) := by
  refine memberExprs_eq_mapM_of_children find kind fun node hnode => ?_
  clear hnode
  induction node using Node.induct with
  | step node ih =>
    exact memberExprs_eq_mapM_of_children find kind fun inner hinner =>
      ih inner (Node.mem_descendants_of_mem_children hinner)

/-- The field of a property, given the sibling before it. -/
def propertyField (previous : Option Node) (node : Node) : Report (String × Expr) := do
  let expr ← orAny (annotationExpr? find node.children)
  let options ← docOptions (commentBefore previous)
  let expr ← withOptions node.label options expr
  let name ← nameText node.children
  return (name, expr.withModifiers (node.hasToken "readonly") (node.hasToken "?"))

/-- The field of a member, given the sibling before it: a member that is no property is passed
through. -/
def memberField (previous : Option Node) (node : Node) : Report (String × Expr) :=
  if node.kind == .propertySignature then propertyField find previous node
  else do return ("", ← passThrough node.label)

theorem memberField_mk (previous : Option Node) (label : Label) (children : List Node) :
    memberField find previous (.mk label children) =
      if label.kind == .propertySignature then do
        let expr ← orAny (annotationExpr? find children)
        let options ← docOptions (commentBefore previous)
        let expr ← withOptions label options expr
        let name ← nameText children
        return (name, expr.withModifiers (holdsToken children "readonly") (holdsToken children "?"))
      else do return ("", ← passThrough label) := rfl

theorem fieldExprs_eq_mapM (previous : Option Node) (nodes : List Node) :
    fieldExprs find previous nodes =
      ((Node.withPrevious previous nodes).filter fun pair => pair.2.isPart).mapM
        fun pair => memberField find pair.1 pair.2 := by
  induction nodes generalizing previous with
  | nil => rfl
  | cons node rest ih =>
    obtain ⟨label, children⟩ := node
    rw [fieldExprs, Node.withPrevious, List.filter_cons, ih]
    by_cases hpart : (label.named && !label.kind.isComment) = true
    · by_cases hkind : (label.kind == .propertySignature) = true
      · simp only [Node.isPart_mk, hpart, hkind, if_true, List.mapM_cons, memberField_mk,
          bind_assoc, pure_bind]
      · simp only [Node.isPart_mk, hpart, hkind, if_true, Bool.false_eq_true, if_false,
          List.mapM_cons, memberField_mk, bind_assoc, pure_bind]
    · simp only [Node.isPart_mk, hpart, Bool.false_eq_true, if_false]

end Types

/-! ### Statements -/

section Statements

variable (find : String → Option Expr)

theorem exportedStatement?_eq (topLevel : Bool) (previous : Option Node) (nodes : List Node) :
    exportedStatement? find topLevel previous nodes =
      (Node.first? .declaration nodes).map (statement find topLevel true previous) := by
  induction nodes with
  | nil => rfl
  | cons node rest ih =>
    obtain ⟨label, children⟩ := node
    simp only [exportedStatement?, Node.first?_cons, Node.label, ih]
    split <;> rfl

theorem scopeStatements_eq_mapM (previous : Option Node) (nodes : List Node) :
    scopeStatements find previous nodes =
      (List.flatMap Option.toList) <$>
        ((Node.withPrevious previous nodes).filter fun pair => pair.2.label.named).mapM
          fun pair => statement find false false pair.1 pair.2 := by
  induction nodes generalizing previous with
  | nil => rfl
  | cons node rest ih =>
    rw [scopeStatements, Node.withPrevious, List.filter_cons, ih]
    split
    · simp only [List.mapM_cons, map_eq_pure_bind, bind_assoc, pure_bind, List.flatMap_cons]
    · rfl

theorem scopeBody_eq (nodes : List Node) :
    scopeBody find nodes =
      ((Node.first? .body nodes).map fun block => scopeStatements find none block.children).getD
        (pure []) := by
  induction nodes with
  | nil => rfl
  | cons node rest ih =>
    obtain ⟨label, children⟩ := node
    simp only [scopeBody, Node.first?_cons, ih]
    split <;> rfl

end Statements

end Schemata

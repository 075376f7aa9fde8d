import Schemata.Derive.Statement
import Schemata.Proofs.Derive.TypeLaw

/-!
# Laws of derived statements

The counterpart for statements of the laws for types: a property of declarations that is closed
under everything the derivation of a statement does holds of whatever a file declares, at any depth.
Along a file the law must also carry over from one statement to the next, which it does as long as
what is registered is good.
-/

namespace Schemata

namespace Node

mutual

def nodes : Node → List Node
  | mk label children => mk label children :: nodesOf children

def nodesOf : List Node → List Node
  | [] => []
  | node :: rest => nodes node ++ nodesOf rest

end

/-- A well-formed named node on the first line, of which sample trees are made. -/
def sample (kind : Kind) (role : Option Role) (text : String) (children : List Node) : Node :=
  mk ⟨kind, role, text, 1, true, false, false⟩ children

theorem self_mem_nodes (node : Node) : node ∈ node.nodes := by
  cases node
  simp [nodes]

theorem mem_nodesOf {node other : Node} {trees : List Node} (htree : other ∈ trees)
    (h : node ∈ other.nodes) : node ∈ nodesOf trees := by
  induction trees with
  | nil => cases htree
  | cons tree rest ih =>
    rw [nodesOf, List.mem_append]
    rcases List.mem_cons.1 htree with rfl | hrest
    · exact Or.inl h
    · exact Or.inr (ih hrest)

theorem mem_nodes_of_child {label : Label} {children : List Node} {node : Node}
    (h : node ∈ nodesOf children) : node ∈ (mk label children).nodes := by
  rw [nodes]
  exact List.mem_cons_of_mem _ h

end Node

def Kind.isKept : Kind → Bool
  | .functionDeclaration | .classDeclaration | .abstractClassDeclaration => true
  | _ => false

namespace TypeLaw

variable {J : Judgement} {find : String → Option Expr} {good : Expr → Prop}

theorem heritageExpr (law : TypeLaw J find good) (node : Node) :
    J.holds good (heritageExpr find node) := by
  unfold Schemata.heritageExpr
  split
  · refine J.ofBind (J.holds_require _ _) fun callee _ => ?_
    exact J.ofBind (law.argumentExprs node.children) fun args hargs =>
      J.ofPure (law.apply callee args hargs)
  · exact J.ofPure (law.ref node.text)

theorem heritageClause (law : TypeLaw J find good) (clause : Node) :
    J.holds good (heritageClause find clause) := by
  refine J.ofBind (J.holds_mapM _ fun node _ => law.heritageExpr node) fun exprs hexprs => ?_
  split
  · exact J.ofPure (hexprs _ (by simp))
  · exact J.ofPure (law.wrapArray "Intersect" hexprs)

theorem interfaceFields (law : TypeLaw J find good) (node : Node) :
    J.holds (fun fields => ∀ field ∈ fields, good field.2) (interfaceFields find node) := by
  unfold Schemata.interfaceFields
  split
  · exact J.ofPure (by simp)
  · exact law.fieldExprs none _

end TypeLaw

/-- A property of declarations that is closed under everything the derivation of a statement does;
`occurs` tells the nodes that can be met, and `registers` whether declarations get registered. -/
structure StatementLaw (J : Judgement) (find : String → Option Expr) (good : Expr → Prop)
    (occurs : Node → Prop) (registers : Prop) (fits : Declaration → Prop) : Prop
    extends TypeLaw J find good where
  recursive : ∀ name body, good body → good (.recursive name body)
  schema : ∀ name exported body parameters, good body → fits (.schema name exported body parameters)
  enumeration : ∀ name exported members, fits (.enumeration name exported members)
  scope : ∀ name exported keyword body, (∀ declaration ∈ body, fits declaration) →
    fits (.scope name exported keyword body)
  kept : ∀ (node : Node) (exported : Bool), occurs node → node.kind.isKept = true →
    fits (.verbatim (if exported then "export " ++ node.text else node.text))
  remarkedStatement : ∀ label,
    J.holds (fun found => ∀ declaration ∈ found, fits declaration) (unsupportedStatement label)
  needsSchema : J.assured .needsSchema
  needsGenerics : J.assured .needsGenerics
  registered : registers → ∀ name body, good body → J.assured (.registered name body)

namespace StatementLaw

variable {J : Judgement} {find : String → Option Expr} {good : Expr → Prop} {occurs : Node → Prop}
  {registers : Prop} {fits : Declaration → Prop}

theorem parameterNames (declaration : Node) :
    J.holds (fun _ => True) (parameterNames declaration) := by
  unfold Schemata.parameterNames
  split
  · exact J.ofPure trivial
  · intro hbenign
    have h := J.holds_mapM _ (fun part _ => J.holds_require _ _) hbenign
    exact ⟨h.1, fun _ _ => trivial⟩

theorem schemaDeclaration (law : StatementLaw J find good occurs registers fits)
    {topLevel : Bool} (htop : topLevel = true → registers) (exported : Bool) (name : String)
    (parameters : List String) {body : Expr} (hbody : good body) :
    J.holds fits (schemaDeclaration topLevel exported name parameters body) := by
  have hfits := law.schema name exported body parameters hbody
  unfold Schemata.schemaDeclaration
  split
  · exact J.ofBind (J.ofEmit fun _ => law.needsGenerics) fun _ _ => J.ofPure hfits
  · split
    · rename_i htopLevel
      exact J.ofBind (J.ofEmit fun _ => law.registered (htop htopLevel) name body hbody) fun _ _ =>
        J.ofPure hfits
    · exact J.ofPure hfits

theorem aliasDeclaration (law : StatementLaw J find good occurs registers fits) {topLevel : Bool}
    (htop : topLevel = true → registers) (exported : Bool) (comment : Option Node) (node : Node) :
    J.holds fits (aliasDeclaration find topLevel exported comment node) := by
  refine J.ofBind (J.ofEmit fun _ => law.needsSchema) fun _ _ => ?_
  refine J.ofBind (J.holds_require _ _) fun name _ => ?_
  refine J.ofBind (parameterNames node) fun parameters _ => ?_
  refine J.ofBind (law.roleExpr .value node.children) fun body hbody => ?_
  refine J.ofBind (law.docOptions comment) fun options hoptions => ?_
  refine J.ofBind (law.withOptions node.label hbody fun result =>
    law.attach options body result hoptions hbody) fun result hresult => ?_
  refine law.schemaDeclaration htop exported name parameters ?_
  split
  · exact law.recursive name result hresult
  · exact hresult

theorem interfaceDeclaration (law : StatementLaw J find good occurs registers fits)
    {topLevel : Bool} (htop : topLevel = true → registers) (exported : Bool)
    (comment : Option Node) (node : Node) :
    J.holds fits (interfaceDeclaration find topLevel exported comment node) := by
  refine J.ofBind (J.ofEmit fun _ => law.needsSchema) fun _ _ => ?_
  refine J.ofBind (J.holds_require _ _) fun name _ => ?_
  refine J.ofBind (parameterNames node) fun parameters _ => ?_
  refine J.ofBind (J.holds_mapM _ fun clause _ => law.heritageClause clause)
    fun heritage hheritage => ?_
  refine J.ofBind (law.interfaceFields node) fun fields hfields => ?_
  refine J.ofBind (law.docOptions comment) fun options hoptions => ?_
  have hobject := law.wrap "Object" (law.object fields hfields)
  refine J.ofBind (law.withOptions node.label hobject fun result =>
    law.attach options _ result hoptions hobject) fun own hown => ?_
  have hown' : good (if node.isSelfReferential then .recursive name own else own) := by
    split
    · exact law.recursive name own hown
    · exact hown
  refine law.schemaDeclaration htop exported name parameters ?_
  split
  · exact hown'
  · exact law.wrapArray "Intersect" (List.forall_mem_append.2 ⟨hheritage, by simpa using hown'⟩)

theorem enumDeclaration (law : StatementLaw J find good occurs registers fits) (exported : Bool)
    (node : Node) : J.holds fits (enumDeclaration exported node) := by
  refine J.ofBind (J.ofEmit fun _ => law.needsSchema) fun _ _ => ?_
  refine J.ofBind (J.holds_require _ _) fun name _ => ?_
  exact J.ofPure (law.enumeration name exported _)

private theorem holds_some {report : Report Declaration} (h : J.holds fits report) :
    J.holds (fun found => ∀ declaration ∈ found, fits declaration) (some <$> report) :=
  J.holds_map h fun declaration hfits => by simpa using hfits

private theorem occurs_of_mem {trees : List Node} {node : Node} (hmem : node ∈ trees)
    (h : ∀ n ∈ Node.nodesOf trees, occurs n) : ∀ n ∈ node.nodes, occurs n :=
  fun n hn => h n (Node.mem_nodesOf hmem hn)

private theorem occurs_of_tail {tree : Node} {rest : List Node}
    (h : ∀ n ∈ Node.nodesOf (tree :: rest), occurs n) : ∀ n ∈ Node.nodesOf rest, occurs n := by
  intro n hn
  apply h
  rw [Node.nodesOf]
  exact List.mem_append_right _ hn

mutual

theorem statement (law : StatementLaw J find good occurs registers fits) {topLevel : Bool}
    (htop : topLevel = true → registers) (exported : Bool) (previous : Option Node) :
    (node : Node) → (∀ n ∈ node.nodes, occurs n) →
      J.holds (fun found => ∀ declaration ∈ found, fits declaration)
        (statement find topLevel exported previous node)
  | .mk label children, hoccurs => by
    have hself : occurs (.mk label children) := hoccurs _ (Node.self_mem_nodes _)
    have hbelow : ∀ n ∈ Node.nodesOf children, occurs n :=
      fun n hn => hoccurs n (Node.mem_nodes_of_child hn)
    have hkept : label.kind.isKept = true →
        J.holds (fun found => ∀ declaration ∈ found, fits declaration)
          (pure (some (.verbatim (if exported then "export " ++ label.text else label.text)))) :=
      fun hkind => J.ofPure fun declaration hmem => by
        obtain rfl := Option.some.inj hmem
        exact law.kept (.mk label children) exported hself hkind
    have hscope : J.holds (fun found => ∀ declaration ∈ found, fits declaration) (do
        let name ← nameText children
        return some (.scope name exported (scopeKeyword label.kind)
          (← Schemata.scopeBody find children))) := by
      refine J.ofBind (J.holds_require _ _) fun name _ => ?_
      refine J.ofBind (scopeBody law children hbelow) fun body hbody => ?_
      exact J.ofPure (by simpa using law.scope name exported _ body hbody)
    rw [Schemata.statement]
    split
    · exact J.ofPure (by simp)
    · exact J.ofPure (by simp)
    · exact hkept (by rename_i hkind; rw [hkind]; rfl)
    · exact hkept (by rename_i hkind; rw [hkind]; rfl)
    · exact hkept (by rename_i hkind; rw [hkind]; rfl)
    · exact holds_some (law.aliasDeclaration htop exported _ _)
    · exact holds_some (law.interfaceDeclaration htop exported _ _)
    · exact holds_some (law.enumDeclaration exported _)
    · exact hscope
    · exact hscope
    · cases hfound : Schemata.exportedStatement? find topLevel previous children with
      | none => exact law.remarkedStatement label
      | some report => exact exportedStatement? law htop previous children hbelow report hfound
    · split
      · split
        · exact onlyPart law exported children hbelow
        · exact law.remarkedStatement label
      · exact law.remarkedStatement label
    · exact law.remarkedStatement label

theorem exportedStatement? (law : StatementLaw J find good occurs registers fits) {topLevel : Bool}
    (htop : topLevel = true → registers) (previous : Option Node) :
    (nodes : List Node) → (∀ n ∈ Node.nodesOf nodes, occurs n) →
      ∀ report ∈ exportedStatement? find topLevel previous nodes,
        J.holds (fun found => ∀ declaration ∈ found, fits declaration) report
  | [], _ => by simp [Schemata.exportedStatement?]
  | node :: rest, hoccurs => by
    rw [Schemata.exportedStatement?]
    split
    · rintro _ ⟨⟩
      exact statement law htop true previous node (occurs_of_mem List.mem_cons_self hoccurs)
    · exact exportedStatement? law htop previous rest (occurs_of_tail hoccurs)

theorem onlyPart (law : StatementLaw J find good occurs registers fits) (exported : Bool) :
    (nodes : List Node) → (∀ n ∈ Node.nodesOf nodes, occurs n) →
      J.holds (fun found => ∀ declaration ∈ found, fits declaration) (onlyPart find exported nodes)
  | [], _ => J.ofPure (by simp)
  | node :: rest, hoccurs => by
    rw [Schemata.onlyPart]
    split
    · exact statement law (by simp) exported none node (occurs_of_mem List.mem_cons_self hoccurs)
    · exact onlyPart law exported rest (occurs_of_tail hoccurs)

theorem scopeBody (law : StatementLaw J find good occurs registers fits) :
    (nodes : List Node) → (∀ n ∈ Node.nodesOf nodes, occurs n) →
      J.holds (fun body => ∀ declaration ∈ body, fits declaration) (scopeBody find nodes)
  | [], _ => J.ofPure (by simp)
  | .mk label children :: rest, hoccurs => by
    rw [Schemata.scopeBody]
    split
    · refine scopeStatements law none children fun n hn => ?_
      exact occurs_of_mem List.mem_cons_self hoccurs n (Node.mem_nodes_of_child hn)
    · exact scopeBody law rest (occurs_of_tail hoccurs)

theorem scopeStatements (law : StatementLaw J find good occurs registers fits)
    (previous : Option Node) :
    (nodes : List Node) → (∀ n ∈ Node.nodesOf nodes, occurs n) →
      J.holds (fun body => ∀ declaration ∈ body, fits declaration)
        (scopeStatements find previous nodes)
  | [], _ => J.ofPure (by simp)
  | node :: rest, hoccurs => by
    rw [Schemata.scopeStatements]
    split
    · refine J.ofBind
        (statement law (by simp) false previous node (occurs_of_mem List.mem_cons_self hoccurs))
        fun found hfound => ?_
      refine J.ofBind (scopeStatements law _ rest (occurs_of_tail hoccurs)) fun body hbody => ?_
      exact J.ofPure (List.forall_mem_append.2 ⟨by simpa using hfound, hbody⟩)
    · exact scopeStatements law _ rest (occurs_of_tail hoccurs)

end

end StatementLaw

/-! ### Along a file -/

def Registry.All (good : Expr → Prop) (registry : Registry) : Prop :=
  ∀ name expr, registry.get? name = some expr → good expr

theorem Registry.all_register {good : Expr → Prop} {registry : Registry}
    (h : registry.All good) (name : String) {body : Expr} (hbody : good body) :
    (registry.register name body).All good := by
  intro other expr hexpr
  by_cases hname : other = name
  · subst hname
    rw [Registry.get?_register_self] at hexpr
    cases hexpr
    exact hbody
  · rw [Registry.get?_register_of_ne body hname] at hexpr
    exact h other expr hexpr

theorem Registry.all_apply {good : Expr → Prop} (events : List Event) {registry : Registry}
    (h : registry.All good) (hevents : ∀ name body, .registered name body ∈ events → good body) :
    (registry.apply events).All good := by
  induction events generalizing registry with
  | nil => exact h
  | cons event rest ih =>
    have hrest : ∀ name body, .registered name body ∈ rest → good body :=
      fun name body hmem => hevents name body (List.mem_cons_of_mem event hmem)
    cases event with
    | noted diagnostic => exact ih h hrest
    | registered name body =>
      exact ih (registry.all_register h name (hevents name body List.mem_cons_self)) hrest
    | needsSchema => exact ih h hrest
    | needsGenerics => exact ih h hrest

/-- A law that holds whenever the registered expressions are good carries over a whole file. -/
theorem statements_holds {J : Judgement} {good : Expr → Prop} {occurs : Node → Prop}
    {fits : Declaration → Prop}
    (law : ∀ registry : Registry, registry.All good →
      StatementLaw J registry.get? good occurs True fits)
    (hregistered : ∀ name body, J.assured (.registered name body) → good body)
    (nodes : List Node) (registry : Registry) (previous : Option Node) (hall : registry.All good)
    (hoccurs : ∀ node ∈ Node.nodesOf nodes, occurs node) :
    J.holds (fun derived => (∀ declaration ∈ derived.declarations, fits declaration) ∧
      derived.registry.All good) (statements registry previous nodes) := by
  induction nodes generalizing registry previous with
  | nil => exact J.ofPure ⟨by simp, hall⟩
  | cons node rest ih =>
    have hhere : ∀ n ∈ node.nodes, occurs n :=
      fun n hn => hoccurs n (Node.mem_nodesOf List.mem_cons_self hn)
    have hrest : ∀ n ∈ Node.nodesOf rest, occurs n := by
      intro n hn
      apply hoccurs
      rw [Node.nodesOf]
      exact List.mem_append_right _ hn
    rw [statements]
    split
    · have htop : true = true → True := fun _ => trivial
      have hstep := (law registry hall).statement htop false previous node hhere
      -- the tail starts from what this statement registered, so its events are kept with its value
      have hkeep : J.holds (fun found => (∀ declaration ∈ found, fits declaration) ∧
          (registry.apply (statement registry.get? true false previous node).events).All good)
          (statement registry.get? true false previous node) := by
        intro hbenign
        obtain ⟨hassured, hfits⟩ := hstep hbenign
        refine ⟨hassured, fun found hfound => ⟨hfits found hfound, ?_⟩⟩
        refine registry.all_apply _ hall fun name body hmem => ?_
        exact hregistered name body (hassured _ hmem)
      refine J.ofBind hkeep fun found hfound => ?_
      refine J.ofBind (ih _ _ hfound.2 hrest) fun tail htail => ?_
      exact J.ofPure ⟨List.forall_mem_append.2 ⟨by simpa using hfound.1, htail.1⟩, htail.2⟩
    · exact ih registry (some node) hall hrest

end Schemata

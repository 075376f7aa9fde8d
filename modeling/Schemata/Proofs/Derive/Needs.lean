import Schemata.Proofs.Derive.SchemaParts
import Schemata.Proofs.Derive.Registration
import Schemata.Proofs.Schema.Nesting

/-!
# What the declarations of a file need

The needs of the import header are reported while statements are derived, one by one and at any
depth; the header is made from them at the end. They are exactly what the declarations at hand need:
each alias, interface and enumeration reports that it needs the vocabulary, each generic one that it
needs the bound, and nothing else does. Along the way it is kept what else is taken from the tree:
the texts of statements passed through and the names of namespaces.
-/

namespace Schemata

namespace Declaration

def usesSchema : Declaration → Bool
  | .schema _ _ _ _ | .enumeration _ _ _ => true
  | _ => false

/-- Passed-through text and the names of namespaces are texts of nodes. -/
def CopiedFrom (occurs : Node → Prop) : Declaration → Prop
  | .scope name _ keyword _ =>
    (∃ node, occurs node ∧ name = node.text) ∧ keyword ∈ ["namespace", "module"]
  | .verbatim text => ∃ node, occurs node ∧ (text = node.text ∨ text = "export " ++ node.text)
  | _ => True

theorem nestedOf_append (front back : List Declaration) :
    nestedOf (front ++ back) = nestedOf front ++ nestedOf back := by
  induction front with
  | nil => rfl
  | cons declaration rest ih => simp [nestedOf, ih]

theorem nestedOf_singleton (declaration : Declaration) :
    nestedOf [declaration] = declaration.nested := by
  simp [nestedOf]

end Declaration

/-- The needs that are reported are those of the declarations, and what these copy is in the
tree. -/
structure Accounted (occurs : Node → Prop) (events : List Event)
    (declarations : List Declaration) : Prop where
  schema : events.any Event.isNeedsSchema =
    (Declaration.nestedOf declarations).any Declaration.usesSchema
  generics : events.any Event.isNeedsGenerics =
    (Declaration.nestedOf declarations).any Declaration.isGeneric
  copied : ∀ declaration ∈ Declaration.nestedOf declarations, declaration.CopiedFrom occurs

/-- No need is reported. -/
def Quiet (events : List Event) : Prop :=
  events.any Event.isNeedsSchema = false ∧ events.any Event.isNeedsGenerics = false

namespace Accounted

variable {occurs : Node → Prop} {events more : List Event}
  {declarations others : List Declaration}

theorem ofQuiet (h : Quiet events) : Accounted occurs events [] where
  schema := h.1
  generics := h.2
  copied := by simp [Declaration.nestedOf]

theorem append (h : Accounted occurs events declarations) (h' : Accounted occurs more others) :
    Accounted occurs (events ++ more) (declarations ++ others) where
  schema := by
    rw [List.any_append, Declaration.nestedOf_append, List.any_append, h.schema, h'.schema]
  generics := by
    rw [List.any_append, Declaration.nestedOf_append, List.any_append, h.generics, h'.generics]
  copied := by
    rw [Declaration.nestedOf_append]
    exact List.forall_mem_append.2 ⟨h.copied, h'.copied⟩

theorem verbatim (hquiet : Quiet events) {node : Node} (hnode : occurs node) {text : String}
    (htext : text = node.text ∨ text = "export " ++ node.text) :
    Accounted occurs events [.verbatim text] where
  schema := hquiet.1
  generics := hquiet.2
  copied := by
    simpa [Declaration.nestedOf, Declaration.nested] using ⟨node, hnode, htext⟩

theorem scope (h : Accounted occurs events declarations) {node : Node} (hnode : occurs node)
    {keyword : String} (hkeyword : keyword ∈ ["namespace", "module"]) (exported : Bool) :
    Accounted occurs events [.scope node.text exported keyword declarations] where
  schema := by
    rw [h.schema, Declaration.nestedOf_singleton, Declaration.nested, List.any_cons]
    rfl
  generics := by
    rw [h.generics, Declaration.nestedOf_singleton, Declaration.nested, List.any_cons]
    rfl
  copied := by
    rw [Declaration.nestedOf_singleton, Declaration.nested]
    exact List.forall_mem_cons.2 ⟨⟨⟨node, hnode, rfl⟩, hkeyword⟩, h.copied⟩

end Accounted

/-! ### Quiet reports -/

/-- Whatever happens, no need is reported. -/
def withoutNeeds : Judgement where
  benign _ := True
  assured event := event.isNeedsSchema = false ∧ event.isNeedsGenerics = false

theorem quiet_of_holds {α : Type} {good : α → Prop} {x : Report α}
    (h : withoutNeeds.holds good x) : Quiet x.events := by
  obtain ⟨hassured, -⟩ := h fun _ _ => trivial
  constructor
  · rw [List.any_eq_false]
    exact fun event hevent => by simp [(hassured event hevent).1]
  · rw [List.any_eq_false]
    exact fun event hevent => by simp [(hassured event hevent).2]

theorem quietTypeLaw (find : String → Option Expr) : TypeLaw withoutNeeds find fun _ => True :=
  .ofNoted withoutNeeds find fun _ => ⟨rfl, rfl⟩

theorem quiet_ownExpr (find : String → Option Expr) (node : Node) :
    Quiet (ownExpr find node).events := by
  have law := quietTypeLaw find
  rw [ownExpr]
  split
  · exact quiet_of_holds (law.roleExpr .value node.children)
  · have hown : withoutNeeds.holds (fun _ => True) (do
        return Expr.construct "Object" [.object (← interfaceFields find node)]) :=
      withoutNeeds.ofBind (law.interfaceFields node) fun _ _ => withoutNeeds.ofPure trivial
    exact quiet_of_holds hown

theorem quiet_heritageExprs (find : String → Option Expr) (node : Node) :
    Quiet (heritageExprs find node).events := by
  rw [heritageExprs]
  split
  · exact ⟨rfl, rfl⟩
  · exact quiet_of_holds
      (withoutNeeds.holds_mapM _ fun clause _ => (quietTypeLaw find).heritageClause clause)

/-! ### Statements -/

/-- The report yields a schema, and it says whether that is generic. -/
def Report.YieldsSchema (x : Report Declaration) : Prop :=
  ∀ declaration, x.result = .ok declaration →
    x.events.any Event.isNeedsGenerics = declaration.isGeneric ∧
      ∃ name exported body parameters, declaration = .schema name exported body parameters

theorem Report.yieldsSchema_bind {α : Type} {x : Report α} {f : α → Report Declaration}
    (hx : Quiet x.events) (hf : ∀ a, (f a).YieldsSchema) : (x >>= f).YieldsSchema := by
  intro declaration h
  obtain ⟨a, ha, h⟩ := result_bind_eq_ok.1 h
  rw [events_bind_of_ok ha, List.any_append, hx.2, Bool.false_or]
  exact hf a declaration h

theorem yieldsSchema_schemaDeclaration (topLevel exported : Bool) (name : String)
    (parameters : List String) (body : Expr) :
    (schemaDeclaration topLevel exported name parameters body).YieldsSchema := by
  intro declaration h
  rw [result_schemaDeclaration] at h
  cases h
  refine ⟨?_, name, exported, body, parameters, rfl⟩
  cases parameters <;> cases topLevel <;> rfl

/-- Whatever a report yields, its events account for what that declares. -/
def Report.Accounts {α : Type} (occurs : Node → Prop) (declared : α → List Declaration)
    (x : Report α) : Prop :=
  ∀ a, x.result = .ok a → Accounted occurs x.events (declared a)

section Statements

variable {occurs : Node → Prop} (find : String → Option Expr)

theorem accounts_schemaStatement (topLevel exported : Bool) (comment : Option Node) (node : Node) :
    (some <$> schemaStatement find topLevel exported comment node).Accounts occurs
      Option.toList := by
  have law := quietTypeLaw find
  have hrest : (do
      let name ← nameText node.children
      let parameters ← parameterNames node
      let heritage ← heritageExprs find node
      let value ← ownExpr find node
      let options ← docOptions comment
      let own ← withOptions node.label options value
      schemaDeclaration topLevel exported name parameters
        (node.composed name heritage own)).YieldsSchema := by
    refine Report.yieldsSchema_bind (quiet_of_holds (withoutNeeds.holds_require _ _))
      fun name => ?_
    refine Report.yieldsSchema_bind (quiet_of_holds (StatementLaw.parameterNames node))
      fun parameters => ?_
    refine Report.yieldsSchema_bind (quiet_heritageExprs find node) fun heritage => ?_
    refine Report.yieldsSchema_bind (quiet_ownExpr find node) fun value => ?_
    refine Report.yieldsSchema_bind (quiet_of_holds (law.docOptions comment)) fun options => ?_
    refine Report.yieldsSchema_bind
      (quiet_of_holds (law.withOptions node.label trivial fun _ _ => trivial)) fun own => ?_
    exact yieldsSchema_schemaDeclaration topLevel exported name parameters _
  intro found h
  rw [map_eq_pure_bind] at h ⊢
  obtain ⟨declaration, hdeclaration, h⟩ := Report.result_bind_eq_ok.1 h
  cases h
  rw [Report.events_bind_of_ok hdeclaration, Report.events_pure, List.append_nil]
  obtain ⟨hgenerics, name, isExported, body, parameters, rfl⟩ := hrest declaration hdeclaration
  exact ⟨rfl, hgenerics.trans (by simp [Declaration.nestedOf, Declaration.nested]),
    by simp [Declaration.nestedOf, Declaration.nested, Declaration.CopiedFrom]⟩

theorem accounts_enumDeclaration (exported : Bool) (node : Node) :
    (some <$> enumDeclaration exported node).Accounts occurs Option.toList := by
  intro found h
  simp only [enumDeclaration, map_bind, map_pure] at h ⊢
  obtain ⟨_, hneeds, h⟩ := Report.result_bind_eq_ok.1 h
  obtain ⟨name, hname, h⟩ := Report.result_bind_eq_ok.1 h
  cases h
  have hquiet : Quiet (nameText node.children).events :=
    quiet_of_holds (withoutNeeds.holds_require _ _)
  rw [Report.events_bind_of_ok hneeds, Report.events_bind_of_ok hname, Report.events_pure,
    List.append_nil]
  constructor
  · rfl
  · rw [List.any_append, hquiet.2]
    rfl
  · simp [Declaration.nestedOf, Declaration.nested, Declaration.CopiedFrom]

theorem accounts_unsupportedStatement {label : Label} {children : List Node}
    (hnode : occurs (.mk label children)) :
    (unsupportedStatement label).Accounts occurs Option.toList := by
  intro found h
  cases h
  exact .verbatim ⟨rfl, rfl⟩ hnode (Or.inl rfl)

/-- One statement after another. -/
theorem accounts_mapM {α : Type} {f : α → Report (Option Declaration)} (xs : List α)
    (hf : ∀ x ∈ xs, (f x).Accounts occurs Option.toList) :
    (xs.mapM f).Accounts occurs (List.flatMap Option.toList) := by
  induction xs with
  | nil =>
    intro founds h
    cases h
    exact .ofQuiet ⟨rfl, rfl⟩
  | cons x rest ih =>
    intro founds h
    rw [List.mapM_cons] at h ⊢
    obtain ⟨found, hfound, h⟩ := Report.result_bind_eq_ok.1 h
    obtain ⟨tail, htail, h⟩ := Report.result_bind_eq_ok.1 h
    cases h
    rw [Report.events_bind_of_ok hfound, Report.events_bind_of_ok htail, Report.events_pure,
      List.append_nil, List.flatMap_cons]
    exact (hf x List.mem_cons_self found hfound).append
      (ih (fun other hother => hf other (List.mem_cons_of_mem _ hother)) tail htail)

theorem accounts_scope (node : Node) {keyword : String}
    (hkeyword : keyword ∈ ["namespace", "module"]) (exported : Bool)
    (hoccurs : ∀ inner ∈ node.descendants, occurs inner)
    (hbody : ∀ block, node.child? .body = some block → ∀ previous, ∀ inner ∈ block.children,
      (statement find false false previous inner).Accounts occurs Option.toList) :
    (do
      let name ← nameText node.children
      return some (.scope name exported keyword (← scopeBody find node.children)) :
        Report (Option Declaration)).Accounts occurs Option.toList := by
  intro found h
  obtain ⟨name, hname, h⟩ := Report.result_bind_eq_ok.1 h
  obtain ⟨body, hresult, h⟩ := Report.result_bind_eq_ok.1 h
  cases h
  obtain ⟨nameNode, hnameNode, rfl⟩ := Option.map_eq_some_iff.1 (nameText_eq_ok node hname)
  have hinside : Accounted occurs (scopeBody find node.children).events body := by
    rw [scopeBody_eq, ← Node.child?_eq] at hresult ⊢
    cases hblock : node.child? .body with
    | none =>
      rw [hblock] at hresult
      cases hresult
      exact .ofQuiet ⟨rfl, rfl⟩
    | some block =>
      simp only [hblock, Option.map_some, Option.getD_some, scopeStatements_eq_mapM,
        map_eq_pure_bind] at hresult ⊢
      obtain ⟨founds, hfounds, hresult⟩ := Report.result_bind_eq_ok.1 hresult
      cases hresult
      rw [Report.events_bind_of_ok hfounds, Report.events_pure, List.append_nil]
      refine accounts_mapM _ (fun pair hpair => ?_) founds hfounds
      exact hbody block hblock pair.1 pair.2
        (Node.mem_of_mem_withPrevious (List.mem_filter.1 hpair).1)
  have hquiet : Quiet (nameText node.children).events :=
    quiet_of_holds (withoutNeeds.holds_require _ _)
  rw [Report.events_bind_of_ok hname, Report.events_bind_of_ok hresult, Report.events_pure,
    List.append_nil]
  have hname := hoccurs nameNode (Node.mem_descendants_of_child? hnameNode)
  exact (Accounted.ofQuiet hquiet).append (hinside.scope hname hkeyword exported)

theorem scopeKeyword_mem (kind : Kind) : scopeKeyword kind ∈ ["namespace", "module"] := by
  rw [scopeKeyword]
  split <;> simp

/-- A statement reports the needs of what it declares, at any depth. -/
theorem accounts_statement {node : Node} (hoccurs : ∀ inner ∈ node.nodes, occurs inner)
    (topLevel exported : Bool) (previous : Option Node) :
    (statement find topLevel exported previous node).Accounts occurs Option.toList := by
  induction node using Node.induct generalizing topLevel exported previous with
  | step node ih =>
    obtain ⟨label, children⟩ := node
    have hself : occurs (.mk label children) := hoccurs _ (Node.self_mem_nodes _)
    have hbelow : ∀ inner ∈ (Node.mk label children).descendants, occurs inner :=
      fun inner hinner => hoccurs inner (Node.mem_nodes_iff.2 (Or.inr hinner))
    have hinner : ∀ inner ∈ (Node.mk label children).descendants, ∀ topLevel exported previous,
        (statement find topLevel exported previous inner).Accounts occurs Option.toList :=
      fun inner hmem => ih inner hmem fun other hother =>
        hoccurs other (Node.nodes_subset_nodes _ (Node.mem_nodes_iff.2 (Or.inr hmem)) hother)
    have hkept : (pure (some (.verbatim (if exported then "export " ++ label.text
        else label.text))) : Report (Option Declaration)).Accounts occurs Option.toList := by
      intro found h
      cases h
      refine .verbatim ⟨rfl, rfl⟩ hself ?_
      cases exported
      · exact Or.inl rfl
      · exact Or.inr rfl
    have hscope : ∀ keyword ∈ ["namespace", "module"], (do
        let name ← nameText children
        return some (.scope name exported keyword (← scopeBody find children)) :
          Report (Option Declaration)).Accounts occurs Option.toList :=
      fun keyword hkeyword => accounts_scope find (.mk label children) hkeyword exported hbelow
        fun block hblock previous inner hmem =>
          hinner inner (Node.mem_descendants_trans (Node.mem_descendants_of_mem_children hmem)
            (Node.mem_descendants_of_child? hblock)) false false previous
    have hunsupported : (unsupportedStatement label).Accounts occurs Option.toList :=
      accounts_unsupportedStatement hself
    have hnone : (pure none : Report (Option Declaration)).Accounts occurs Option.toList := by
      intro found h
      cases h
      exact .ofQuiet ⟨rfl, rfl⟩
    by_cases hschema : (Node.mk label children).kind.isSchema = true
    · rw [statement_eq_schemaStatement hschema]
      exact accounts_schemaStatement find topLevel exported _ _
    rw [statement]
    split <;> rename_i hkind
    · exact hnone
    · exact hnone
    · exact hkept
    · exact hkept
    · exact hkept
    · exact absurd (congrArg Kind.isSchema hkind) hschema
    · exact absurd (congrArg Kind.isSchema hkind) hschema
    · exact accounts_enumDeclaration exported _
    · exact hscope _ (scopeKeyword_mem _)
    · exact hscope _ (scopeKeyword_mem _)
    · rw [exportedStatement?_eq]
      cases hdeclared : Node.first? .declaration children with
      | none => exact hunsupported
      | some inner =>
        exact hinner inner (Node.mem_descendants_of_child? hdeclared) topLevel true previous
    · split
      · rename_i part hparts
        have hpart : part ∈ children.filter Node.isPart := hparts ▸ List.mem_cons_self
        split
        · rw [onlyPart_eq find exported hparts]
          exact hinner part (Node.mem_descendants_of_mem_parts hpart) false exported none
        · exact hunsupported
      · exact hunsupported
    · exact hunsupported

end Statements

/-- The needs reported along a file are those of its declarations. -/
theorem accounts_statements {occurs : Node → Prop} {nodes : List Node} (registry : Registry)
    (previous : Option Node) (hoccurs : ∀ inner ∈ Node.nodesOf nodes, occurs inner) :
    (statements registry previous nodes).Accounts occurs DerivedFile.declarations := by
  induction nodes generalizing registry previous with
  | nil =>
    intro derived h
    cases h
    exact .ofQuiet ⟨rfl, rfl⟩
  | cons node rest ih =>
    intro derived h
    have hrest : ∀ inner ∈ Node.nodesOf rest, occurs inner := by
      intro inner hinner
      apply hoccurs
      rw [Node.nodesOf]
      exact List.mem_append_right _ hinner
    rw [statements] at h ⊢
    split at h <;> rename_i hnamed
    · rw [if_pos hnamed]
      obtain ⟨found, hfound, h⟩ := Report.result_bind_eq_ok.1 h
      obtain ⟨tail, htail, h⟩ := Report.result_bind_eq_ok.1 h
      cases h
      rw [Report.events_bind_of_ok hfound, Report.events_bind_of_ok htail, Report.events_pure,
        List.append_nil]
      have hhere : ∀ inner ∈ node.nodes, occurs inner :=
        fun inner hinner => hoccurs inner (Node.mem_nodesOf List.mem_cons_self hinner)
      exact (accounts_statement registry.get? hhere true false previous found hfound).append
        (ih _ _ hrest tail htail)
    · rw [if_neg hnamed]
      exact ih registry (some node) hrest derived h

end Schemata

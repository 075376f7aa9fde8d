import Schemata.Proofs.Derive.Contribution

/-!
# How schema declarations are put together

Aliases and interfaces become schema declarations in the same way, only their expressions differ:
those of the heritage, which an alias lacks, and the one of the declaration's own part. A run that
yields the declaration has yielded all of its parts, and reported what they report. From there one
goes up: a statement contributes its declaration to the statement around it, and a statement of the
file to the file.
-/

namespace Schemata

/-- Aliases and interfaces. -/
def Kind.isSchema : Kind → Bool
  | .typeAlias | .interface => true
  | _ => false

theorem Kind.eq_of_isSchema {kind : Kind} (h : kind.isSchema = true) :
    kind = .typeAlias ∨ kind = .interface := by
  cases kind <;> first
    | exact Or.inl rfl
    | exact Or.inr rfl
    | cases h

/-- The expression of the declaration's own part, before options are attached. -/
def ownExpr (find : String → Option Expr) (node : Node) : Report Expr :=
  if node.kind == .typeAlias then roleExpr find .value node.children
  else do return .construct "Object" [.object (← interfaceFields find node)]

def heritageExprs (find : String → Option Expr) (node : Node) : Report (List Expr) :=
  if node.kind == .typeAlias then return []
  else (node.children.filter fun child => child.kind == .extendsClause).mapM (heritageClause find)

/-- The fixed points that are put around the own part. -/
def Node.fixedPoints (node : Node) (name : String) : List String :=
  if node.isSelfReferential then [name] else []

/-- The own part inside its fixed point. -/
def Node.tied (node : Node) (name : String) (own : Expr) : Expr :=
  if node.isSelfReferential then .recursive name own else own

def Node.composed (node : Node) (name : String) (heritage : List Expr) (own : Expr) : Expr :=
  if heritage.isEmpty then node.tied name own
  else .construct "Intersect" [.array (heritage ++ [node.tied name own])]

/-- The declaration of an alias or an interface. -/
def schemaStatement (find : String → Option Expr) (topLevel exported : Bool)
    (comment : Option Node) (node : Node) : Report Declaration := do
  Report.emit .needsSchema
  let name ← nameText node.children
  let parameters ← parameterNames node
  let heritage ← heritageExprs find node
  let value ← ownExpr find node
  let options ← docOptions comment
  let own ← withOptions node.label options value
  schemaDeclaration topLevel exported name parameters (node.composed name heritage own)

section Statements

variable {find : String → Option Expr}

theorem aliasDeclaration_eq {node : Node} (h : node.kind = .typeAlias) (topLevel exported : Bool)
    (comment : Option Node) :
    aliasDeclaration find topLevel exported comment node =
      schemaStatement find topLevel exported comment node := by
  simp only [aliasDeclaration, schemaStatement, ownExpr, heritageExprs, h, beq_self_eq_true,
    if_true, pure_bind]
  rfl

theorem interfaceDeclaration_eq {node : Node} (h : node.kind = .interface)
    (topLevel exported : Bool) (comment : Option Node) :
    interfaceDeclaration find topLevel exported comment node =
      schemaStatement find topLevel exported comment node := by
  have hkind : (node.kind == Kind.typeAlias) = false := by rw [h]; rfl
  simp only [interfaceDeclaration, schemaStatement, ownExpr, heritageExprs, hkind,
    Bool.false_eq_true, if_false, bind_assoc, pure_bind]
  rfl

theorem statement_eq_schemaStatement {node : Node} (h : node.kind.isSchema = true)
    (topLevel exported : Bool) (previous : Option Node) :
    statement find topLevel exported previous node =
      some <$> schemaStatement find topLevel exported (commentBefore previous) node := by
  obtain ⟨label, children⟩ := node
  rcases Kind.eq_of_isSchema h with hkind | hkind
  · rw [← aliasDeclaration_eq hkind, statement, show label.kind = .typeAlias from hkind]
  · rw [← interfaceDeclaration_eq hkind, statement, show label.kind = .interface from hkind]

end Statements

/-! ### The parts of a schema declaration -/

/-- What a schema declaration was put together from. -/
structure SchemaParts where
  name : String
  parameters : List String
  heritage : List Expr
  value : Expr
  options : Options
  own : Expr

def SchemaParts.declaration (parts : SchemaParts) (node : Node) (exported : Bool) : Declaration :=
  .schema parts.name exported (node.composed parts.name parts.heritage parts.own) parts.parameters

/-- The parts are those of the node, and whatever was reported about them is among the events. -/
structure SchemaParts.Derived (parts : SchemaParts) (find : String → Option Expr)
    (comment : Option Node) (node : Node) (events : List Event) : Prop where
  name : (node.child? .name).map Node.text = some parts.name
  parameters : (parameterNames node).result = .ok parts.parameters
  heritage : (heritageExprs find node).result = .ok parts.heritage
  value : (ownExpr find node).result = .ok parts.value
  options : (docOptions comment).result = .ok parts.options
  own : (withOptions node.label parts.options parts.value).result = .ok parts.own
  heritageEvents : (heritageExprs find node).events ⊆ events
  valueEvents : (ownExpr find node).events ⊆ events
  optionEvents : (docOptions comment).events ⊆ events
  ownEvents : (withOptions node.label parts.options parts.value).events ⊆ events

theorem SchemaParts.Derived.mono {parts : SchemaParts} {find : String → Option Expr}
    {comment : Option Node} {node : Node} {events more : List Event}
    (h : parts.Derived find comment node events) (hmore : events ⊆ more) :
    parts.Derived find comment node more :=
  { h with
    heritageEvents := List.Subset.trans h.heritageEvents hmore
    valueEvents := List.Subset.trans h.valueEvents hmore
    optionEvents := List.Subset.trans h.optionEvents hmore
    ownEvents := List.Subset.trans h.ownEvents hmore }

theorem result_schemaDeclaration (topLevel exported : Bool) (name : String)
    (parameters : List String) (body : Expr) :
    (schemaDeclaration topLevel exported name parameters body).result =
      .ok (.schema name exported body parameters) := by
  unfold schemaDeclaration
  split
  · rfl
  · split <;> rfl

theorem exists_schemaParts {find : String → Option Expr} {topLevel exported : Bool}
    {comment : Option Node} {node : Node} {declaration : Declaration}
    (h : (schemaStatement find topLevel exported comment node).result = .ok declaration) :
    ∃ parts : SchemaParts, declaration = parts.declaration node exported ∧
      parts.Derived find comment node
        (schemaStatement find topLevel exported comment node).events := by
  unfold schemaStatement at h ⊢
  obtain ⟨_, hneeds, h⟩ := Report.result_bind_eq_ok.1 h
  obtain ⟨name, hname, h⟩ := Report.result_bind_eq_ok.1 h
  obtain ⟨parameters, hparameters, h⟩ := Report.result_bind_eq_ok.1 h
  obtain ⟨heritage, hheritage, h⟩ := Report.result_bind_eq_ok.1 h
  obtain ⟨value, hvalue, h⟩ := Report.result_bind_eq_ok.1 h
  obtain ⟨options, hoptions, h⟩ := Report.result_bind_eq_ok.1 h
  obtain ⟨own, hown, h⟩ := Report.result_bind_eq_ok.1 h
  rw [result_schemaDeclaration] at h
  cases h
  rw [Report.events_bind_of_ok hneeds, Report.events_bind_of_ok hname,
    Report.events_bind_of_ok hparameters, Report.events_bind_of_ok hheritage,
    Report.events_bind_of_ok hvalue, Report.events_bind_of_ok hoptions,
    Report.events_bind_of_ok hown]
  refine ⟨⟨name, parameters, heritage, value, options, own⟩, rfl, ?_⟩
  exact ⟨nameText_eq_ok node hname, hparameters, hheritage, hvalue, hoptions, hown, by grind,
    by grind, by grind, by grind⟩

/-! ### Types inside a declaration -/

section Types

variable {find : String → Option Expr}

theorem contributes_ownExpr {node inner : Node} (h : inner ∈ node.ownTypes) :
    (typeExpr find inner).Contributes Expr.WorkedInto (ownExpr find node) := by
  rw [Node.ownTypes] at h
  rw [ownExpr]
  split at h <;> rename_i hkind
  · rw [if_pos hkind, roleExpr_of_child? (Option.mem_toList.1 h)]
    exact Report.contributes_self fun _ => .self
  · rw [if_neg hkind, interfaceFields]
    cases hbody : node.child? .body with
    | none => simp [hbody] at h
    | some body =>
      rw [hbody] at h
      exact (contributes_fieldExprs body h).map fun _ _ hfield => .objectOf hfield

theorem contributes_heritageExpr (find : String → Option Expr) {node inner : Node}
    (hkind : node.kind = .genericType) (h : inner ∈ node.typeArguments) :
    (typeExpr find inner).Contributes Expr.WorkedInto (heritageExpr find node) := by
  rw [heritageExpr, if_pos (beq_iff_eq.2 hkind)]
  refine Report.Contributes.after fun callee _ => ?_
  exact (contributes_argumentExprs h).map fun _ _ hexpr => .apply callee hexpr .self

theorem contributes_heritageClause {clause node : Node} (h : node ∈ clause.parts) :
    (heritageExpr find node).Contributes Expr.WorkedInto (heritageClause find clause) := by
  refine (Report.contributes_mapM h).bind fun expr exprs whole hexpr hwhole => ?_
  split at hwhole
  · cases hwhole
    rw [List.mem_singleton.1 hexpr]
    exact .self
  · cases hwhole
    exact .wrapArray "Intersect" hexpr .self

theorem contributes_heritageExprs {node inner : Node} (h : inner ∈ node.heritageTypes) :
    (typeExpr find inner).Contributes
      (fun expr exprs => ∃ clause ∈ exprs, expr.WorkedInto clause) (heritageExprs find node) := by
  rw [Node.heritageTypes] at h
  rw [heritageExprs]
  split at h <;> rename_i hkind
  · cases h
  · obtain ⟨generic, hgeneric, hinner⟩ := List.mem_flatMap.1 h
    obtain ⟨clause, hclause, hpart⟩ := List.mem_flatMap.1 hgeneric
    obtain ⟨hpart, hgenericKind⟩ := List.mem_filter.1 hpart
    rw [if_neg hkind]
    have harguments := contributes_heritageExpr find (beq_iff_eq.1 hgenericKind) hinner
    refine (harguments.trans (contributes_heritageClause hpart)
      fun _ _ _ hexpr hwhole => hexpr.trans hwhole).trans (Report.contributes_mapM hclause) ?_
    exact fun _ whole _ hworked hmem => ⟨whole, hmem, hworked⟩

variable {parts : SchemaParts} {comment : Option Node} {node origin inner : Node}
  {events : List Event}

/-- A type in the own part of a declaration was derived, and is worked into that part. -/
theorem SchemaParts.Derived.exists_own (h : parts.Derived find comment node events)
    (horigin : origin ∈ node.ownTypes) (hinner : TypeWithin origin inner) :
    ∃ expr, (typeExpr find inner).result = .ok expr ∧ (typeExpr find inner).events ⊆ events ∧
      expr.WorkedInto parts.own := by
  have hwhole : (typeExpr find inner).Contributes Expr.WorkedInto (ownExpr find node) :=
    (contributes_of_typeWithin find hinner).trans (contributes_ownExpr horigin)
      fun _ _ _ hfirst hsecond => hfirst.trans hsecond
  obtain ⟨expr, hexpr, hevents, hworked⟩ := hwhole parts.value h.value
  exact ⟨expr, hexpr, List.Subset.trans hevents h.valueEvents, hworked.withOptions h.own⟩

theorem SchemaParts.Derived.exists_heritage (h : parts.Derived find comment node events)
    (horigin : origin ∈ node.heritageTypes) (hinner : TypeWithin origin inner) :
    ∃ expr, (typeExpr find inner).result = .ok expr ∧ (typeExpr find inner).events ⊆ events ∧
      ∃ clause ∈ parts.heritage, expr.WorkedInto clause := by
  have hwhole : (typeExpr find inner).Contributes
      (fun expr exprs => ∃ clause ∈ exprs, expr.WorkedInto clause) (heritageExprs find node) :=
    (contributes_of_typeWithin find hinner).trans (contributes_heritageExprs horigin)
      fun _ _ _ hfirst ⟨clause, hclause, hsecond⟩ => ⟨clause, hclause, hfirst.trans hsecond⟩
  obtain ⟨expr, hexpr, hevents, hworked⟩ := hwhole parts.heritage h.heritage
  exact ⟨expr, hexpr, List.Subset.trans hevents h.heritageEvents, hworked⟩

end Types

/-! ### Statements inside a statement -/

/-- One statement is, at some depth, inside another; each comes with what stands before it. -/
def StatementWithin (outer inner : Option Node × Node) : Prop :=
  Relation.ReflTransGen (fun outer inner => inner ∈ outer.2.subStatements outer.1) outer inner

namespace Declaration

theorem mem_nestedOf_self {declaration : Declaration} {declarations : List Declaration}
    (h : declaration ∈ declarations) : declaration ∈ nestedOf declarations := by
  refine mem_nestedOf.2 ⟨declaration, h, ?_⟩
  cases declaration <;> simp [nested]

theorem nestedOf_subset {front back : List Declaration} (h : front ⊆ back) :
    nestedOf front ⊆ nestedOf back := by
  intro inner hinner
  obtain ⟨declaration, hmem, hnested⟩ := mem_nestedOf.1 hinner
  exact mem_nestedOf.2 ⟨declaration, h hmem, hnested⟩

end Declaration

/-- What is declared inside one is declared inside the other. -/
def DeclaredWithin (inner outer : Option Declaration) : Prop :=
  Declaration.nestedOf inner.toList ⊆ Declaration.nestedOf outer.toList

theorem DeclaredWithin.rfl {found : Option Declaration} : DeclaredWithin found found :=
  List.Subset.refl _

section Statements

variable {find : String → Option Expr}

theorem contributes_scope (node : Node) {pair : Option Node × Node} (exported : Bool)
    (keyword : String)
    (h : pair ∈ ((node.child? .body).map fun block =>
      (Node.withPrevious none block.children).filter fun pair => pair.2.label.named).getD []) :
    (statement find false false pair.1 pair.2).Contributes DeclaredWithin (do
      let name ← nameText node.children
      return some (.scope name exported keyword (← scopeBody find node.children))) := by
  refine Report.Contributes.after fun name _ => ?_
  rw [scopeBody_eq, ← Node.child?_eq]
  cases hblock : node.child? .body with
  | none => simp [hblock] at h
  | some block =>
    rw [hblock] at h
    have hmember := Report.contributes_mapM
      (f := fun pair => statement find false false pair.1 pair.2) h
    have hbody : (statement find false false pair.1 pair.2).Contributes
        (fun found body => found.toList ⊆ body) (scopeStatements find none block.children) := by
      rw [scopeStatements_eq_mapM, map_eq_pure_bind]
      refine hmember.map fun found founds hmem declaration hdeclaration => ?_
      exact List.mem_flatMap.2 ⟨found, hmem, hdeclaration⟩
    refine hbody.map fun found body hsubset inner hinner => ?_
    have hnested := Declaration.nestedOf_subset hsubset hinner
    simp [Declaration.nestedOf, Declaration.nested, hnested]

theorem contributes_subStatement (find : String → Option Expr) {node : Node}
    {previous : Option Node} {pair : Option Node × Node} (h : pair ∈ node.subStatements previous)
    (topLevel exported : Bool) :
    ∃ innerTop innerExported,
      (statement find innerTop innerExported pair.1 pair.2).Contributes DeclaredWithin
        (statement find topLevel exported previous node) := by
  obtain ⟨label, children⟩ := node
  rw [Node.subStatements, show (Node.mk label children).kind = label.kind from rfl] at h
  split at h <;> rename_i hkind
  · obtain ⟨inner, hinner, rfl⟩ := List.mem_map.1 h
    have hfirst : Node.first? .declaration children = some inner := Option.mem_toList.1 hinner
    refine ⟨topLevel, true, ?_⟩
    rw [statement, hkind, exportedStatement?_eq, hfirst]
    exact Report.contributes_self fun _ => .rfl
  · refine ⟨false, false, ?_⟩
    rw [statement, hkind]
    exact contributes_scope (.mk label children) exported _ h
  · refine ⟨false, false, ?_⟩
    rw [statement, hkind]
    exact contributes_scope (.mk label children) exported _ h
  · split at h
    · rename_i part hparts
      split at h
      · rename_i hinternal
        obtain rfl := List.mem_singleton.1 h
        refine ⟨false, exported, ?_⟩
        have hfilter : children.filter Node.isPart = [part] := hparts
        rw [statement, hkind]
        simp only [hfilter, hinternal, if_true, onlyPart_eq find exported hfilter]
        exact Report.contributes_self fun _ => .rfl
      · cases h
    · cases h
  · cases h

theorem contributes_of_statementWithin (find : String → Option Expr)
    {outer inner : Option Node × Node} (h : StatementWithin outer inner)
    (topLevel exported : Bool) :
    ∃ innerTop innerExported,
      (statement find innerTop innerExported inner.1 inner.2).Contributes DeclaredWithin
        (statement find topLevel exported outer.1 outer.2) := by
  induction h with
  | refl => exact ⟨topLevel, exported, Report.contributes_self fun _ => .rfl⟩
  | tail _ hsub ih =>
    obtain ⟨middleTop, middleExported, hmiddle⟩ := ih
    obtain ⟨innerTop, innerExported, hinner⟩ :=
      contributes_subStatement find hsub middleTop middleExported
    exact ⟨innerTop, innerExported,
      hinner.trans hmiddle fun _ _ _ hfirst hsecond => List.Subset.trans hfirst hsecond⟩

end Statements

/-- Every schema declaration that a statement yields is put together from parts, and its name is one
that the statement declares. -/
theorem exists_schemaParts_of_statement {find : String → Option Expr} {node : Node}
    {topLevel exported : Bool} {previous : Option Node} {name : String} {isExported : Bool}
    {body : Expr} {parameters : List String}
    (h : (statement find topLevel exported previous node).result =
      .ok (some (.schema name isExported body parameters))) :
    node.Declares name ∧
      ∃ inner comment events, ∃ parts : SchemaParts, parts.Derived find comment inner events ∧
        .schema name isExported body parameters = parts.declaration inner isExported := by
  induction node using Node.induct generalizing topLevel exported previous with
  | step node ih =>
    obtain ⟨label, children⟩ := node
    by_cases hschema : (Node.mk label children).kind.isSchema = true
    · rw [statement_eq_schemaStatement hschema, map_eq_pure_bind] at h
      obtain ⟨declaration, hdeclaration, h⟩ := Report.result_bind_eq_ok.1 h
      obtain ⟨parts, rfl, hparts⟩ := exists_schemaParts hdeclaration
      cases h
      refine ⟨.named ?_ hparts.name, _, _, _, parts, hparts, rfl⟩
      rcases Kind.eq_of_isSchema hschema with hkind | hkind <;> simp [hkind]
    · -- of the other statements only exports and expressions yield what is inside as it is
      have hscope : ∀ keyword, (do
          let name ← nameText children
          return some (.scope name exported keyword (← scopeBody find children)) :
            Report (Option Declaration)).result ≠
          .ok (some (.schema name isExported body parameters)) := by
        intro keyword h
        obtain ⟨name, -, h⟩ := Report.result_bind_eq_ok.1 h
        obtain ⟨inside, -, h⟩ := Report.result_bind_eq_ok.1 h
        cases h
      rw [statement] at h
      split at h <;> rename_i hkind
      · cases h
      · cases h
      · cases h
      · cases h
      · cases h
      · exact absurd (congrArg Kind.isSchema hkind) hschema
      · exact absurd (congrArg Kind.isSchema hkind) hschema
      · rw [map_eq_pure_bind] at h
        obtain ⟨declaration, henum, h⟩ := Report.result_bind_eq_ok.1 h
        obtain ⟨_, -, henum⟩ := Report.result_bind_eq_ok.1 henum
        obtain ⟨_, -, henum⟩ := Report.result_bind_eq_ok.1 henum
        cases henum
        cases h
      · exact absurd h (hscope _)
      · exact absurd h (hscope _)
      · rw [exportedStatement?_eq] at h
        cases hinner : Node.first? .declaration children with
        | none =>
          rw [hinner] at h
          cases h
        | some inner =>
          rw [hinner] at h
          obtain ⟨hdeclares, hparts⟩ := ih inner (Node.mem_descendants_of_child? hinner) h
          exact ⟨.exported hkind hinner hdeclares, hparts⟩
      · split at h
        · rename_i part hparts
          split at h
          · rename_i hinternal
            have hpart : part ∈ children.filter Node.isPart := hparts ▸ List.mem_cons_self
            rw [onlyPart_eq find exported hparts] at h
            obtain ⟨hdeclares, hinner⟩ := ih part (Node.mem_descendants_of_mem_parts hpart) h
            exact ⟨.expression hkind hparts (eq_of_beq hinternal) hdeclares, hinner⟩
          · cases h
        · cases h
      · cases h

/-! ### Declarations of a file -/

/-- A statement of a file, itself or inside a namespace, after the given children of the file. -/
def StatementAt (root : Node) (front : List Node) (previous : Option Node) (node : Node) : Prop :=
  ∃ top back, root.children = front ++ top :: back ∧ top.label.named = true ∧
    StatementWithin (front.getLast?, top) (previous, node)

theorem contributes_top {root top : Node} {front back : List Node} {derived : DerivedFile}
    (hsplit : root.children = front ++ top :: back) (hnamed : top.label.named = true)
    (hderived : (deriveFile root).result = .ok derived) :
    ∃ before found, (statements .empty none front).result = .ok before ∧
      (statement before.registry.get? true false front.getLast? top).result = .ok found ∧
      (statement before.registry.get? true false front.getLast? top).events ⊆
        (deriveFile root).events ∧
      before.declarations ++ found.toList <+: derived.declarations := by
  rw [deriveFile, hsplit, statements_append] at hderived ⊢
  obtain ⟨before, hbefore, hderived⟩ := Report.result_bind_eq_ok.1 hderived
  obtain ⟨after, hafter, hderived⟩ := Report.result_bind_eq_ok.1 hderived
  cases hderived
  simp only [statements, hnamed, if_true, Option.or_none] at hafter ⊢
  obtain ⟨found, hfound, hafter⟩ := Report.result_bind_eq_ok.1 hafter
  obtain ⟨tail, htail, hafter⟩ := Report.result_bind_eq_ok.1 hafter
  cases hafter
  refine ⟨before, found, hbefore, hfound, ?_, tail.declarations, by simp⟩
  rw [Report.events_bind_of_ok hbefore, bind_assoc]
  exact fun event hevent => List.mem_append_right _ (Report.events_subset_bind _ _ hevent)

/-- What is declared for a statement of a file is in the result. -/
theorem exists_found_of_statementAt {root node : Node} {front : List Node}
    {previous : Option Node} {derived : DerivedFile}
    (hderived : (deriveFile root).result = .ok derived)
    (hat : StatementAt root front previous node) :
    ∃ before topLevel exported found, (statements .empty none front).result = .ok before ∧
      before.declarations <+: derived.declarations ∧
      (statement before.registry.get? topLevel exported previous node).result = .ok found ∧
      (statement before.registry.get? topLevel exported previous node).events ⊆
        (deriveFile root).events ∧
      Declaration.nestedOf found.toList ⊆ Declaration.nestedOf derived.declarations := by
  obtain ⟨top, back, hsplit, hnamed, hwithin⟩ := hat
  obtain ⟨before, outer, hbefore, houter, hevents, hprefix⟩ :=
    contributes_top hsplit hnamed hderived
  obtain ⟨innerTop, exported, hcontributes⟩ :=
    contributes_of_statementWithin before.registry.get? hwithin true false
  obtain ⟨found, hfound, hfoundEvents, hdeclared⟩ := hcontributes outer houter
  have hfile : outer.toList ⊆ derived.declarations :=
    List.Subset.trans (List.subset_append_right _ _) hprefix.subset
  exact ⟨before, innerTop, exported, found, hbefore, (List.prefix_append _ _).trans hprefix, hfound,
    List.Subset.trans hfoundEvents hevents,
    List.Subset.trans hdeclared (Declaration.nestedOf_subset hfile)⟩

/-- Wherever an alias or an interface stands in a file that is derived, its declaration is in the
result, put together from parts that were derived with the registry of the statements in front. -/
theorem exists_schemaParts_of_statementAt {root node : Node} {front : List Node}
    {previous : Option Node} {derived : DerivedFile}
    (hderived : (deriveFile root).result = .ok derived)
    (hat : StatementAt root front previous node) (hkind : node.kind.isSchema = true) :
    ∃ before, (statements .empty none front).result = .ok before ∧
      before.declarations <+: derived.declarations ∧
      ∃ (parts : SchemaParts) (exported : Bool),
        parts.declaration node exported ∈ Declaration.nestedOf derived.declarations ∧
        parts.Derived before.registry.get? (commentBefore previous) node
          (deriveFile root).events := by
  obtain ⟨before, innerTop, exported, found, hbefore, hprefix, hfound, hevents, hdeclared⟩ :=
    exists_found_of_statementAt hderived hat
  rw [statement_eq_schemaStatement hkind, map_eq_pure_bind] at hfound hevents
  obtain ⟨declaration, hdeclaration, hfound⟩ := Report.result_bind_eq_ok.1 hfound
  cases hfound
  obtain ⟨parts, rfl, hparts⟩ := exists_schemaParts hdeclaration
  refine ⟨before, hbefore, hprefix, parts, exported,
    hdeclared (Declaration.mem_nestedOf_self (by simp)), hparts.mono ?_⟩
  exact List.Subset.trans (Report.events_subset_bind _ _) hevents

end Schemata

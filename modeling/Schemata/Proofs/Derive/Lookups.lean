import Schemata.Proofs.Derive.SchemaParts

/-!
# What a derivation looks up

The look-up of registered names is the only thing that the derivation of a type or of a statement
takes from outside, and it is put to use at indexed accesses only. So two look-ups that agree on the
bases of the accesses below a node give the same report there: the same value or fault, and the same
events.

The expression of a type is made from those of its parts, so agreement is carried up from the parts
to the whole, and along statements in the same way.
-/

namespace Schemata

/-- The texts of the bases of all accesses in and below a node. -/
def Node.lookupBases (node : Node) : List String :=
  (node.nodes.filter fun inner => inner.kind == .lookupType).filterMap
    fun access => access.parts.head?.map text

theorem Node.lookupBases_subset {node inner : Node} (h : inner ∈ node.descendants) :
    inner.lookupBases ⊆ node.lookupBases := by
  intro base hbase
  obtain ⟨access, haccess, htext⟩ := List.mem_filterMap.1 hbase
  obtain ⟨hmem, hkind⟩ := List.mem_filter.1 haccess
  have hnode := nodes_subset_nodes node (mem_nodes_iff.2 (Or.inr h)) hmem
  exact List.mem_filterMap.2 ⟨access, List.mem_filter.2 ⟨hnode, hkind⟩, htext⟩

theorem Node.mem_lookupBases {node base : Node} {more : List Node}
    (hkind : node.kind = .lookupType) (hparts : node.parts = base :: more) :
    base.text ∈ node.lookupBases := by
  refine List.mem_filterMap.2 ⟨node, List.mem_filter.2 ⟨self_mem_nodes node, ?_⟩, ?_⟩
  · rw [hkind]
    rfl
  · rw [hparts]
    rfl

theorem Report.bind_congr {α β : Type} {x : Report α} {f g : α → Report β}
    (h : ∀ a, x.result = .ok a → f a = g a) : x >>= f = x >>= g := by
  cases hx : x.result with
  | error cause => simp only [Bind.bind, Report.bind, hx]
  | ok a => simp only [Bind.bind, Report.bind, hx, h a hx]

theorem Report.mapM_congr {α β : Type} {f g : α → Report β} {xs : List α}
    (h : ∀ x ∈ xs, f x = g x) : xs.mapM f = xs.mapM g := by
  induction xs with
  | nil => rfl
  | cons x rest ih =>
    rw [List.mapM_cons, List.mapM_cons, h x List.mem_cons_self,
      ih fun y hy => h y (List.mem_cons_of_mem x hy)]

section Types

variable {find find' : String → Option Expr}

/-! ### Accesses -/

theorem resolveShallow_congr {node : Node} (hkind : node.kind = .lookupType)
    (h : ∀ base ∈ node.lookupBases, find base = find' base) :
    resolveShallow find node = resolveShallow find' node := by
  unfold resolveShallow Node.baseAndKey
  split
  · rename_i base key more hparts
    simp only [pure_bind, h base.text (Node.mem_lookupBases hkind hparts)]
  · rfl

theorem resolveAccess_congr {node : Node} (hkind : node.kind = .lookupType)
    (h : ∀ base ∈ node.lookupBases, find base = find' base) :
    resolveAccess find node = resolveAccess find' node := by
  have hinner : ∀ inner key more, node.parts = inner :: key :: more →
      inner.kind = .lookupType → resolveDeep find node = resolveDeep find' node := by
    intro inner key more hparts hinnerKind
    have hmem : inner ∈ node.descendants :=
      Node.mem_descendants_of_mem_parts (hparts ▸ List.mem_cons_self)
    have hbases := fun base hbase => h base (Node.lookupBases_subset hmem hbase)
    rw [resolveDeep, resolveDeep, baseAndKey_eq hparts, pure_bind, pure_bind]
    dsimp only
    rw [resolveShallow_congr hinnerKind hbases]
  unfold resolveAccess
  cases hparts : node.parts with
  | nil => simp [Node.baseAndKey, hparts, Report.fault, Bind.bind, Report.bind]
  | cons base rest =>
    cases rest with
    | nil => simp [Node.baseAndKey, hparts, Report.fault, Bind.bind, Report.bind]
    | cons key more =>
      simp only [baseAndKey_eq hparts, pure_bind, resolveShallow_congr hkind h]
      by_cases hlookup : base.kind = .lookupType
      · rw [hinner base key more hparts hlookup]
      · simp only [beq_eq_false_iff_ne.2 hlookup, Bool.false_eq_true, if_false]

/-! ### Parts of types -/

variable {node : Node}

theorem firstExpr_congr
    (h : ∀ inner ∈ node.parts.head?, typeExpr find inner = typeExpr find' inner) :
    firstExpr find node.children = firstExpr find' node.children := by
  rw [firstExpr_eq, firstExpr_eq, ← Node.parts]
  cases hhead : node.parts.head? with
  | none => simp only [Option.map_none]
  | some inner => exact h inner hhead

private theorem firstExpr_mark_congr {mark? : Option Node}
    (h : ∀ inner ∈ mark?.bind fun mark => mark.parts.head?,
      typeExpr find inner = typeExpr find' inner) :
    (mark?.map fun mark => firstExpr find mark.children) =
      mark?.map fun mark => firstExpr find' mark.children := by
  cases mark? with
  | none => simp only [Option.map_none]
  | some mark => exact congrArg some (firstExpr_congr h)

theorem annotationExpr?_congr
    (h : ∀ inner ∈ node.annotatedType?, typeExpr find inner = typeExpr find' inner) :
    annotationExpr? find node.children = annotationExpr? find' node.children := by
  rw [annotationExpr?_eq, annotationExpr?_eq, ← Node.child?_eq]
  exact firstExpr_mark_congr h

theorem memberAnnotation?_congr (node : Node)
    (h : ∀ inner ∈ node.memberType?, typeExpr find inner = typeExpr find' inner) :
    (annotationExpr? find node.children <|> looseAnnotationExpr? find node.children) =
      (annotationExpr? find' node.children <|> looseAnnotationExpr? find' node.children) := by
  rw [memberAnnotation?_eq, memberAnnotation?_eq]
  exact firstExpr_mark_congr h

theorem resultExpr?_congr (node : Node)
    (h : ∀ inner ∈ node.resultType?, typeExpr find inner = typeExpr find' inner) :
    (roleExpr? find .returnType node.children <|> roleExpr? find .type node.children <|>
        lastExpr? find node.children) =
      (roleExpr? find' .returnType node.children <|> roleExpr? find' .type node.children <|>
        lastExpr? find' node.children) := by
  rw [resultExpr?_eq, resultExpr?_eq]
  cases hresult : node.resultType? with
  | none => simp only [Option.map_none]
  | some inner => exact congrArg some (h inner hresult)

theorem argumentExprs_congr (node : Node)
    (h : ∀ inner ∈ node.typeArguments, typeExpr find inner = typeExpr find' inner) :
    argumentExprs find node.children = argumentExprs find' node.children := by
  rw [argumentExprs_eq_mapM, argumentExprs_eq_mapM]
  exact Report.mapM_congr h

theorem parameterExprs_congr
    (h : ∀ inner ∈ node.typeParameterList.filterMap Node.annotatedType?,
      typeExpr find inner = typeExpr find' inner) :
    parameterExprs find node.children = parameterExprs find' node.children := by
  rw [parameterExprs_eq_mapM, parameterExprs_eq_mapM]
  refine Report.mapM_congr fun parameter hparameter => congrArg orAny ?_
  exact annotationExpr?_congr fun inner hinner =>
    h inner (List.mem_filterMap.2 ⟨parameter, hparameter, hinner⟩)

theorem roleExpr_congr {role : Role}
    (h : ∀ inner ∈ node.child? role, typeExpr find inner = typeExpr find' inner) :
    roleExpr find role node.children = roleExpr find' role node.children := by
  rw [roleExpr_eq, roleExpr_eq, roleExpr?_eq, roleExpr?_eq, ← Node.child?_eq]
  cases hchild : node.child? role with
  | none => simp only [Option.map_none]
  | some inner => exact h inner hchild

theorem fieldExprs_congr
    (h : ∀ inner ∈ node.properties.filterMap Node.annotatedType?,
      typeExpr find inner = typeExpr find' inner) :
    fieldExprs find none node.children = fieldExprs find' none node.children := by
  rw [fieldExprs_eq_mapM, fieldExprs_eq_mapM]
  refine Report.mapM_congr fun pair hpair => ?_
  obtain ⟨hmem, hpart⟩ := List.mem_filter.1 hpair
  unfold memberField propertyField
  split
  · rename_i hkind
    have hproperty : pair.2 ∈ node.properties :=
      List.mem_filter.2 ⟨List.mem_filter.2 ⟨Node.mem_of_mem_withPrevious hmem, hpart⟩, hkind⟩
    have hfield : annotationExpr? find pair.2.children = annotationExpr? find' pair.2.children :=
      annotationExpr?_congr fun inner hinner =>
        h inner (List.mem_filterMap.2 ⟨pair.2, hproperty, hinner⟩)
    rw [hfield]
  · rfl

/-- The expression of a type is determined by those of its parts, unless it is an access. -/
theorem typeExpr_congr_typeParts
    (haccess : node.kind = .lookupType → resolveAccess find node = resolveAccess find' node)
    (h : ∀ inner ∈ node.typeParts, typeExpr find inner = typeExpr find' inner) :
    typeExpr find node = typeExpr find' node := by
  obtain ⟨label, children⟩ := node
  have hfirst : (∀ inner ∈ (Node.mk label children).parts.head?.toList,
      typeExpr find inner = typeExpr find' inner) →
      firstExpr find children = firstExpr find' children :=
    fun hparts => firstExpr_congr fun inner hinner => hparts inner (Option.mem_toList.2 hinner)
  have hmember : (∀ inner ∈ (Node.mk label children).memberType?.toList,
      typeExpr find inner = typeExpr find' inner) →
      (annotationExpr? find children <|> looseAnnotationExpr? find children) =
        (annotationExpr? find' children <|> looseAnnotationExpr? find' children) :=
    fun hparts => memberAnnotation?_congr (.mk label children) fun inner hinner =>
      hparts inner (Option.mem_toList.2 hinner)
  have hsignature : (∀ inner ∈ (Node.mk label children).typeParameterList.filterMap
      Node.annotatedType? ++ (Node.mk label children).resultType?.toList,
      typeExpr find inner = typeExpr find' inner) →
      parameterExprs find children = parameterExprs find' children ∧
      (roleExpr? find .returnType children <|> roleExpr? find .type children <|>
        lastExpr? find children) =
      (roleExpr? find' .returnType children <|> roleExpr? find' .type children <|>
        lastExpr? find' children) := by
    intro hparts
    constructor
    · exact parameterExprs_congr fun inner hinner => hparts inner (List.mem_append_left _ hinner)
    · exact resultExpr?_congr (.mk label children) fun inner hinner =>
        hparts inner (List.mem_append_right _ (Option.mem_toList.2 hinner))
  have hlist : ∀ nodes : List Node,
      (∀ inner ∈ nodes, typeExpr find inner = typeExpr find' inner) →
      nodes.mapM (typeExpr find) = nodes.mapM (typeExpr find') := fun _ => Report.mapM_congr
  rw [typeExpr, typeExpr]
  split <;> rename_i hkind <;> simp only [Node.typeParts, Node.kind, Node.label, hkind] at h
  · rfl
  · rfl
  · rfl
  · rfl
  · rfl
  · exact haccess hkind
  · refine Report.bind_congr fun name hname => ?_
    rw [nameText_eq_ok (.mk label children) hname] at h
    by_cases hbytes : name = "Uint8Array"
    · simp [hbytes]
    · have harguments : argumentExprs find children = argumentExprs find' children :=
        argumentExprs_congr (.mk label children) fun inner hinner =>
          h inner (by simpa [hbytes] using hinner)
      rw [harguments]
  · rw [hfirst h]
  · rw [hfirst h]
  · rw [hfirst h]
  · rw [hfirst h]
  · rw [hfirst h]
  · rw [partExprs_eq_mapM, partExprs_eq_mapM, hlist (children.filter Node.isPart) h]
  · rw [memberExprs_eq_mapM, memberExprs_eq_mapM, hlist (Node.members .unionType children) h]
  · rw [memberExprs_eq_mapM, memberExprs_eq_mapM,
      hlist (Node.members .intersectionType children) h]
  · have hfields : fieldExprs find none children = fieldExprs find' none children :=
      fieldExprs_congr h
    rw [hfields]
  · rw [(hsignature h).1, (hsignature h).2]
  · rw [(hsignature h).1, (hsignature h).2]
  · have hrole : ∀ role ∈ [Role.left, .right, .consequence, .alternative],
        roleExpr find role children = roleExpr find' role children :=
      fun role hmem => roleExpr_congr fun inner hinner =>
        h inner (List.mem_filterMap.2 ⟨role, hmem, hinner⟩)
    rw [hrole .left (by simp), hrole .right (by simp), hrole .consequence (by simp),
      hrole .alternative (by simp)]
  · rw [hmember h]
  · rw [hmember h]
  · rfl

theorem typeExpr_congr (h : ∀ base ∈ node.lookupBases, find base = find' base) :
    typeExpr find node = typeExpr find' node := by
  induction node using Node.induct with
  | step node ih =>
    refine typeExpr_congr_typeParts (fun hkind => resolveAccess_congr hkind h) ?_
    intro inner hinner
    have hmem := Node.mem_descendants_of_mem_typeParts hinner
    exact ih inner hmem fun base hbase => h base (Node.lookupBases_subset hmem hbase)

end Types

/-! ### Statements -/

section Statements

variable {find find' : String → Option Expr} {node : Node}

theorem ownExpr_congr
    (h : ∀ inner ∈ node.ownTypes, typeExpr find inner = typeExpr find' inner) :
    ownExpr find node = ownExpr find' node := by
  rw [Node.ownTypes] at h
  unfold ownExpr
  split <;> rename_i hkind
  · rw [if_pos hkind] at h
    exact roleExpr_congr fun inner hinner => h inner (Option.mem_toList.2 hinner)
  · rw [if_neg hkind] at h
    unfold interfaceFields
    cases hbody : node.child? .body with
    | none => rfl
    | some body =>
      rw [hbody] at h
      dsimp only
      rw [fieldExprs_congr h]

theorem heritageExprs_congr
    (h : ∀ inner ∈ node.heritageTypes, typeExpr find inner = typeExpr find' inner) :
    heritageExprs find node = heritageExprs find' node := by
  rw [Node.heritageTypes] at h
  unfold heritageExprs
  split <;> rename_i hkind
  · rfl
  · rw [if_neg hkind] at h
    refine Report.mapM_congr fun clause hclause => ?_
    have hclauses : clause.parts.mapM (heritageExpr find) =
        clause.parts.mapM (heritageExpr find') := by
      refine Report.mapM_congr fun part hpart => ?_
      unfold heritageExpr
      split <;> rename_i hgeneric
      · have hmem : part ∈ (node.children.filter fun child => child.kind == .extendsClause).flatMap
            fun clause => clause.parts.filter fun part => part.kind == .genericType :=
          List.mem_flatMap.2 ⟨clause, hclause, List.mem_filter.2 ⟨hpart, hgeneric⟩⟩
        rw [argumentExprs_congr part fun inner hinner =>
          h inner (List.mem_flatMap.2 ⟨part, hmem, hinner⟩)]
      · rfl
    rw [heritageClause, heritageClause, hclauses]

theorem schemaStatement_congr (h : ∀ base ∈ node.lookupBases, find base = find' base)
    (topLevel exported : Bool) (comment : Option Node) :
    schemaStatement find topLevel exported comment node =
      schemaStatement find' topLevel exported comment node := by
  have hbelow : ∀ inner ∈ node.descendants, typeExpr find inner = typeExpr find' inner :=
    fun inner hinner => typeExpr_congr fun base hbase =>
      h base (Node.lookupBases_subset hinner hbase)
  have hheritage : heritageExprs find node = heritageExprs find' node :=
    heritageExprs_congr fun inner hinner =>
      hbelow inner (Node.mem_descendants_of_mem_heritageTypes hinner)
  have hown : ownExpr find node = ownExpr find' node :=
    ownExpr_congr fun inner hinner => hbelow inner (Node.mem_descendants_of_mem_ownTypes hinner)
  rw [schemaStatement, schemaStatement, hheritage, hown]

/-- **A statement depends on its look-ups only.** If two look-ups agree on the bases of all accesses
in a statement, its report is the same with either: the declaration, the diagnostics, what is
registered and what the import header needs. -/
theorem statement_congr (h : ∀ base ∈ node.lookupBases, find base = find' base)
    (topLevel exported : Bool) (previous : Option Node) :
    statement find topLevel exported previous node =
      statement find' topLevel exported previous node := by
  induction node using Node.induct generalizing topLevel exported previous with
  | step node ih =>
    have hbelow : ∀ inner ∈ node.descendants, ∀ topLevel exported previous,
        statement find topLevel exported previous inner =
          statement find' topLevel exported previous inner :=
      fun inner hinner => ih inner hinner fun base hbase =>
        h base (Node.lookupBases_subset hinner hbase)
    by_cases hschema : node.kind.isSchema = true
    · rw [statement_eq_schemaStatement hschema, statement_eq_schemaStatement hschema,
        schemaStatement_congr h]
    · obtain ⟨label, children⟩ := node
      have hscope : scopeBody find children = scopeBody find' children := by
        rw [scopeBody_eq, scopeBody_eq]
        cases hblock : Node.first? .body children with
        | none => simp only [Option.map_none]
        | some block =>
          have hstatements : ∀ pair ∈ (Node.withPrevious none block.children).filter
              (fun pair => pair.2.label.named),
              statement find false false pair.1 pair.2 =
                statement find' false false pair.1 pair.2 := by
            intro pair hpair
            have hinner := Node.mem_of_mem_withPrevious (List.mem_filter.1 hpair).1
            exact hbelow _ (Node.mem_descendants_trans
              (Node.mem_descendants_of_mem_children hinner)
              (Node.mem_descendants_of_child? hblock)) _ _ _
          simp only [Option.map_some, Option.getD_some, scopeStatements_eq_mapM]
          rw [Report.mapM_congr hstatements]
      rw [statement, statement]
      split <;> rename_i hkind
      · rfl
      · rfl
      · rfl
      · rfl
      · rfl
      · exact absurd (congrArg Kind.isSchema hkind) hschema
      · exact absurd (congrArg Kind.isSchema hkind) hschema
      · rfl
      · rw [hscope]
      · rw [hscope]
      · rw [exportedStatement?_eq, exportedStatement?_eq]
        cases hinner : Node.first? .declaration children with
        | none => simp only [Option.map_none]
        | some inner =>
          simp only [Option.map_some, Option.getD_some]
          exact hbelow inner (Node.mem_descendants_of_child? hinner) _ _ _
      · split
        · rename_i part hparts
          have hpart : part ∈ children.filter Node.isPart := hparts ▸ List.mem_cons_self
          rw [onlyPart_eq find exported hparts, onlyPart_eq find' exported hparts,
            hbelow part (Node.mem_descendants_of_mem_parts hpart)]
        · rfl
      · rfl

end Statements

end Schemata

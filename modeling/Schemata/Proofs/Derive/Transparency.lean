import Schemata.Proofs.Derive.Commented

/-!
# Comments are transparent

Further comments that document nothing change nothing of what is derived: neither the expression of
a type nor the declaration of a statement nor any event on the way. For types this is carried up
from the types that a type is made of, for statements along each body; a file is one more such pass,
with the registry as its state.
-/

namespace Schemata

theorem Report.mapM_eq_of_forall₂ {α β : Type} {related : α → α → Prop} {read : α → Report β}
    {xs ys : List α} (h : List.Forall₂ related xs ys)
    (hread : ∀ x ∈ xs, ∀ y, related x y → read y = read x) : ys.mapM read = xs.mapM read := by
  induction h with
  | nil => rfl
  | cons hxy _ ih =>
    rw [List.mapM_cons, List.mapM_cons, hread _ List.mem_cons_self _ hxy,
      ih fun x hx => hread x (List.mem_cons_of_mem _ hx)]

theorem Report.fault_bind {α β : Type} (cause : Fault) (f : α → Report β) :
    Report.fault cause >>= f = Report.fault cause := rfl

/-! ### Accesses -/

section Accesses

variable {find : String → Option Expr} {node node' : Node}

/-- The base and the key of an access keep their places, or both accesses lack one. -/
theorem Commented.baseAndKey (h : Commented node node') :
    (∃ base base' key key', node.baseAndKey = pure (base, key) ∧
      node'.baseAndKey = pure (base', key') ∧ Commented base base' ∧ Commented key key') ∨
    ∃ count, node.baseAndKey = Report.fault (.shortLookup count) ∧
      node'.baseAndKey = Report.fault (.shortLookup count) := by
  have hparts := h.parts
  unfold Node.baseAndKey
  generalize node.parts = parts, node'.parts = parts' at hparts ⊢
  cases hparts with
  | nil => exact Or.inr ⟨0, rfl, rfl⟩
  | cons hbase hrest =>
    cases hrest with
    | nil => exact Or.inr ⟨1, rfl, rfl⟩
    | cons hkey _ => exact Or.inl ⟨_, _, _, _, rfl, rfl, hbase, hkey⟩

theorem failedAccess_transparent (h : Commented node node') (message marker : String) :
    failedAccess node' message marker = failedAccess node message marker := by
  simp only [failedAccess, Node.line, h.kind_eq, h.label_eq]

theorem selectField_transparent (h : Commented node node') (expr : Expr) (key : String) :
    selectField node' expr key = selectField node expr key := by
  simp only [selectField, h.text_eq, failedAccess_transparent h]

theorem resolveShallow_transparent (h : Commented node node') :
    resolveShallow find node' = resolveShallow find node := by
  unfold resolveShallow
  rcases h.baseAndKey with ⟨base, base', key, key', hnode, hnode', hbase, hkey⟩ |
    ⟨count, hnode, hnode'⟩
  · simp only [hnode, hnode', pure_bind, hbase.text_eq, hkey.text_eq, failedAccess_transparent h,
      selectField_transparent h]
  · rw [hnode, hnode', Report.fault_bind, Report.fault_bind]

theorem resolveDeep_transparent (h : Commented node node') :
    resolveDeep find node' = resolveDeep find node := by
  unfold resolveDeep
  rcases h.baseAndKey with ⟨inner, inner', key, key', hnode, hnode', hinner, hkey⟩ |
    ⟨count, hnode, hnode'⟩
  · simp only [hnode, hnode', pure_bind, hkey.text_eq, resolveShallow_transparent hinner,
      selectField_transparent h]
  · rw [hnode, hnode', Report.fault_bind, Report.fault_bind]

theorem resolveAccess_transparent (h : Commented node node') :
    resolveAccess find node' = resolveAccess find node := by
  unfold resolveAccess
  rcases h.baseAndKey with ⟨base, base', key, key', hnode, hnode', hbase, -⟩ |
    ⟨count, hnode, hnode'⟩
  · simp only [hnode, hnode', pure_bind, hbase.kind_eq, resolveShallow_transparent h,
      resolveDeep_transparent h, failedAccess_transparent h]
    rcases hbase.baseAndKey with ⟨inner, inner', _, _, hinner, hinner', hsame, -⟩ |
      ⟨count, hinner, hinner'⟩
    · simp only [hinner, hinner', pure_bind, hsame.kind_eq]
    · rw [hinner, hinner']
  · rw [hnode, hnode', Report.fault_bind, Report.fault_bind]

end Accesses

/-! ### Types -/

/-- Further comments do not change the expression of a type. -/
def Transparent (find : String → Option Expr) (node : Node) : Prop :=
  ∀ node', Commented node node' → typeExpr find node' = typeExpr find node

section Types

variable {find : String → Option Expr} {node node' : Node}

section Readings

variable (h : Commented node node') (hbelow : ∀ inner ∈ node.descendants, Transparent find inner)

include h hbelow

theorem firstExpr_transparent :
    firstExpr find node'.children = firstExpr find node.children := by
  rw [firstExpr_eq, firstExpr_eq, ← Node.parts, ← Node.parts,
    map_eq_of_rel h.firstPart fun inner hinner =>
      hbelow inner (Node.mem_descendants_of_mem_parts (List.mem_of_head? hinner))]

theorem annotationExpr?_transparent :
    annotationExpr? find node'.children = annotationExpr? find node.children := by
  rw [annotationExpr?_eq, annotationExpr?_eq, ← Node.child?_eq, ← Node.child?_eq]
  exact map_eq_of_rel (h.child? .type) fun mark hmark _ hsame =>
    firstExpr_transparent hsame fun inner hinner =>
      hbelow inner (Node.descendants_subset (Node.mem_descendants_of_child? hmark) hinner)

theorem memberAnnotation?_transparent :
    (annotationExpr? find node'.children <|> looseAnnotationExpr? find node'.children) =
      (annotationExpr? find node.children <|> looseAnnotationExpr? find node.children) := by
  rw [memberAnnotation?_eq, memberAnnotation?_eq]
  exact map_eq_of_rel h.memberMark? fun mark hmark _ hsame =>
    firstExpr_transparent hsame fun inner hinner =>
      hbelow inner (Node.descendants_subset (Node.mem_descendants_of_memberMark? hmark) hinner)

theorem roleExpr_transparent (role : Role) :
    roleExpr find role node'.children = roleExpr find role node.children := by
  rw [roleExpr_eq, roleExpr_eq, roleExpr?_eq, roleExpr?_eq, ← Node.child?_eq, ← Node.child?_eq,
    map_eq_of_rel (h.child? role) fun inner hinner =>
      hbelow inner (Node.mem_descendants_of_child? hinner)]

theorem resultExpr?_transparent :
    (roleExpr? find .returnType node'.children <|> roleExpr? find .type node'.children <|>
        lastExpr? find node'.children) =
      (roleExpr? find .returnType node.children <|> roleExpr? find .type node.children <|>
        lastExpr? find node.children) := by
  rw [resultExpr?_eq, resultExpr?_eq]
  exact map_eq_of_rel h.resultType? fun inner hinner =>
    hbelow inner (Node.mem_descendants_of_resultType? hinner)

theorem argumentExprs_transparent :
    argumentExprs find node'.children = argumentExprs find node.children := by
  rw [argumentExprs_eq_mapM, argumentExprs_eq_mapM]
  exact Report.mapM_eq_of_forall₂ (h.childParts .typeArguments) fun inner hinner =>
    hbelow inner (Node.mem_descendants_of_map_parts hinner)

theorem parameterExprs_transparent :
    parameterExprs find node'.children = parameterExprs find node.children := by
  rw [parameterExprs_eq_mapM, parameterExprs_eq_mapM]
  refine Report.mapM_eq_of_forall₂ (h.childParts .parameters)
    fun parameter hparameter parameter' hsame => congrArg orAny ?_
  exact annotationExpr?_transparent hsame fun inner hinner => hbelow inner
    (Node.descendants_subset (Node.mem_descendants_of_map_parts hparameter) hinner)

theorem partExprs_transparent :
    partExprs find node'.children = partExprs find node.children := by
  rw [partExprs_eq_mapM, partExprs_eq_mapM]
  exact Report.mapM_eq_of_forall₂ h.parts fun inner hinner =>
    hbelow inner (Node.mem_descendants_of_mem_parts hinner)

theorem memberExprs_transparent (kind : Kind) :
    memberExprs find kind node'.children = memberExprs find kind node.children := by
  rw [memberExprs_eq_mapM, memberExprs_eq_mapM]
  exact Report.mapM_eq_of_forall₂ (h.members kind) fun inner hinner =>
    hbelow inner (Node.mem_nodesOf_of_mem_members _ hinner)

end Readings

/-! ### Fields -/

theorem fieldExprs_cons (find : String → Option Expr) (previous : Option Node) (node : Node)
    (rest : List Node) :
    fieldExprs find previous (node :: rest) =
      if node.isPart then do
        let field ← memberField find previous node
        return field :: (← fieldExprs find (some node) rest)
      else fieldExprs find (some node) rest := by
  rw [fieldExprs_eq_mapM, Node.withPrevious, List.filter_cons, fieldExprs_eq_mapM]
  split
  · rw [List.mapM_cons]
  · rfl

theorem undisturbed_fieldExprs (find : String → Option Expr) :
    Undisturbed (memberField find) (fun (_ : Unit) => fieldExprs find) where
  nil _ _ _ := by rw [fieldExprs, fieldExprs]
  keep _ previous previous' node node' rest rest' hlabel hread hrest := by
    have hpart : node'.isPart = node.isPart := by
      simp only [Node.isPart, Node.kind, hlabel]
    rw [fieldExprs_cons, fieldExprs_cons, hpart, hread, hrest ()]
  insert _ previous label rest hlabel := by
    have hpart : (Node.mk label []).isPart = false := by
      simp [Node.isPart_mk, hlabel.kind, Kind.isComment]
    rw [fieldExprs_cons, hpart, if_neg Bool.false_ne_true]

theorem alike_memberField (h : Commented node node')
    (hbelow : ∀ inner ∈ node.descendants, Transparent find inner) :
    Alike (memberField find) node node' where
  label_eq := h.label_eq
  read_eq previous previous' hdocs := by
    unfold memberField
    rw [h.kind_eq, h.label_eq]
    split <;> rename_i hkind
    · have hoptions := hdocs (by rw [eq_of_beq hkind]; rfl)
      rw [SaysSame] at hoptions
      rw [propertyField, propertyField, annotationExpr?_transparent h hbelow, hoptions, h.label_eq,
        h.nameText_eq, h.hasToken_eq, h.hasToken_eq]
    · rfl

theorem fieldExprs_transparent (h : Commented node node')
    (hbelow : ∀ inner ∈ node.descendants, Transparent find inner) :
    fieldExprs find none node'.children = fieldExprs find none node.children := by
  have hfields : Interspersed (Alike (memberField find)) none node.children node'.children :=
    h.children.imp_mem fun child hchild _ hsame => alike_memberField hsame fun inner hinner =>
      hbelow inner (Node.descendants_subset (Node.mem_descendants_of_mem_children hchild) hinner)
  exact hfields.pass_eq (undisturbed_fieldExprs find) ()

/-- The expression of a type is left as it is if those of all types below are. -/
theorem transparent_of_descendants
    (hbelow : ∀ inner ∈ node.descendants, Transparent find inner) : Transparent find node := by
  intro node' h
  have hfirst := firstExpr_transparent h hbelow
  have hmember := memberAnnotation?_transparent h hbelow
  have hname := h.nameText_eq
  have hparameters := parameterExprs_transparent h hbelow
  have hresult := resultExpr?_transparent h hbelow
  have hrole := roleExpr_transparent h hbelow
  have hmembers := memberExprs_transparent h hbelow
  have haccess : resolveAccess find node' = resolveAccess find node := resolveAccess_transparent h
  have harguments := argumentExprs_transparent h hbelow
  have hparts := partExprs_transparent h hbelow
  have hfields := fieldExprs_transparent h hbelow
  cases h with
  | @mk label children children' hchildren =>
    dsimp only [Node.children] at *
    rw [typeExpr, typeExpr]
    simp only [hfirst, hmember, hname, hparameters, hresult, hrole, hmembers, haccess, harguments,
      hparts, hfields]

theorem typeExpr_transparent (find : String → Option Expr) (node : Node) :
    Transparent find node := by
  induction node using Node.induct with
  | step node ih => exact transparent_of_descendants ih

end Types

/-! ### Declarations -/

section Declarations

variable {find : String → Option Expr} {node node' : Node} (h : Commented node node')

include h

theorem parameterNames_transparent : parameterNames node' = parameterNames node := by
  unfold parameterNames
  rcases rel_cases (h.child? .typeParameters) with ⟨hnone, hnone'⟩ | ⟨list, list', hl, hl', hlist⟩
  · rw [hnone, hnone']
  · have hparameters := (interspersed_of_forall₂ hlist.parts none).filter
      (p := fun label => label.kind == .typeParameter) fun label hlabel => by simp [hlabel.kind]
    simp only [hl, hl']
    exact Report.mapM_eq_of_forall₂ hparameters fun _ _ _ hsame => hsame.nameText_eq

theorem heritageExpr_transparent : heritageExpr find node' = heritageExpr find node := by
  unfold heritageExpr
  rw [h.kind_eq, h.nameText_eq, h.text_eq,
    argumentExprs_transparent h fun inner _ => typeExpr_transparent find inner]

theorem heritageClause_transparent : heritageClause find node' = heritageClause find node := by
  have hexprs : node'.parts.mapM (heritageExpr find) = node.parts.mapM (heritageExpr find) :=
    Report.mapM_eq_of_forall₂ h.parts fun _ _ _ hsame => heritageExpr_transparent hsame
  rw [heritageClause, heritageClause, hexprs]

theorem heritageExprs_transparent : heritageExprs find node' = heritageExprs find node := by
  unfold heritageExprs
  rw [h.kind_eq]
  split
  · rfl
  · have hclauses := h.children.filter (p := fun label => label.kind == .extendsClause)
      fun label hlabel => by simp [hlabel.kind]
    exact Report.mapM_eq_of_forall₂ hclauses fun _ _ _ hsame => heritageClause_transparent hsame

theorem interfaceFields_transparent : interfaceFields find node' = interfaceFields find node := by
  unfold interfaceFields
  rcases rel_cases (h.child? .body) with ⟨hnone, hnone'⟩ | ⟨body, body', hb, hb', hbody⟩
  · rw [hnone, hnone']
  · simp only [hb, hb']
    exact fieldExprs_transparent hbody fun inner _ => typeExpr_transparent find inner

theorem ownExpr_transparent : ownExpr find node' = ownExpr find node := by
  unfold ownExpr
  rw [h.kind_eq, interfaceFields_transparent h,
    roleExpr_transparent h fun inner _ => typeExpr_transparent find inner]

theorem schemaStatement_transparent {comment comment' : Option Node}
    (hcomment : docOptions comment' = docOptions comment) (topLevel exported : Bool) :
    schemaStatement find topLevel exported comment' node' =
      schemaStatement find topLevel exported comment node := by
  have hcomposed : node'.composed = node.composed := by
    funext name heritage own
    simp only [Node.composed, Node.tied, h.isSelfReferential_eq]
  rw [schemaStatement, schemaStatement, h.nameText_eq, parameterNames_transparent h,
    heritageExprs_transparent h, ownExpr_transparent h, hcomment, h.label_eq, hcomposed]

theorem enumDeclaration_transparent (exported : Bool) :
    enumDeclaration exported node' = enumDeclaration exported node := by
  have htexts : ∀ {members members' : List Node}, List.Forall₂ Commented members members' →
      members'.map Node.text = members.map Node.text := by
    intro members members' hmembers
    induction hmembers with
    | nil => rfl
    | cons hsame _ ih => rw [List.map_cons, List.map_cons, hsame.text_eq, ih]
  rw [enumDeclaration, enumDeclaration, h.nameText_eq]
  simp only [htexts (h.childParts .body)]

end Declarations

/-! ### Statements -/

/-- What is derived from a statement, given the sibling before it. -/
def statementAfter (previous : Option Node) (node : Node) (find : String → Option Expr)
    (topLevel exported : Bool) : Report (Option Declaration) :=
  statement find topLevel exported previous node

theorem statement_of_isPlainComment {label : Label} (h : label.IsPlainComment)
    (previous : Option Node) (find : String → Option Expr) (topLevel exported : Bool) :
    statement find topLevel exported previous (.mk label []) = pure none := by
  rw [statement, h.kind]

theorem undisturbed_scopeStatements : Undisturbed statementAfter scopeStatements where
  nil find _ _ := by rw [scopeStatements, scopeStatements]
  keep find previous previous' node node' rest rest' hlabel hread hrest := by
    have hstatement : statement find false false previous' node' =
        statement find false false previous node := congr_fun₃ hread find false false
    rw [scopeStatements, scopeStatements, hlabel, hstatement, hrest]
  insert find previous label rest hlabel := by
    have hnamed : (Node.mk label []).label.named = true := hlabel.named
    rw [scopeStatements, if_pos hnamed, statement_of_isPlainComment hlabel, pure_bind]
    exact bind_pure _

theorem undisturbed_statements : Undisturbed statementAfter statements where
  nil registry _ _ := by rw [statements, statements]
  keep registry previous previous' node node' rest rest' hlabel hread hrest := by
    have hstatement : statement registry.get? true false previous' node' =
        statement registry.get? true false previous node :=
      congr_fun₃ hread registry.get? true false
    rw [statements, statements, hlabel, hstatement]
    simp only [hrest]
  insert registry previous label rest hlabel := by
    have hnamed : (Node.mk label []).label.named = true := hlabel.named
    rw [statements, if_pos hnamed, statement_of_isPlainComment hlabel, pure_bind]
    exact bind_pure _

section Statements

variable {node node' : Node} (find : String → Option Expr) (h : Commented node node')
  (hbelow : ∀ inner ∈ node.descendants, ∀ inner', Commented inner inner' →
    Alike statementAfter inner inner')

include h hbelow

theorem scopeBody_transparent :
    scopeBody find node'.children = scopeBody find node.children := by
  rw [scopeBody_eq, scopeBody_eq, ← Node.child?_eq, ← Node.child?_eq]
  refine congrArg (Option.getD · (pure [])) (map_eq_of_rel (h.child? .body) ?_)
  intro block hblock block' hsame
  have hstatements : Interspersed (Alike statementAfter) none block.children block'.children :=
    hsame.children.imp_mem fun inner hinner => hbelow inner (Node.mem_descendants_trans
      (Node.mem_descendants_of_mem_children hinner) (Node.mem_descendants_of_child? hblock))
  exact hstatements.pass_eq undisturbed_scopeStatements find

theorem exportedStatement?_transparent {previous previous' : Option Node}
    (hdocs : SaysSame previous previous') (topLevel : Bool) :
    exportedStatement? find topLevel previous' node'.children =
      exportedStatement? find topLevel previous node.children := by
  rw [exportedStatement?_eq, exportedStatement?_eq, ← Node.child?_eq, ← Node.child?_eq]
  rcases rel_cases (h.child? .declaration) with ⟨hnone, hnone'⟩ | ⟨inner, inner', hi, hi', hsame⟩
  · rw [hnone, hnone']
    rfl
  · -- what is said of the export is said of the declaration inside
    have hread := (hbelow inner (Node.mem_descendants_of_child? hi) inner' hsame).read_eq previous
      previous' fun _ => hdocs
    rw [hi, hi']
    exact congrArg some (congr_fun₃ hread find topLevel true)

theorem expressionStatement_transparent (hkind : node.kind = .expressionStatement)
    (topLevel exported : Bool) (previous previous' : Option Node) :
    statement find topLevel exported previous' node' =
      statement find topLevel exported previous node := by
  obtain ⟨parts, parts', hparts, hparts', hsame⟩ :
      ∃ parts parts', node.children.filter Node.isPart = parts ∧
        node'.children.filter Node.isPart = parts' ∧ List.Forall₂ Commented parts parts' :=
    ⟨_, _, rfl, rfl, h.parts⟩
  cases h with
  | @mk label children children' hchildren =>
    rw [statement, statement, show label.kind = .expressionStatement from hkind]
    dsimp only [Node.children] at hparts hparts' ⊢
    cases hsame with
    | nil => rw [hparts, hparts']
    | cons hpart hrest =>
      cases hrest with
      | nil =>
        simp only [hparts, hparts', hpart.kind_eq]
        split
        · have hmem : _ ∈ (Node.mk label children).parts := hparts ▸ List.mem_cons_self
          have hread := (hbelow _ (Node.mem_descendants_of_mem_parts hmem) _ hpart).read_eq none
            none fun _ => rfl
          rw [onlyPart_eq find exported hparts, onlyPart_eq find exported hparts']
          exact congr_fun₃ hread find false exported
        · rfl
      | cons _ _ => simp only [hparts, hparts']

end Statements

theorem alike_statementAfter {node node' : Node} (h : Commented node node') :
    Alike statementAfter node node' := by
  induction node using Node.induct generalizing node' with
  | step node ih =>
    have hbelow : ∀ inner ∈ node.descendants, ∀ inner', Commented inner inner' →
        Alike statementAfter inner inner' := fun inner hinner _ hsame => ih inner hinner hsame
    refine ⟨h.label_eq, fun previous previous' hdocs => ?_⟩
    funext find topLevel exported
    rw [statementAfter, statementAfter]
    by_cases hschema : node.kind.isSchema = true
    · have hsame : SaysSame previous previous' := by
        refine hdocs ?_
        rcases Kind.eq_of_isSchema hschema with hkind | hkind <;> rw [hkind] <;> rfl
      rw [statement_eq_schemaStatement hschema,
        statement_eq_schemaStatement (h.kind_eq.symm ▸ hschema),
        schemaStatement_transparent h hsame]
    · by_cases hexpression : node.kind = .expressionStatement
      · exact expressionStatement_transparent find h hbelow hexpression topLevel exported previous
          previous'
      · have henum := enumDeclaration_transparent h exported
        have hname := h.nameText_eq
        have hscope := scopeBody_transparent find h hbelow
        have hexported : node.kind = .exportStatement → _ := fun hkind =>
          exportedStatement?_transparent find h hbelow (hdocs (by rw [hkind]; rfl)) topLevel
        cases h with
        | @mk label children children' hchildren =>
          dsimp only [Node.children] at hname hscope hexported
          rw [statement, statement]
          split <;> rename_i hkind
          · rfl
          · rfl
          · rfl
          · rfl
          · rfl
          · exact absurd (congrArg Kind.isSchema hkind) hschema
          · exact absurd (congrArg Kind.isSchema hkind) hschema
          · rw [henum]
          · rw [hname, hscope]
          · rw [hname, hscope]
          · rw [hexported hkind]
          · exact absurd hkind hexpression
          · rfl

/-- **Comments are transparent.** Comments that document nothing can be put among the children of
any node of a file, except between a documentation comment and what it documents, and the same
report is derived: the declarations and the registry, or the fault, and all events on the way, which
are the diagnostics and the needs of the import header. -/
theorem deriveFile_eq_of_commented {root root' : Node} (h : Commented root root') :
    deriveFile root' = deriveFile root := by
  have hstatements : Interspersed (Alike statementAfter) none root.children root'.children :=
    h.children.imp_mem fun _ _ _ hsame => alike_statementAfter hsame
  exact hstatements.pass_eq undisturbed_statements .empty

/-- A documented alias of an array type; `notes` stand before its documentation, after its name,
inside the array type and after the alias. -/
def notedFile (notes : List Node) : Node :=
  .sample (.other "program") none "" (notes ++ [
    .sample .comment none "/** @minItems 1 */" [],
    .sample .typeAlias none "" (.sample .typeIdentifier (some .name) "A" [] :: notes ++ [
      .sample .arrayType (some .value) ""
        (notes ++ [.sample .predefinedType none "string" []])])] ++
    notes)

theorem deriveFile_notedFile :
    Commented (notedFile []) (notedFile [.sample .comment none "// @minItems 2" []]) ∧
    (deriveFile (notedFile [.sample .comment none "// @minItems 2" []])).result = .ok
      ⟨[.schema "A" false
          (.call "Array" [.constant "String"] [("minItems", .literal (.int 1))]) []],
        ⟨[("A", .call "Array" [.constant "String"] [("minItems", .literal (.int 1))])]⟩⟩ := by
  have hnote : ∀ {previous : Option Node} {nodes nodes' : List Node},
      documents previous nodes.head? = false → Interspersed Commented previous nodes nodes' →
      Interspersed Commented previous nodes (.sample .comment none "// @minItems 2" [] :: nodes') :=
    fun hplace hrest => .insert ⟨rfl, rfl, rfl, by decide⟩ hplace hrest
  have hcommented :
      Commented (notedFile []) (notedFile [.sample .comment none "// @minItems 2" []]) := by
    refine .mk (hnote rfl (.keep (.mk .nil) (.keep (.mk ?_) (hnote (by decide) .nil))))
    exact .keep (.mk .nil) (hnote rfl (.keep (.mk (hnote rfl (.keep (.mk .nil) .nil))) .nil))
  refine ⟨hcommented, ?_⟩
  rw [deriveFile_eq_of_commented hcommented]
  rfl

end Schemata

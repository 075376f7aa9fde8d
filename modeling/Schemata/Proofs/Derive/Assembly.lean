import Schemata.Proofs.Derive.SchemaParts
import Schemata.Proofs.Schema.Leaves

/-!
# Nothing but the parts

A type contributes to the type around it; the converse is shown here. Apart from what its parts
contribute, the expression of a type has no leaf of its own but passed-through text and, if the type
is a name, the reference to that name. Accesses are left out: they bring in what was registered.
-/

namespace Schemata

/-- Nothing is asked of the events of a report. -/
def anyEvents : Judgement where
  benign _ := True
  assured _ := True

theorem anyEvents_holds {α : Type} {good : α → Prop} {x : Report α} :
    anyEvents.holds good x ↔ ∀ a, x.result = .ok a → good a := by
  simp [Judgement.holds, anyEvents]

section Types

variable {find : String → Option Expr} {good : Expr → Prop}

theorem holds_orAny (hany : good anyType) {found : Option (Report Expr)}
    (h : ∀ report ∈ found, anyEvents.holds good report) : anyEvents.holds good (orAny found) := by
  cases found with
  | none => exact anyEvents.ofPure hany
  | some report => exact h report rfl

theorem holds_firstExpr {node : Node}
    (h : ∀ inner ∈ node.parts.head?, anyEvents.holds good (typeExpr find inner)) :
    anyEvents.holds good (firstExpr find node.children) := by
  rw [firstExpr_eq, ← Node.parts]
  cases hhead : node.parts.head? with
  | none => exact anyEvents.ofFault _
  | some inner => exact h inner hhead

theorem holds_marked (hany : good anyType) {mark? : Option Node}
    (h : ∀ inner ∈ mark?.bind fun mark => mark.parts.head?,
      anyEvents.holds good (typeExpr find inner)) :
    anyEvents.holds good (orAny (mark?.map fun mark => firstExpr find mark.children)) := by
  refine holds_orAny hany fun report hreport => ?_
  obtain ⟨mark, rfl, rfl⟩ := Option.map_eq_some_iff.1 hreport
  exact holds_firstExpr h

theorem holds_annotated (hany : good anyType) {node : Node}
    (h : ∀ inner ∈ node.annotatedType?, anyEvents.holds good (typeExpr find inner)) :
    anyEvents.holds good (orAny (annotationExpr? find node.children)) := by
  rw [annotationExpr?_eq, ← Node.child?_eq]
  exact holds_marked hany h

theorem holds_roleExpr (hany : good anyType) {role : Role} {node : Node}
    (h : ∀ inner ∈ node.child? role, anyEvents.holds good (typeExpr find inner)) :
    anyEvents.holds good (roleExpr find role node.children) := by
  rw [roleExpr_eq, roleExpr?_eq, ← Node.child?_eq]
  refine holds_orAny hany fun report hreport => ?_
  obtain ⟨inner, hinner, rfl⟩ := Option.map_eq_some_iff.1 hreport
  exact h inner hinner

theorem holds_parameterExprs (hany : good anyType) {node : Node}
    (h : ∀ inner ∈ node.typeParameterList.filterMap Node.annotatedType?,
      anyEvents.holds good (typeExpr find inner)) :
    anyEvents.holds (fun exprs => ∀ expr ∈ exprs, good expr)
      (parameterExprs find node.children) := by
  rw [parameterExprs_eq_mapM]
  refine anyEvents.holds_mapM _ fun parameter hparameter => ?_
  exact holds_annotated hany fun inner hinner =>
    h inner (List.mem_filterMap.2 ⟨parameter, hparameter, hinner⟩)

end Types

section Leaves

variable {find : String → Option Expr} {holds : Expr → Prop}
  (leafwise : Expr.Leafwise holds) (hraw : ∀ text, holds (.raw text))

include leafwise

theorem everywhere_constant (name : String) : (Expr.constant name).Everywhere holds :=
  leafwise.everywhere_call.2 (by simp)

theorem everywhere_wrap (name : String) {expr : Expr} (h : expr.Everywhere holds) :
    (Expr.construct name [expr]).Everywhere holds :=
  leafwise.everywhere_call.2 (List.forall_mem_singleton.2 h)

theorem everywhere_wrapArray (name : String) {items : List Expr}
    (h : ∀ item ∈ items, item.Everywhere holds) :
    (Expr.construct name [.array items]).Everywhere holds :=
  everywhere_wrap leafwise name (leafwise.everywhere_array.2 h)

theorem everywhere_withOptions {label : Label} {options : Options} {expr : Expr}
    (h : expr.Everywhere holds) :
    anyEvents.holds (Expr.Everywhere holds) (withOptions label options expr) := by
  rw [anyEvents_holds]
  intro result hresult
  unfold withOptions at hresult
  split at hresult
  · cases hresult
    exact h
  · split at hresult
    · rename_i attached hattach
      cases hresult
      exact (leafwise.everywhere_attach hattach).2 h
    · cases hresult
      exact h

theorem everywhere_withModifiers {expr : Expr} (h : expr.Everywhere holds)
    (readonly optional : Bool) : (expr.withModifiers readonly optional).Everywhere holds := by
  cases readonly <;> cases optional
  · exact h
  · exact everywhere_wrap leafwise "Optional" h
  · exact everywhere_wrap leafwise "Readonly" h
  · exact everywhere_wrap leafwise "ReadonlyOptional" h

include hraw

theorem everywhere_fieldExprs {node : Node}
    (h : ∀ inner ∈ node.properties.filterMap Node.annotatedType?,
      anyEvents.holds (Expr.Everywhere holds) (typeExpr find inner)) :
    anyEvents.holds (fun fields => ∀ field ∈ fields, field.2.Everywhere holds)
      (fieldExprs find none node.children) := by
  rw [fieldExprs_eq_mapM]
  refine anyEvents.holds_mapM _ fun pair hpair => ?_
  obtain ⟨hmem, hpart⟩ := List.mem_filter.1 hpair
  unfold memberField propertyField
  split
  · rename_i hkind
    have hproperty : pair.2 ∈ node.properties :=
      List.mem_filter.2 ⟨List.mem_filter.2 ⟨Node.mem_of_mem_withPrevious hmem, hpart⟩, hkind⟩
    refine anyEvents.ofBind (holds_annotated (everywhere_constant leafwise "Any")
      fun inner hinner => h inner (List.mem_filterMap.2 ⟨pair.2, hproperty, hinner⟩))
      fun expr hexpr => ?_
    refine anyEvents.ofBind (anyEvents_holds.2 fun _ _ => trivial) fun options _ => ?_
    refine anyEvents.ofBind (everywhere_withOptions leafwise hexpr) fun result hresult => ?_
    refine anyEvents.ofBind (anyEvents.holds_require _ _) fun name _ => ?_
    exact anyEvents.ofPure (everywhere_withModifiers leafwise hresult _ _)
  · refine anyEvents.ofBind (anyEvents_holds.2 fun expr hexpr => ?_) fun expr hexpr =>
      anyEvents.ofPure hexpr
    cases hexpr
    exact Expr.everywhere_raw.2 (hraw _)

theorem everywhere_keywordType (label : Label) :
    anyEvents.holds (Expr.Everywhere holds) (keywordType label) := by
  rw [anyEvents_holds]
  intro expr hexpr
  unfold keywordType at hexpr
  split at hexpr
  · cases hexpr
    exact everywhere_constant leafwise _
  · cases hexpr
    exact Expr.everywhere_raw.2 (hraw _)

theorem everywhere_namedType {name : String} (hself : holds (.ref name)) :
    (namedType name).Everywhere holds := by
  unfold namedType
  split
  · exact everywhere_constant leafwise _
  · split
    · exact everywhere_constant leafwise _
    · split
      · exact Expr.everywhere_raw.2 (hraw _)
      · exact Expr.everywhere_ref.2 hself

theorem everywhere_literalType (text : String) : (literalType text).Everywhere holds := by
  unfold literalType
  split
  · exact everywhere_constant leafwise _
  · split
    · exact everywhere_constant leafwise _
    · exact everywhere_wrap leafwise _ (Expr.everywhere_raw.2 (hraw text))

omit hraw in
theorem everywhere_generic {node : Node}
    (h : ∀ inner ∈ (if (node.child? .name).map Node.text = some "Uint8Array" then []
      else node.typeArguments), anyEvents.holds (Expr.Everywhere holds) (typeExpr find inner)) :
    anyEvents.holds (Expr.Everywhere holds) (do
      let name ← nameText node.children
      if name == "Uint8Array" then return .constant "Uint8Array"
      else return genericType name (← argumentExprs find node.children)) := by
  rw [anyEvents_holds]
  intro expr hexpr
  obtain ⟨name, hname, hexpr⟩ := Report.result_bind_eq_ok.1 hexpr
  rw [nameText_eq_ok node hname] at h
  by_cases hbytes : name = "Uint8Array"
  · simp only [hbytes, beq_self_eq_true, if_true] at hexpr
    cases hexpr
    exact everywhere_constant leafwise _
  · rw [if_neg (by simpa using hbytes)] at h
    rw [if_neg (by simpa using hbytes), argumentExprs_eq_mapM] at hexpr
    obtain ⟨args, hargs, hexpr⟩ := Report.result_bind_eq_ok.1 hexpr
    cases hexpr
    have hall := anyEvents_holds.1 (anyEvents.holds_mapM _ h) args hargs
    unfold genericType
    split
    · exact leafwise.everywhere_call.2 hall
    · exact leafwise.everywhere_apply.2 hall

omit hraw in
/-- Function and constructor types. -/
theorem everywhere_signature (name : String) {node : Node}
    (h : ∀ inner ∈ node.typeParameterList.filterMap Node.annotatedType? ++ node.resultType?.toList,
      anyEvents.holds (Expr.Everywhere holds) (typeExpr find inner)) :
    anyEvents.holds (Expr.Everywhere holds) (do
      let parameters ← parameterExprs find node.children
      return .construct name [.array parameters, ← orAny
        (roleExpr? find .returnType node.children <|> roleExpr? find .type node.children <|>
          lastExpr? find node.children)]) := by
  rw [List.forall_mem_append] at h
  have hany := everywhere_constant leafwise "Any"
  refine anyEvents.ofBind (holds_parameterExprs hany h.1) fun parameters hparameters => ?_
  have hresult : anyEvents.holds (Expr.Everywhere holds)
      (orAny (node.resultType?.map (typeExpr find))) := by
    refine holds_orAny hany fun report hreport => ?_
    obtain ⟨inner, hinner, rfl⟩ := Option.map_eq_some_iff.1 hreport
    exact h.2 inner (Option.mem_toList.2 hinner)
  rw [resultExpr?_eq]
  refine anyEvents.ofBind hresult fun result hresult => anyEvents.ofPure ?_
  exact leafwise.everywhere_call.2 (List.forall_mem_cons.2
    ⟨leafwise.everywhere_array.2 hparameters, List.forall_mem_singleton.2 hresult⟩)

/-- **Nothing but the parts.** What holds of passed-through text, of the type's own name and
everywhere in the expressions of its parts holds everywhere in the expression of a type. -/
theorem everywhere_typeExpr {node : Node} (hkind : node.kind ≠ .lookupType)
    (hself : node.kind ∈ [.typeIdentifier, .nestedTypeIdentifier] → holds (.ref node.text))
    (h : ∀ inner ∈ node.typeParts, anyEvents.holds (Expr.Everywhere holds) (typeExpr find inner)) :
    anyEvents.holds (Expr.Everywhere holds) (typeExpr find node) := by
  obtain ⟨label, children⟩ := node
  have hany := everywhere_constant leafwise "Any"
  have hfirst : (∀ inner ∈ (Node.mk label children).parts.head?.toList,
      anyEvents.holds (Expr.Everywhere holds) (typeExpr find inner)) →
      anyEvents.holds (Expr.Everywhere holds) (firstExpr find children) :=
    fun hparts => holds_firstExpr fun inner hinner => hparts inner (Option.mem_toList.2 hinner)
  have hmember : (∀ inner ∈ (Node.mk label children).memberType?.toList,
      anyEvents.holds (Expr.Everywhere holds) (typeExpr find inner)) →
      anyEvents.holds (Expr.Everywhere holds)
        (orAny (annotationExpr? find children <|> looseAnnotationExpr? find children)) := by
    intro hparts
    have heq := memberAnnotation?_eq find (.mk label children)
    rw [Node.children] at heq
    rw [heq]
    exact holds_marked hany fun inner hinner => hparts inner (Option.mem_toList.2 hinner)
  have hwrap : ∀ (name : String) {x : Report Expr}, anyEvents.holds (Expr.Everywhere holds) x →
      anyEvents.holds (Expr.Everywhere holds) (x >>= fun expr => pure (.construct name [expr])) :=
    fun name _ hx => anyEvents.ofBind hx fun _ hexpr =>
      anyEvents.ofPure (everywhere_wrap leafwise name hexpr)
  have hlist : ∀ (name : String) (nodes : List Node),
      (∀ inner ∈ nodes, anyEvents.holds (Expr.Everywhere holds) (typeExpr find inner)) →
      anyEvents.holds (Expr.Everywhere holds)
        (nodes.mapM (typeExpr find) >>= fun exprs => pure (.construct name [.array exprs])) :=
    fun name nodes hnodes => anyEvents.ofBind (anyEvents.holds_mapM nodes hnodes) fun _ hexprs =>
      anyEvents.ofPure (everywhere_wrapArray leafwise name hexprs)
  rw [typeExpr]
  split <;> rename_i hcase <;> simp only [Node.typeParts, Node.kind, Node.label, hcase] at h
  · exact everywhere_keywordType leafwise hraw label
  · exact anyEvents.ofPure (everywhere_namedType leafwise hraw
      (hself (by simp [Node.kind, Node.label, hcase])))
  · exact anyEvents.ofPure (Expr.everywhere_ref.2
      (hself (by simp [Node.kind, Node.label, hcase])))
  · exact anyEvents.ofPure (everywhere_literalType leafwise hraw label.text)
  · exact anyEvents.ofPure (everywhere_constant leafwise "Rest")
  · exact absurd hcase hkind
  · exact everywhere_generic leafwise h
  · exact hwrap "Array" (hfirst h)
  · exact hwrap "KeyOf" (hfirst h)
  · exact hwrap "Readonly" (hfirst h)
  · exact hwrap "Optional" (hfirst h)
  · exact hfirst h
  · rw [partExprs_eq_mapM]
    exact hlist "Tuple" _ h
  · rw [memberExprs_eq_mapM]
    exact hlist "Union" _ h
  · rw [memberExprs_eq_mapM]
    exact hlist "Intersect" _ h
  · exact anyEvents.ofBind (everywhere_fieldExprs leafwise hraw h) fun fields hfields =>
      anyEvents.ofPure (everywhere_wrap leafwise "Object" (leafwise.everywhere_object.2 hfields))
  · exact everywhere_signature leafwise "Function" h
  · exact everywhere_signature leafwise "Constructor" h
  · have hrole : ∀ role ∈ [Role.left, .right, .consequence, .alternative],
        anyEvents.holds (Expr.Everywhere holds) (roleExpr find role children) :=
      fun role hmem => holds_roleExpr hany fun inner hinner =>
        h inner (List.mem_filterMap.2 ⟨role, hmem, hinner⟩)
    refine anyEvents.ofBind (hrole .left (by simp)) fun left hleft => ?_
    refine anyEvents.ofBind (hrole .right (by simp)) fun right hright => ?_
    refine anyEvents.ofBind (hrole .consequence (by simp)) fun consequence hconsequence => ?_
    refine anyEvents.ofBind (hrole .alternative (by simp)) fun alternative halternative => ?_
    exact anyEvents.ofPure (leafwise.everywhere_call.2
      (by simp [hleft, hright, hconsequence, halternative]))
  · exact hmember h
  · exact hwrap "Optional" (hmember h)
  · exact anyEvents_holds.2 fun expr hexpr => by
      cases hexpr
      exact Expr.everywhere_raw.2 (hraw _)

theorem everywhere_ownExpr {node : Node}
    (h : ∀ inner ∈ node.ownTypes, anyEvents.holds (Expr.Everywhere holds) (typeExpr find inner)) :
    anyEvents.holds (Expr.Everywhere holds) (ownExpr find node) := by
  rw [Node.ownTypes] at h
  unfold ownExpr
  split <;> rename_i hkind
  · rw [if_pos hkind] at h
    exact holds_roleExpr (everywhere_constant leafwise "Any") fun inner hinner =>
      h inner (Option.mem_toList.2 hinner)
  · rw [if_neg hkind] at h
    have hfields : anyEvents.holds (fun fields => ∀ field ∈ fields, field.2.Everywhere holds)
        (interfaceFields find node) := by
      unfold interfaceFields
      cases hbody : node.child? .body with
      | none => exact anyEvents.ofPure (by simp)
      | some body =>
        rw [hbody] at h
        exact everywhere_fieldExprs leafwise hraw h
    exact anyEvents.ofBind hfields fun fields hall =>
      anyEvents.ofPure (everywhere_wrap leafwise "Object" (leafwise.everywhere_object.2 hall))

end Leaves

/-! ### References -/

/-- If it is a reference, then to one of the names. -/
def Expr.RefersIn (names : String → Prop) (expr : Expr) : Prop :=
  ∀ name, expr = .ref name → names name

theorem Expr.leafwise_refersIn (names : String → Prop) : Leafwise (RefersIn names) where
  call _ _ _ := by simp [RefersIn]
  apply _ _ := by simp [RefersIn]
  array _ := by simp [RefersIn]
  object _ := by simp [RefersIn]
  recursive _ _ := by simp [RefersIn]

theorem Expr.Everywhere.refers_mono {names more : String → Prop} {expr : Expr}
    (h : expr.Everywhere (RefersIn names)) (hmore : ∀ name, names name → more name) :
    expr.Everywhere (RefersIn more) :=
  fun inner hinner name hname => hmore name (h inner hinner name hname)

/-- The names that a type is made of. -/
def Node.Names (node : Node) (name : String) : Prop :=
  ∃ inner, TypeWithin node inner ∧ inner.kind ∈ [.typeIdentifier, .nestedTypeIdentifier] ∧
    inner.text = name

/-- References come from the names that a type is made of, as long as no access is inside. -/
theorem refersIn_typeExpr (find : String → Option Expr) {node : Node}
    (haccess : ∀ inner ∈ node.nodes, inner.kind ≠ .lookupType) :
    anyEvents.holds (Expr.Everywhere (Expr.RefersIn node.Names)) (typeExpr find node) := by
  induction node using Node.induct with
  | step node ih =>
    refine everywhere_typeExpr (Expr.leafwise_refersIn _) (by simp [Expr.RefersIn])
      (haccess node (Node.self_mem_nodes node)) ?_ fun part hpart => ?_
    · rintro hkind _ ⟨⟩
      exact ⟨node, .refl, hkind, rfl⟩
    · have hbelow := Node.mem_descendants_of_mem_typeParts hpart
      have hnodes := Node.nodes_subset_nodes node (Node.mem_nodes_iff.2 (Or.inr hbelow))
      have hrefers := ih part hbelow fun inner hinner => haccess inner (hnodes hinner)
      rw [anyEvents_holds] at hrefers ⊢
      refine fun expr hexpr => (hrefers expr hexpr).refers_mono ?_
      rintro name ⟨inner, hwithin, hinner⟩
      exact ⟨inner, .head hpart hwithin, hinner⟩

theorem refersIn_ownExpr (find : String → Option Expr) {node : Node}
    (haccess : ∀ origin ∈ node.ownTypes, ∀ inner ∈ origin.nodes, inner.kind ≠ .lookupType) :
    anyEvents.holds (Expr.Everywhere (Expr.RefersIn fun name => ∃ origin ∈ node.ownTypes,
      origin.Names name)) (ownExpr find node) := by
  refine everywhere_ownExpr (Expr.leafwise_refersIn _) (by simp [Expr.RefersIn])
    fun origin horigin => ?_
  have hrefers := refersIn_typeExpr find (haccess origin horigin)
  rw [anyEvents_holds] at hrefers ⊢
  exact fun expr hexpr => (hrefers expr hexpr).refers_mono fun name hname =>
    ⟨origin, horigin, hname⟩

end Schemata

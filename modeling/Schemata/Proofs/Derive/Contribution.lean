import Mathlib.Logic.Relation
import Schemata.Proofs.Derive.Registration
import Schemata.Proofs.Derive.Traversal
import Schemata.Proofs.Schema.Nesting

/-!
# What a part contributes to the whole

Whenever a type has an expression, the types that it is made of have one too, and these expressions
are worked into it; whatever was reported about a part was reported about the whole. The same holds
of statements and the declarations inside them, and so, step by step, of everything in a file that
is derived at all.

Expressions are not simply copied into larger ones: the options of a documented property or
declaration are added on the way. What an expression is worked into therefore need not contain it
as it was, only as it became by added options.
-/

namespace Schemata

namespace Report

variable {α β γ : Type} {x : Report α} {y : Report β}

/-- One report is made as part of another: whenever the whole has a value the part has a related
one, and the events of the part are among those of the whole. -/
def Contributes (part : Report α) (related : α → β → Prop) (whole : Report β) : Prop :=
  ∀ b, whole.result = .ok b →
    ∃ a, part.result = .ok a ∧ part.events ⊆ whole.events ∧ related a b

theorem contributes_self {related : α → α → Prop} (h : ∀ a, related a a) :
    x.Contributes related x :=
  fun a ha => ⟨a, ha, List.Subset.refl _, h a⟩

theorem contributes_eq : x.Contributes Eq x :=
  contributes_self fun _ => rfl

namespace Contributes

theorem trans {z : Report γ} {first : α → β → Prop} {second : β → γ → Prop} {both : α → γ → Prop}
    (hxy : x.Contributes first y) (hyz : y.Contributes second z)
    (hboth : ∀ a b c, first a b → second b c → both a c) : x.Contributes both z := by
  intro c hc
  obtain ⟨b, hb, hevents, hsecond⟩ := hyz c hc
  obtain ⟨a, ha, hevents', hfirst⟩ := hxy b hb
  exact ⟨a, ha, List.Subset.trans hevents' hevents, hboth a b c hfirst hsecond⟩

/-- A part of the first of two reports is a part of both. -/
theorem bind {f : β → Report γ} {related : α → β → Prop} {next : α → γ → Prop}
    (h : x.Contributes related y)
    (hnext : ∀ a b c, related a b → (f b).result = .ok c → next a c) :
    x.Contributes next (y >>= f) := by
  intro c hc
  obtain ⟨b, hb, hc⟩ := result_bind_eq_ok.1 hc
  obtain ⟨a, ha, hevents, hrelated⟩ := h b hb
  exact ⟨a, ha, List.Subset.trans hevents (events_subset_bind y f), hnext a b c hrelated hc⟩

/-- So is a part of the second. -/
theorem after {f : β → Report γ} {related : α → γ → Prop}
    (h : ∀ b, y.result = .ok b → x.Contributes related (f b)) :
    x.Contributes related (y >>= f) := by
  intro c hc
  obtain ⟨b, hb, hc⟩ := result_bind_eq_ok.1 hc
  obtain ⟨a, ha, hevents, hrelated⟩ := h b hb c hc
  refine ⟨a, ha, ?_, hrelated⟩
  rw [events_bind_of_ok hb]
  exact fun event hevent => List.mem_append_right _ (hevents hevent)

theorem map {f : β → γ} {related : α → β → Prop} {next : α → γ → Prop}
    (h : x.Contributes related y) (hnext : ∀ a b, related a b → next a (f b)) :
    x.Contributes next (y >>= fun b => pure (f b)) := by
  refine h.bind fun a b c hrelated hc => ?_
  cases hc
  exact hnext a b hrelated

end Contributes

theorem contributes_mapM {f : α → Report β} {a : α} {xs : List α} (ha : a ∈ xs) :
    (f a).Contributes (fun b bs => b ∈ bs) (xs.mapM f) := by
  induction xs with
  | nil => cases ha
  | cons other rest ih =>
    rw [List.mapM_cons]
    rcases List.mem_cons.1 ha with rfl | ha
    · refine contributes_eq.bind ?_
      rintro b _ bs rfl hbs
      obtain ⟨tail, -, hbs⟩ := result_bind_eq_ok.1 hbs
      cases hbs
      exact List.mem_cons_self
    · refine Contributes.after fun b _ => (ih ha).bind fun c cs ds hc hds => ?_
      cases hds
      exact List.mem_cons_of_mem _ hc

end Report

/-! ### Expressions worked into others -/

/-- An expression becomes a part of another one: as an argument, an item or a field, with options
attached on the way. No fixed point is put around it. -/
inductive Expr.WorkedInto (part : Expr) : Expr → Prop where
  | self : WorkedInto part part
  | construct (name : String) {args : List Expr} {arg : Expr} (harg : arg ∈ args)
      (h : WorkedInto part arg) : WorkedInto part (.construct name args)
  | apply (callee : String) {args : List Expr} {arg : Expr} (harg : arg ∈ args)
      (h : WorkedInto part arg) : WorkedInto part (.apply callee args)
  | array {items : List Expr} {item : Expr} (hitem : item ∈ items) (h : WorkedInto part item) :
      WorkedInto part (.array items)
  | object {fields : List (String × Expr)} {field : String × Expr} (hfield : field ∈ fields)
      (h : WorkedInto part field.2) : WorkedInto part (.object fields)
  | attach {options : Options} {expr result : Expr} (hattach : expr.attach options = some result)
      (h : WorkedInto part expr) : WorkedInto part result

namespace Expr.WorkedInto

variable {part middle whole : Expr}

theorem trans (hpart : part.WorkedInto middle) (hmiddle : middle.WorkedInto whole) :
    part.WorkedInto whole := by
  induction hmiddle with
  | self => exact hpart
  | construct name harg _ ih => exact construct name harg ih
  | apply callee harg _ ih => exact apply callee harg ih
  | array hitem _ ih => exact array hitem ih
  | object hfield _ ih => exact object hfield ih
  | attach hattach _ ih => exact attach hattach ih

theorem wrap (name : String) (h : part.WorkedInto whole) :
    part.WorkedInto (.construct name [whole]) :=
  construct name List.mem_cons_self h

theorem wrapArray (name : String) {items : List Expr} {item : Expr} (hitem : item ∈ items)
    (h : part.WorkedInto item) : part.WorkedInto (.construct name [.array items]) :=
  wrap name (array hitem h)

theorem objectOf {fields : List (String × Expr)}
    (h : ∃ field ∈ fields, part.WorkedInto field.2) :
    part.WorkedInto (.construct "Object" [.object fields]) := by
  obtain ⟨field, hfield, hworked⟩ := h
  exact wrap "Object" (object hfield hworked)

theorem withModifiers (h : part.WorkedInto whole) (readonly optional : Bool) :
    part.WorkedInto (whole.withModifiers readonly optional) := by
  cases readonly <;> cases optional
  · exact h
  · exact wrap "Optional" h
  · exact wrap "Readonly" h
  · exact wrap "ReadonlyOptional" h

theorem genericType (name : String) {args : List Expr} {arg : Expr} (harg : arg ∈ args)
    (h : part.WorkedInto arg) : part.WorkedInto (genericType name args) := by
  unfold Schemata.genericType
  split
  · exact construct name harg h
  · exact apply name harg h

theorem withOptions {label : Label} {options : Options} {expr result : Expr}
    (hresult : (withOptions label options expr).result = .ok result)
    (h : part.WorkedInto expr) : part.WorkedInto result := by
  unfold Schemata.withOptions at hresult
  split at hresult
  · cases hresult
    exact h
  · split at hresult
    · rename_i attached hattach
      cases hresult
      exact attach hattach h
    · cases hresult
      exact h

end Expr.WorkedInto

/-! ### Types -/

section Types

variable {find : String → Option Expr}

theorem firstExpr_of_head? {node inner : Node} (h : node.parts.head? = some inner) :
    firstExpr find node.children = typeExpr find inner := by
  rw [firstExpr_eq, ← Node.parts, h]
  rfl

theorem roleExpr_of_child? {role : Role} {node inner : Node} (h : node.child? role = some inner) :
    roleExpr find role node.children = typeExpr find inner := by
  rw [roleExpr_eq, roleExpr?_eq, ← Node.child?_eq, h]
  rfl

theorem orAny_of_mark {mark? : Option Node} {inner : Node}
    (h : mark?.bind (fun mark => mark.parts.head?) = some inner) :
    orAny (mark?.map fun mark => firstExpr find mark.children) = typeExpr find inner := by
  obtain ⟨mark, rfl, hhead⟩ := Option.bind_eq_some_iff.1 h
  exact firstExpr_of_head? hhead

theorem orAny_of_annotatedType? {node inner : Node} (h : node.annotatedType? = some inner) :
    orAny (annotationExpr? find node.children) = typeExpr find inner := by
  rw [annotationExpr?_eq, ← Node.child?_eq]
  exact orAny_of_mark h

theorem orAny_of_memberType? {node inner : Node} (h : node.memberType? = some inner) :
    orAny (annotationExpr? find node.children <|> looseAnnotationExpr? find node.children) =
      typeExpr find inner := by
  rw [memberAnnotation?_eq]
  exact orAny_of_mark h

theorem orAny_of_resultType? {node inner : Node} (h : node.resultType? = some inner) :
    orAny (roleExpr? find .returnType node.children <|> roleExpr? find .type node.children <|>
      lastExpr? find node.children) = typeExpr find inner := by
  rw [resultExpr?_eq, h]
  rfl

theorem contributes_argumentExprs {node inner : Node} (h : inner ∈ node.typeArguments) :
    (typeExpr find inner).Contributes (fun expr exprs => expr ∈ exprs)
      (argumentExprs find node.children) := by
  rw [argumentExprs_eq_mapM]
  exact Report.contributes_mapM h

theorem contributes_parameterExprs {node inner : Node}
    (h : inner ∈ node.typeParameterList.filterMap Node.annotatedType?) :
    (typeExpr find inner).Contributes (fun expr exprs => expr ∈ exprs)
      (parameterExprs find node.children) := by
  obtain ⟨parameter, hparameter, hinner⟩ := List.mem_filterMap.1 h
  rw [parameterExprs_eq_mapM, ← orAny_of_annotatedType? hinner]
  exact Report.contributes_mapM (f := fun node => orAny (annotationExpr? find node.children))
    hparameter

theorem contributes_propertyField {node inner : Node} (previous : Option Node)
    (h : node.annotatedType? = some inner) :
    (typeExpr find inner).Contributes (fun expr field => expr.WorkedInto field.2)
      (propertyField find previous node) := by
  rw [propertyField, orAny_of_annotatedType? h]
  refine Report.contributes_eq.bind ?_
  rintro expr _ field rfl hfield
  obtain ⟨options, -, hfield⟩ := Report.result_bind_eq_ok.1 hfield
  obtain ⟨result, hresult, hfield⟩ := Report.result_bind_eq_ok.1 hfield
  obtain ⟨name, -, hfield⟩ := Report.result_bind_eq_ok.1 hfield
  cases hfield
  exact (Expr.WorkedInto.self.withOptions hresult).withModifiers _ _

theorem contributes_fieldExprs_property (find : String → Option Expr) {node property : Node}
    {before : Option Node} (hbefore : (before, property) ∈ Node.withPrevious none node.children)
    (h : property ∈ node.properties) :
    (propertyField find before property).Contributes (fun field fields => field ∈ fields)
      (fieldExprs find none node.children) := by
  obtain ⟨hpart, hkind⟩ := List.mem_filter.1 h
  have hmem : (before, property) ∈
      (Node.withPrevious none node.children).filter fun pair => pair.2.isPart :=
    List.mem_filter.2 ⟨hbefore, (List.mem_filter.1 hpart).2⟩
  rw [fieldExprs_eq_mapM]
  have hmember := Report.contributes_mapM (f := fun pair => memberField find pair.1 pair.2) hmem
  rwa [memberField, if_pos hkind] at hmember

theorem contributes_fieldExprs (node : Node) {inner : Node}
    (h : inner ∈ node.properties.filterMap Node.annotatedType?) :
    (typeExpr find inner).Contributes
      (fun expr fields => ∃ field ∈ fields, expr.WorkedInto field.2)
      (fieldExprs find none node.children) := by
  obtain ⟨property, hproperty, hinner⟩ := List.mem_filterMap.1 h
  have hchild := (List.mem_filter.1 (List.mem_filter.1 hproperty).1).1
  obtain ⟨before, hbefore⟩ := Node.exists_mem_withPrevious none hchild
  exact (contributes_propertyField before hinner).trans
    (contributes_fieldExprs_property find hbefore hproperty)
    fun expr field fields hworked hmem => ⟨field, hmem, hworked⟩

theorem nameText_eq_ok (node : Node) {name : String}
    (h : (nameText node.children).result = .ok name) :
    (node.child? .name).map Node.text = some name := by
  unfold nameText at h
  change (Report.require .noName ((node.child? .name).map Node.text)).result = .ok name at h
  cases hname : (node.child? .name).map Node.text with
  | none =>
    rw [hname] at h
    cases h
  | some text =>
    rw [hname] at h
    cases h
    rfl

private theorem contributes_generic (node : Node) {inner : Node}
    (h : inner ∈ if (node.child? .name).map Node.text = some "Uint8Array" then []
      else node.typeArguments) :
    (typeExpr find inner).Contributes Expr.WorkedInto (do
      let name ← nameText node.children
      if name == "Uint8Array" then return .constant "Uint8Array"
      else return genericType name (← argumentExprs find node.children)) := by
  refine Report.Contributes.after fun name hname => ?_
  rw [nameText_eq_ok node hname] at h
  split at h
  · cases h
  · rename_i hother
    have hname' : ¬ (name == "Uint8Array") = true :=
      fun heq => hother (congrArg some (eq_of_beq heq))
    rw [if_neg hname']
    exact (contributes_argumentExprs h).map fun _ _ hexpr => .genericType name hexpr .self

/-- Function and constructor types. -/
private theorem contributes_signature (node : Node) {inner : Node} (name : String)
    (h : inner ∈ node.typeParameterList.filterMap Node.annotatedType? ++
      node.resultType?.toList) :
    (typeExpr find inner).Contributes Expr.WorkedInto (do
      let parameters ← parameterExprs find node.children
      return .construct name [.array parameters, ← orAny
        (roleExpr? find .returnType node.children <|> roleExpr? find .type node.children <|>
          lastExpr? find node.children)]) := by
  rcases List.mem_append.1 h with hparameter | hresult
  · refine (contributes_parameterExprs hparameter).bind fun expr exprs whole hexpr hwhole => ?_
    obtain ⟨result, -, hwhole⟩ := Report.result_bind_eq_ok.1 hwhole
    cases hwhole
    exact .construct name List.mem_cons_self (.array hexpr .self)
  · rw [orAny_of_resultType? (Option.mem_toList.1 hresult)]
    refine Report.Contributes.after fun parameters _ => ?_
    refine Report.contributes_eq.bind ?_
    rintro expr _ whole rfl hwhole
    cases hwhole
    exact .construct name (List.mem_cons_of_mem _ List.mem_cons_self) .self

private theorem conditional_eq_mapM (nodes : List Node) :
    (do
      let left ← roleExpr find .left nodes
      let right ← roleExpr find .right nodes
      let consequence ← roleExpr find .consequence nodes
      return Expr.construct "Extends"
        [left, right, consequence, ← roleExpr find .alternative nodes]) =
      [Role.left, .right, .consequence, .alternative].mapM
        (fun role => roleExpr find role nodes) >>= fun exprs =>
          pure (.construct "Extends" exprs) := by
  simp only [List.mapM_cons, List.mapM_nil, bind_assoc, pure_bind]

/-- **A part of a type contributes to it.** If a type has an expression, so has every type that it
is made of, and the expression of the part is worked into that of the whole. -/
theorem contributes_typeExpr {inner : Node} :
    (outer : Node) → inner ∈ outer.typeParts →
      (typeExpr find inner).Contributes Expr.WorkedInto (typeExpr find outer)
  | .mk label children, h => by
    have hself : (typeExpr find inner).Contributes Expr.WorkedInto (typeExpr find inner) :=
      Report.contributes_self fun _ => .self
    have hfirst : inner ∈ (Node.mk label children).parts.head?.toList →
        firstExpr find children = typeExpr find inner :=
      fun hhead => firstExpr_of_head? (Option.mem_toList.1 hhead)
    have hmember : inner ∈ (Node.mk label children).memberType?.toList →
        orAny (annotationExpr? find children <|> looseAnnotationExpr? find children) =
          typeExpr find inner :=
      fun hmark => orAny_of_memberType? (Option.mem_toList.1 hmark)
    have hwrap : ∀ name, (typeExpr find inner).Contributes Expr.WorkedInto
        (typeExpr find inner >>= fun expr => pure (.construct name [expr])) :=
      fun name => hself.map fun _ _ hworked => hworked.wrap name
    have harray : ∀ name (nodes : List Node), inner ∈ nodes →
        (typeExpr find inner).Contributes Expr.WorkedInto
          (nodes.mapM (typeExpr find) >>= fun exprs => pure (.construct name [.array exprs])) :=
      fun name nodes hmem => (Report.contributes_mapM hmem).map fun _ _ hexpr =>
        .wrapArray name hexpr .self
    -- one case for each kind of type, in the order of the definition
    rw [typeExpr]
    split <;> rename_i hkind <;> simp only [Node.typeParts, Node.kind, Node.label, hkind] at h
    · cases h
    · cases h
    · cases h
    · cases h
    · cases h
    · cases h
    · exact contributes_generic (.mk label children) h
    · rw [hfirst h]
      exact hwrap "Array"
    · rw [hfirst h]
      exact hwrap "KeyOf"
    · rw [hfirst h]
      exact hwrap "Readonly"
    · rw [hfirst h]
      exact hwrap "Optional"
    · rw [hfirst h]
      exact hself
    · rw [partExprs_eq_mapM]
      exact harray "Tuple" _ h
    · rw [memberExprs_eq_mapM]
      exact harray "Union" _ h
    · rw [memberExprs_eq_mapM]
      exact harray "Intersect" _ h
    · exact (contributes_fieldExprs (.mk label children) h).map fun _ _ hfield => .objectOf hfield
    · exact contributes_signature (.mk label children) "Function" h
    · exact contributes_signature (.mk label children) "Constructor" h
    · obtain ⟨role, hrole, hchild⟩ := List.mem_filterMap.1 h
      have hexpr : roleExpr find role children = typeExpr find inner := roleExpr_of_child? hchild
      rw [conditional_eq_mapM, ← hexpr]
      exact (Report.contributes_mapM (f := fun role => roleExpr find role children) hrole).map
        fun _ _ hexpr => .construct "Extends" hexpr .self
    · rw [hmember h]
      exact hself
    · rw [hmember h]
      exact hwrap "Optional"
    · cases h

/-- One type is, at some depth, a part of what another is made of. -/
def TypeWithin (outer inner : Node) : Prop :=
  Relation.ReflTransGen (fun outer inner : Node => inner ∈ outer.typeParts) outer inner

theorem contributes_of_typeWithin (find : String → Option Expr) {outer inner : Node}
    (h : TypeWithin outer inner) :
    (typeExpr find inner).Contributes Expr.WorkedInto (typeExpr find outer) := by
  induction h with
  | refl => exact Report.contributes_self fun _ => .self
  | tail _ hpart ih =>
    exact (contributes_typeExpr _ hpart).trans ih fun _ _ _ hpart hwhole => hpart.trans hwhole

end Types

end Schemata

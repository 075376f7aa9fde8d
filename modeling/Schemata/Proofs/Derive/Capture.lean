import Schemata.Proofs.Derive.AccessScope
import Schemata.Proofs.Derive.StrictSoundness
import Schemata.Proofs.Schema.Scope

/-!
# Names in copied expressions

An access copies a field of one declaration into another. The names in the copy stay as they were
written, and nothing is renamed or put around them on their account: whether a declaration gets a
fixed point is decided by its syntax, before anything is copied. So a name is still what it is in
the file exactly if the fixed point and the type parameters of the declaration that receives it,
and the namespaces around that declaration, all leave its first part alone.

What stands around a name is told by the fixed points that enclose it. Fixed points are put around
whole declarations only, and accesses copy fields, so a copy never carries one along and the only
one that can have been around it bears the name of the declaration it was copied from.
-/

namespace Schemata

namespace Expr

theorem Gains.uses_eq {options : Options} {expr result : Expr} (h : Gains options expr result) :
    result.uses = expr.uses := by
  induction h with
  | constructor name args own => rw [uses, uses]
  | wrapped name rest own _ ih => rw [uses, uses, usesOf, usesOf, ih]
  | recursive name _ ih => rw [uses, uses, ih]

theorem uses_attach {options : Options} {expr result : Expr}
    (h : expr.attach options = some result) : result.uses = expr.uses := by
  obtain ⟨-, rfl⟩ | hgains := attach_eq_some h
  · rfl
  · exact hgains.uses_eq

theorem WorkedInto.uses_subset {part whole : Expr} (h : part.WorkedInto whole) :
    part.uses ⊆ whole.uses := by
  induction h with
  | self => exact List.Subset.refl _
  | construct name harg _ ih => exact fun use huse => mem_usesOf.2 ⟨_, harg, ih huse⟩
  | apply callee harg _ ih =>
    exact fun use huse => List.mem_cons_of_mem _ (mem_usesOf.2 ⟨_, harg, ih huse⟩)
  | array hitem _ ih => exact fun use huse => mem_usesOf.2 ⟨_, hitem, ih huse⟩
  | object hfield _ ih => exact fun use huse => mem_usesOfFields.2 ⟨_, hfield, ih huse⟩
  | attach hattach _ ih =>
    rw [uses_attach hattach]
    exact ih

mutual

/-- A name in a field is a name of the expression, with more fixed points around it. -/
theorem exists_use_of_mem_fieldList {field : String × Expr} {name : String} {inner : List String}
    (huse : (name, inner) ∈ field.2.uses) :
    (expr : Expr) → field ∈ expr.fieldList → ∃ outer, (name, inner ++ outer) ∈ expr.uses
  | .object fields, hmem => by
    rw [fieldList] at hmem
    obtain ⟨origin, horigin, rfl⟩ := List.mem_map.1 hmem
    refine ⟨[], ?_⟩
    rw [uses, List.append_nil]
    exact mem_usesOfFields.2 ⟨origin, (List.mem_filter.1 horigin).1, huse⟩
  | .array items, hmem => by
    rw [fieldList] at hmem
    rw [uses]
    exact exists_use_of_mem_fieldLists huse items hmem
  | .call _ args _, hmem => by
    rw [fieldList] at hmem
    rw [uses]
    exact exists_use_of_mem_fieldLists huse args hmem
  | .apply callee args, hmem => by
    rw [fieldList] at hmem
    obtain ⟨outer, houter⟩ := exists_use_of_mem_fieldLists huse args hmem
    rw [uses]
    exact ⟨outer, List.mem_cons_of_mem _ houter⟩
  | .recursive bound body, hmem => by
    rw [fieldList] at hmem
    obtain ⟨outer, houter⟩ := exists_use_of_mem_fieldList huse body hmem
    refine ⟨outer ++ [bound], ?_⟩
    rw [uses, ← List.append_assoc]
    exact List.mem_map_of_mem houter
  | .raw _, hmem | .ref _, hmem | .absent, hmem | .bare, hmem => by
    simp [fieldList] at hmem

theorem exists_use_of_mem_fieldLists {field : String × Expr} {name : String} {inner : List String}
    (huse : (name, inner) ∈ field.2.uses) :
    (exprs : List Expr) → field ∈ fieldLists exprs → ∃ outer, (name, inner ++ outer) ∈ usesOf exprs
  | [], hmem => by simp [fieldLists] at hmem
  | expr :: rest, hmem => by
    rw [fieldLists, List.mem_append] at hmem
    rw [usesOf]
    rcases hmem with hhere | hrest
    · obtain ⟨outer, houter⟩ := exists_use_of_mem_fieldList huse expr hhere
      exact ⟨outer, List.mem_append_left _ houter⟩
    · obtain ⟨outer, houter⟩ := exists_use_of_mem_fieldLists huse rest hrest
      exact ⟨outer, List.mem_append_right _ houter⟩

end

theorem mem_fieldLists {exprs : List Expr} {field : String × Expr} :
    field ∈ fieldLists exprs ↔ ∃ expr ∈ exprs, field ∈ expr.fieldList := by
  induction exprs with
  | nil => simp [fieldLists]
  | cons expr rest ih => simp [fieldLists, ih]

theorem mem_fieldList_of_field? {expr value : Expr} {key : String}
    (h : expr.field? key = some value) : (key, value) ∈ expr.fieldList := by
  rw [field?_eq_lastValue?] at h
  exact mem_of_lastValue? h

theorem exists_use_of_select? {keys : List String} {base copied : Expr} {name : String}
    {inner : List String} (h : base.select? keys = some copied)
    (huse : (name, inner) ∈ copied.uses) : ∃ outer, (name, inner ++ outer) ∈ base.uses := by
  induction keys generalizing base with
  | nil =>
    cases h
    exact ⟨[], by rwa [List.append_nil]⟩
  | cons key rest ih =>
    obtain ⟨value, hvalue, h⟩ := Option.bind_eq_some_iff.1 h
    have hfield := mem_fieldList_of_field? hvalue
    split at h
    · cases h
      exact exists_use_of_mem_fieldList huse base hfield
    · obtain ⟨middle, hmiddle⟩ := ih h
      obtain ⟨outer, houter⟩ := exists_use_of_mem_fieldList hmiddle base hfield
      exact ⟨middle ++ outer, by rwa [← List.append_assoc]⟩

/-! ### Expressions without fixed points -/

/-- No name stands inside a fixed point. -/
def Untied (expr : Expr) : Prop := ∀ use ∈ expr.uses, use.2 = []

theorem Untied.of_mem_fieldList {expr : Expr} {field : String × Expr} (h : expr.Untied)
    (hfield : field ∈ expr.fieldList) : field.2.Untied := by
  rintro ⟨name, inner⟩ huse
  obtain ⟨outer, houter⟩ := exists_use_of_mem_fieldList huse expr hfield
  exact (List.append_eq_nil_iff.1 (h _ houter)).1

theorem Untied.select? {keys : List String} {base copied : Expr} (hbase : base.Untied)
    (h : base.select? keys = some copied) : copied.Untied := by
  rintro ⟨name, inner⟩ huse
  obtain ⟨outer, houter⟩ := exists_use_of_select? h huse
  exact (List.append_eq_nil_iff.1 (hbase _ houter)).1

/-- Fixed points stand around fields only, and bear the given name. -/
structure TiedBy (name : String) (body : Expr) : Prop where
  uses : ∀ use ∈ body.uses, use.2 = [] ∨ use.2 = [name]
  fields : ∀ field ∈ body.fieldList, field.2.Untied

theorem TiedBy.untied_select? {name : String} {base copied : Expr} {keys : List String}
    (h : base.TiedBy name) (hkeys : keys ≠ []) (hselect : base.select? keys = some copied) :
    copied.Untied := by
  cases keys with
  | nil => exact absurd rfl hkeys
  | cons key rest =>
    obtain ⟨value, hvalue, hselect⟩ := Option.bind_eq_some_iff.1 hselect
    have huntied : value.Untied := h.fields _ (mem_fieldList_of_field? hvalue)
    split at hselect
    · cases hselect
      exact huntied
    · exact huntied.select? hselect

end Expr

/-- Types have no fixed points, as long as the fields that accesses copy have none. -/
theorem untiedLaw {find : String → Option Expr}
    (hfind : ∀ name expr, find name = some expr → ∀ field ∈ expr.fieldList, field.2.Untied) :
    TypeLaw withoutRegistrations find Expr.Untied where
  construct _ _ h use huse := by
    obtain ⟨arg, harg, huse⟩ := Expr.mem_usesOf.1 huse
    exact h arg harg use huse
  literal _ _ huse := by cases huse
  builtin _ _ _ huse := by cases huse
  ref _ _ huse := by
    obtain rfl := List.mem_singleton.1 huse
    rfl
  apply _ _ h use huse := by
    rcases List.mem_cons.1 huse with rfl | huse
    · rfl
    · obtain ⟨arg, harg, huse⟩ := Expr.mem_usesOf.1 huse
      exact h arg harg use huse
  array _ h use huse := by
    obtain ⟨item, hitem, huse⟩ := Expr.mem_usesOf.1 huse
    exact h item hitem use huse
  object _ h use huse := by
    obtain ⟨field, hfield, huse⟩ := Expr.mem_usesOfFields.1 huse
    exact h field hfield use huse
  attach _ _ _ _ h hattach := by
    rw [Expr.Untied, Expr.uses_attach hattach]
    exact h
  found name expr _ _ hexpr hvalue := hfind name expr hexpr _ (Expr.mem_fieldList_of_field? hvalue)
  field _ _ _ h hvalue := h.of_mem_fieldList (Expr.mem_fieldList_of_field? hvalue)
  remark := (silentTypeLaw find).remark
  remarked _ _ :=
    withoutRegistrations.ofBind (withoutRegistrations.ofEmit (by simp [withoutRegistrations]))
      fun _ _ => withoutRegistrations.ofPure fun _ huse => by cases huse

theorem untied_of_holds {α : Type} {good : α → Prop} {x : Report α} {a : α}
    (h : withoutRegistrations.holds good x) (ha : x.result = .ok a) : good a :=
  (h fun _ _ => trivial).2 a ha

namespace SchemaParts.Derived

variable {parts : SchemaParts} {find : String → Option Expr} {comment : Option Node} {node : Node}
  {events : List Event}

theorem untied_own (h : parts.Derived find comment node events)
    (law : TypeLaw withoutRegistrations find Expr.Untied) : parts.own.Untied := by
  have hvalue : withoutRegistrations.holds Expr.Untied (ownExpr find node) := by
    unfold ownExpr
    split
    · exact law.roleExpr .value node.children
    · exact Judgement.ofBind _ (law.interfaceFields node) fun fields hfields =>
        Judgement.ofPure _ (law.wrap "Object" (law.object fields hfields))
  have huntied := untied_of_holds hvalue h.value
  have hdocumented := untied_of_holds (law.docOptions comment) h.options
  have hown := law.withOptions node.label huntied fun result =>
    law.attach parts.options parts.value result hdocumented huntied
  exact untied_of_holds hown h.own

theorem untied_heritage (h : parts.Derived find comment node events)
    (law : TypeLaw withoutRegistrations find Expr.Untied) :
    ∀ clause ∈ parts.heritage, clause.Untied := by
  have hclauses : withoutRegistrations.holds (fun clauses => ∀ clause ∈ clauses, clause.Untied)
      (heritageExprs find node) := by
    unfold heritageExprs
    split
    · exact Judgement.ofPure _ (by simp)
    · exact Judgement.holds_mapM _ _ fun clause _ => law.heritageClause clause
  exact untied_of_holds hclauses h.heritage

end SchemaParts.Derived

/-! ### Names in the body of a declaration -/

namespace Node

variable (node : Node) (name : String) {heritage : List Expr} {own : Expr}

theorem uses_tied : (node.tied name own).uses =
    own.uses.map fun use => (use.1, use.2 ++ node.fixedPoints name) := by
  unfold tied fixedPoints
  split
  · rfl
  · simp

theorem mem_uses_composed {use : String × List String} :
    use ∈ (node.composed name heritage own).uses ↔
      (∃ clause ∈ heritage, use ∈ clause.uses) ∨ use ∈ (node.tied name own).uses := by
  unfold composed
  split
  · rename_i hempty
    simp [List.isEmpty_iff.1 hempty]
  · rw [Expr.construct, Expr.uses, Expr.usesOf, Expr.usesOf, List.append_nil, Expr.uses,
      Expr.mem_usesOf]
    simp [or_and_right, exists_or]

theorem mem_fieldList_composed {field : String × Expr}
    (h : field ∈ (node.composed name heritage own).fieldList) :
    ∃ part ∈ own :: heritage, field ∈ part.fieldList := by
  have htied : (node.tied name own).fieldList = own.fieldList := by
    unfold tied
    split <;> simp [Expr.fieldList]
  unfold composed at h
  split at h
  · rw [htied] at h
    exact ⟨own, List.mem_cons_self, h⟩
  · rw [Expr.construct, Expr.fieldList, Expr.fieldLists, Expr.fieldLists, List.append_nil,
      Expr.fieldList] at h
    obtain ⟨expr, hexpr, hfield⟩ := Expr.mem_fieldLists.1 h
    rcases List.mem_append.1 hexpr with hclause | htail
    · exact ⟨expr, List.mem_cons_of_mem _ hclause, hfield⟩
    · rw [List.mem_singleton.1 htail, htied] at hfield
      exact ⟨own, List.mem_cons_self, hfield⟩

theorem tiedBy_composed (hown : own.Untied) (hheritage : ∀ clause ∈ heritage, clause.Untied) :
    (node.composed name heritage own).TiedBy name where
  uses use huse := by
    rcases (node.mem_uses_composed name).1 huse with ⟨clause, hclause, huse⟩ | huse
    · exact Or.inl (hheritage clause hclause use huse)
    · rw [uses_tied] at huse
      obtain ⟨inner, hinner, rfl⟩ := List.mem_map.1 huse
      rw [hown inner hinner, List.nil_append, fixedPoints]
      split
      · exact Or.inr rfl
      · exact Or.inl rfl
  fields field hfield := by
    obtain ⟨part, hpart, hmem⟩ := node.mem_fieldList_composed name hfield
    rcases List.mem_cons.1 hpart with rfl | hclause
    · exact hown.of_mem_fieldList hmem
    · exact (hheritage part hclause).of_mem_fieldList hmem

end Node

/-! ### Along a file -/

/-- What a statement registers is tied by its own name only, if that holds of what was registered
before. -/
theorem tiedBy_apply {registry : Registry} {previous : Option Node} {node : Node}
    {found : Option Declaration}
    (hregistry : ∀ name body, registry.get? name = some body → body.TiedBy name)
    (hfound : (statement registry.get? true false previous node).result = .ok found)
    {name : String} {body : Expr}
    (h : (registry.apply (statement registry.get? true false previous node).events).get? name =
      some body) : body.TiedBy name := by
  have hvalue := registersValue_statement registry.get? false previous node
  rw [Report.RegistersValue, hfound] at hvalue
  rw [Registry.get?_apply, hvalue] at h
  cases hlast : lastValue? name (found.bind Declaration.registration?).toList with
  | none =>
    rw [hlast] at h
    exact hregistry name body h
  | some new =>
    rw [hlast] at h
    cases h
    have hmem := mem_of_lastValue? hlast
    obtain ⟨declaration, rfl, hregistration⟩ := Option.bind_eq_some_iff.1 (Option.mem_toList.1 hmem)
    obtain ⟨exported, rfl⟩ := Declaration.eq_of_registration? hregistration
    obtain ⟨-, inner, comment, events, parts, hparts, heq⟩ :=
      exists_schemaParts_of_statement hfound
    obtain ⟨rfl, -, rfl, -⟩ := Declaration.schema.inj heq
    -- the accesses in the new declaration copied fields of older ones, which are untied
    have law := untiedLaw fun name body hbody => (hregistry name body hbody).fields
    exact inner.tiedBy_composed parts.name (hparts.untied_own law) (hparts.untied_heritage law)

theorem tiedBy_statements {nodes : List Node} {registry : Registry} {previous : Option Node}
    {derived : DerivedFile} (h : (statements registry previous nodes).result = .ok derived)
    (hregistry : ∀ name body, registry.get? name = some body → body.TiedBy name) :
    ∀ name body, derived.registry.get? name = some body → body.TiedBy name := by
  induction nodes generalizing registry previous derived with
  | nil =>
    rw [statements, Report.result_pure] at h
    cases h
    exact hregistry
  | cons node rest ih =>
    rw [statements] at h
    split at h
    · obtain ⟨found, hfound, h⟩ := Report.result_bind_eq_ok.1 h
      obtain ⟨tail, htail, h⟩ := Report.result_bind_eq_ok.1 h
      cases h
      have hrest := ih htail fun name body hbody => tiedBy_apply hregistry hfound hbody
      exact hrest
    · exact ih h hregistry

/-! ### What a name stands for -/

theorem schema_mem_of_lastPlain? {name : String} {declarations : List Declaration} {body : Expr}
    (h : lastPlain? name declarations = some body) :
    ∃ exported, .schema name exported body [] ∈ declarations := by
  obtain ⟨declaration, hmem, hregistration⟩ := List.mem_filterMap.1 (mem_of_lastValue? h)
  obtain ⟨exported, rfl⟩ := Declaration.eq_of_registration? hregistration
  exact ⟨exported, hmem⟩

/-- Only the fixed point of a declaration itself can come between its names and the file. -/
theorem referent?_of_tied {name bound : String} {binders : List String}
    (hbinders : binders = [] ∨ binders = [bound]) (declares : Declaration → String → Bool) :
    referent? declares (environment binders [] []) name = none ∨
      headName name = bound ∧
        referent? declares (environment binders [] []) name = some (.fixedPoint bound) := by
  rcases hbinders with rfl | rfl
  · exact Or.inl rfl
  · by_cases hname : headName name = bound
    · exact Or.inr ⟨hname, by simp [referent?, environment, Binder.binds, hname]⟩
    · refine Or.inl (referent?_environment_eq_none_iff.2 ?_)
      simpa using hname

/-- The value of a declaration has the names of a copy, inside the fixed point that its syntax asks
for, and outside of it in an `extends` clause. -/
theorem SchemaParts.Derived.mem_uses_composed {parts : SchemaParts} {find : String → Option Expr}
    {comment : Option Node} {declaration origin access : Node} {events : List Event}
    {copied : Expr} (hparts : parts.Derived find comment declaration events)
    (horigin : origin ∈ declaration.ownTypes ++ declaration.heritageTypes)
    (hwithin : TypeWithin origin access)
    (hcopied : (typeExpr find access).result = .ok copied) (huntied : copied.Untied)
    {use : String × List String} (huse : use ∈ copied.uses) :
    ∃ binders,
      (use.1, binders) ∈ (declaration.composed parts.name parts.heritage parts.own).uses ∧
      (origin ∈ declaration.ownTypes ∧ binders = declaration.fixedPoints parts.name ∨
        origin ∈ declaration.heritageTypes ∧ binders = []) := by
  rcases List.mem_append.1 horigin with hown | hheritage
  · obtain ⟨expr, hexpr, -, hworked⟩ := hparts.exists_own hown hwithin
    obtain rfl : copied = expr := Except.ok.inj (hcopied.symm.trans hexpr)
    refine ⟨declaration.fixedPoints parts.name, ?_, Or.inl ⟨hown, rfl⟩⟩
    refine (declaration.mem_uses_composed parts.name).2 (Or.inr ?_)
    rw [Node.uses_tied]
    refine List.mem_map.2 ⟨use, hworked.uses_subset huse, ?_⟩
    rw [huntied use huse, List.nil_append]
  · obtain ⟨expr, hexpr, -, clause, hclause, hworked⟩ := hparts.exists_heritage hheritage hwithin
    obtain rfl : copied = expr := Except.ok.inj (hcopied.symm.trans hexpr)
    refine ⟨[], ?_, Or.inr ⟨hheritage, rfl⟩⟩
    refine (declaration.mem_uses_composed parts.name).2 (Or.inl ⟨clause, hclause, ?_⟩)
    rw [← huntied use huse]
    exact hworked.uses_subset huse

/-- **What becomes of the names in a copy.** If an access in a declaration copies a field of another
one, every name in the copy stands in the value of the receiving declaration too. In the value it
was copied from it was what it is in the file, or the fixed point of that value. In the other one it
stands inside the fixed point that the syntax of the declaration asks for, outside of it in an
`extends` clause. There it is what it is in the file exactly if its first part is neither that fixed
point, nor a type parameter, nor declared by a namespace around the declaration. -/
theorem uses_of_copied {root declaration origin access : Node} {front : List Node}
    {previous : Option Node} {before derived : DerivedFile} {name : String} {keys : List String}
    {base copied : Expr} (hderived : (deriveFile root).result = .ok derived)
    (hat : StatementAt root front previous declaration)
    (hkind : declaration.kind.isSchema = true)
    (hbefore : (statements .empty none front).result = .ok before)
    (horigin : origin ∈ declaration.ownTypes ++ declaration.heritageTypes)
    (hwithin : TypeWithin origin access) (haccess : AccessPath name keys access)
    (hdepth : keys.length ≤ 2) (hbase : lastPlain? name before.declarations = some base)
    (hselect : base.select? keys = some copied) :
    typeExpr before.registry.get? access = pure copied ∧
    ∃ (parts : SchemaParts) (exported : Bool),
      parts.Derived before.registry.get? (commentBefore previous) declaration
        (deriveFile root).events ∧
      parts.declaration declaration exported ∈ Declaration.nestedOf derived.declarations ∧
      ∀ use ∈ copied.uses,
        (∃ outer, (use.1, outer) ∈ base.uses ∧
          (use.1, environment outer [] []) ∈ Declaration.usesOf derived.declarations ∧
          ∀ declares, referent? declares (environment outer [] []) use.1 = none ∨
            headName use.1 = name ∧
              referent? declares (environment outer [] []) use.1 = some (.fixedPoint name)) ∧
        ∃ binders,
          (use.1, binders) ∈ (declaration.composed parts.name parts.heritage parts.own).uses ∧
          (origin ∈ declaration.ownTypes ∧ binders = declaration.fixedPoints parts.name ∨
            origin ∈ declaration.heritageTypes ∧ binders = []) ∧
          ∀ blocks, (parts.declaration declaration exported).Within blocks derived.declarations →
            (use.1, environment binders parts.parameters blocks) ∈
              Declaration.usesOf derived.declarations ∧
            ∀ declares,
              referent? declares (environment binders parts.parameters blocks) use.1 = none ↔
                headName use.1 ∉ binders ∧ headName use.1 ∉ parts.parameters ∧
                  ∀ block ∈ blocks, declares block (headName use.1) = false := by
  obtain ⟨before', hbefore', hstarts, parts, exported, hdeclared, hparts⟩ :=
    exists_schemaParts_of_statementAt hderived hat hkind
  obtain rfl : before = before' := Except.ok.inj (hbefore.symm.trans hbefore')
  have hget := get?_eq_lastPlain? hbefore name
  have haccessed : typeExpr before.registry.get? access = pure copied := by
    have houtcome := accessOutcome_typeExpr before.registry.get? haccess
    rw [hget, hbase, AccessOutcome, if_pos hdepth, hselect] at houtcome
    exact houtcome
  have hresult : (typeExpr before.registry.get? access).result = .ok copied := by
    rw [haccessed, Report.result_pure]
  have htied : base.TiedBy name :=
    tiedBy_statements hbefore (by simp [Registry.empty, Registry.get?, valueAt?]) name base
      (hget.trans hbase)
  have huntied := htied.untied_select? haccess.keys_ne_nil hselect
  refine ⟨haccessed, parts, exported, hparts, hdeclared, fun use huse => ⟨?_, ?_⟩⟩
  · obtain ⟨outer, houter⟩ := Expr.exists_use_of_select? hselect huse
    rw [huntied use huse, List.nil_append] at houter
    obtain ⟨exportedBase, hmem⟩ := schema_mem_of_lastPlain? hbase
    exact ⟨outer, houter, (Declaration.Within.here (hstarts.subset hmem)).mem_usesOf_schema houter,
      referent?_of_tied (htied.uses _ houter)⟩
  · obtain ⟨binders, hbinders, hplace⟩ :=
      hparts.mem_uses_composed horigin hwithin hresult huntied huse
    exact ⟨binders, hbinders, hplace, fun blocks hblocks =>
      ⟨hblocks.mem_usesOf_schema hbinders, fun _ => referent?_environment_eq_none_iff⟩⟩

/-- `type A = { x: { y: reference } }` -/
def sampleCarrier (reference : Node) : Node :=
  .sampleAlias "A" [] (.sample .objectType (some .value) "" [
    .sampleProperty "x" (.sample .objectType none "" [.sampleProperty "y" reference])])

/-- The value of the field `x` of the carrier. -/
def carriedField (name : String) : Expr := .construct "Object" [.object [("y", .ref name)]]

def carrierBody (name : String) : Expr := .construct "Object" [.object [("x", carriedField name)]]

/-- `type A = { x: { y: T } }` -/
def plainCarrier : Node := sampleCarrier (.sample .typeIdentifier none "T" [])

/-- The carrier, then `type T = A["x"]`. -/
def ownNameFile : Node :=
  .sample (.other "program") none "" [
    plainCarrier, .sampleAlias "T" [] (.sampleAccess "A" "\"x\"")]

/-- The carrier, then `type G<T> = A["x"]`. -/
def parameterNameFile : Node :=
  .sample (.other "program") none "" [
    plainCarrier, .sampleAlias "G" [.sampleParameter "T"] (.sampleAccess "A" "\"x\"")]

private theorem statementAt_ownNameFile :
    StatementAt ownNameFile [plainCarrier] (some plainCarrier)
      (.sampleAlias "T" [] (.sampleAccess "A" "\"x\"")) :=
  ⟨_, [], rfl, rfl, .refl⟩

private theorem statements_plainCarrier :
    (statements .empty none [plainCarrier]).result = .ok
      ⟨[.schema "A" false (carrierBody "T") []], ⟨[("A", carrierBody "T")]⟩⟩ := rfl

/-- `type A = { x: { y: N.T } }` -/
def qualifiedCarrier : Node := sampleCarrier (.sample .nestedTypeIdentifier none "N.T" [])

/-- `type G<N> = A["x"]` -/
def qualifiedReceiver : Node :=
  .sampleAlias "G" [.sampleParameter "N"] (.sampleAccess "A" "\"x\"")

/-- The `N.T` in the copy is looked up by its `N`, which is a type parameter there. -/
theorem uses_qualifiedNameFile :
    ("N.T", environment [] ["N"] []) ∈
        Declaration.usesOf [.schema "A" false (carrierBody "N.T") [],
          .schema "G" false (carriedField "N.T") ["N"]] ∧
      ∀ declares, referent? declares (environment [] ["N"] []) "N.T" ≠ none := by
  have hderived : (deriveFile (.sample (.other "program") none ""
      [qualifiedCarrier, qualifiedReceiver])).result = .ok
        ⟨[.schema "A" false (carrierBody "N.T") [], .schema "G" false (carriedField "N.T") ["N"]],
          ⟨[("A", carrierBody "N.T")]⟩⟩ := rfl
  have hat : StatementAt (.sample (.other "program") none "" [qualifiedCarrier, qualifiedReceiver])
      [qualifiedCarrier] (some qualifiedCarrier) qualifiedReceiver := ⟨_, [], rfl, rfl, .refl⟩
  have hbefore : (statements .empty none [qualifiedCarrier]).result = .ok
      ⟨[.schema "A" false (carrierBody "N.T") []], ⟨[("A", carrierBody "N.T")]⟩⟩ := rfl
  obtain ⟨-, parts, exported, hparts, hdeclared, huses⟩ :=
    uses_of_copied hderived hat rfl hbefore List.mem_cons_self .refl
      (accessPath_sampleAccess "A" "\"x\"") (by decide) rfl rfl
  obtain ⟨-, binders, -, hplace, hscope⟩ := huses ("N.T", []) List.mem_cons_self
  have hparameters : parts.parameters = ["N"] := Except.ok.inj (hparts.parameters.symm.trans rfl)
  have hbinders : binders = [] := by
    rcases hplace with ⟨-, hbound⟩ | ⟨-, hbound⟩
    · exact hbound
    · exact hbound
  -- no namespace is in the file, so the declaration stands at its top
  have htop : parts.declaration qualifiedReceiver exported ∈
      [.schema "A" false (carrierBody "N.T") [], .schema "G" false (carriedField "N.T") ["N"]] := by
    simpa [Declaration.nestedOf, Declaration.nested] using hdeclared
  obtain ⟨hmem, hreferent⟩ := hscope [] (.here htop)
  rw [hparameters, hbinders] at hmem hreferent
  refine ⟨hmem, fun declares hnone => ?_⟩
  have hhead : headName "N.T" = "N" := by decide
  exact ((hreferent declares).1 hnone).2.1 (hhead ▸ List.mem_cons_self)

/-- No name in a copy is bound by the declaration that receives it, except its own name by a fixed
point. -/
def CaptureFree (root : Node) : Prop :=
  ∀ derived front previous declaration before origin access name keys base copied declared exported
      body parameters,
    (deriveFile root).result = .ok derived → StatementAt root front previous declaration →
    declaration.kind.isSchema = true → (statements .empty none front).result = .ok before →
    origin ∈ declaration.ownTypes ++ declaration.heritageTypes → TypeWithin origin access →
    AccessPath name keys access → lastPlain? name before.declarations = some base →
    base.select? keys = some copied → typeExpr before.registry.get? access = pure copied →
    (declaration.child? .name).map Node.text = some declared →
    .schema declared exported body parameters ∈ Declaration.nestedOf derived.declarations →
    ∀ use ∈ copied.uses,
      use.1 ∉ parameters ∧ (use.1 = declared → ∃ own, body = .recursive declared own)

/-- In the first file the copied `T` becomes the constant that is being defined, in the second one
the type parameter. -/
theorem not_captureFree : ¬ CaptureFree ownNameFile ∧ ¬ CaptureFree parameterNameFile := by
  have haccess := accessPath_sampleAccess "A" "\"x\""
  constructor
  · intro h
    obtain ⟨-, htied⟩ := h _ _ _ _ _ _ _ _ _ _ (carriedField "T") "T" false (carriedField "T") []
      rfl statementAt_ownNameFile rfl statements_plainCarrier List.mem_cons_self .refl haccess rfl
      rfl rfl rfl (.tail _ (.head _)) ("T", []) List.mem_cons_self
    obtain ⟨own, hown⟩ := htied rfl
    cases hown
  · intro h
    have hat : StatementAt parameterNameFile [plainCarrier] _
        (.sampleAlias "G" [.sampleParameter "T"] (.sampleAccess "A" "\"x\"")) :=
      ⟨_, [], rfl, rfl, .refl⟩
    obtain ⟨hparameter, -⟩ := h _ _ _ _ _ _ _ _ _ _ (carriedField "T") "G" false
      (carriedField "T") ["T"] rfl hat rfl statements_plainCarrier List.mem_cons_self .refl
      haccess rfl rfl rfl rfl (.tail _ (.head _)) ("T", []) List.mem_cons_self
    exact hparameter List.mem_cons_self

end Schemata

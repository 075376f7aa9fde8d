import Schemata.Proofs.Derive.SchemaParts

/-!
# What the base of an access refers to

The base of an indexed access is looked up by its text alone, among the plain schema declarations
that the file itself made before. No lexical scope is kept: a type parameter of the declaration
around the access, or a type that a namespace around it declares, has no part in the look-up, even
where the language would give the name that meaning. What an access yields is therefore a function
of the declarations in front, the name and the keys.
-/

namespace Schemata

/-- The body of the last plain schema declaration of a name. -/
def lastPlain? (name : String) (declarations : List Declaration) : Option Expr :=
  lastValue? name (declarations.filterMap Declaration.registration?)

theorem get?_eq_lastPlain? {front : List Node} {before : DerivedFile}
    (h : (statements .empty none front).result = .ok before) (name : String) :
    before.registry.get? name = lastPlain? name before.declarations := by
  rw [statements_registry h, Registry.get?, valueAt?_foldl_setEntry]
  simp [Registry.empty, valueAt?, lastPlain?]

/-- An access that selects the fields `keys`, one inside the other, of a reference of the given
text. -/
inductive AccessPath (name : String) : List String → Node → Prop where
  | direct {node base key : Node} {more : List Node} (hkind : node.kind = .lookupType)
      (hparts : node.parts = base :: key :: more) (hbase : base.kind.isReference = true)
      (htext : base.text = name) : AccessPath name [Text.unquote key.text] node
  | through {node inner key : Node} {more : List Node} {keys : List String}
      (hkind : node.kind = .lookupType) (hparts : node.parts = inner :: key :: more)
      (hinner : AccessPath name keys inner) :
      AccessPath name (keys ++ [Text.unquote key.text]) node

theorem AccessPath.accessOn {name : String} {keys : List String} {node : Node}
    (h : AccessPath name keys node) : AccessOn name node := by
  induction h with
  | direct hkind hparts hbase htext => exact .direct hkind hparts hbase htext
  | through hkind hparts _ ih => exact .through hkind hparts ih

theorem AccessPath.keys_ne_nil {name : String} {keys : List String} {node : Node}
    (h : AccessPath name keys node) : keys ≠ [] := by
  cases h <;> simp

/-- The field of a field that some keys select. A marker on the way stands for the whole. -/
def Expr.select? (base : Expr) : List String → Option Expr
  | [] => some base
  | key :: rest => (base.field? key).bind fun value =>
    if value.isMarker then some value else value.select? rest

theorem Expr.select?_singleton (base : Expr) (key : String) :
    base.select? [key] = base.field? key := by
  simp only [select?, ite_self, Option.bind_fun_some]

/-- A report that yields a marker and one diagnostic for it. -/
def Report.IsMarked (x : Report Expr) (marker : String) : Prop :=
  ∃ diagnostic, diagnostic.concern = .indexedAccess ∧
    x = ⟨[.noted diagnostic], .ok (.raw marker)⟩

theorem isMarked_failedAccess (node : Node) (message marker : String) :
    (failedAccess node message marker).IsMarked marker :=
  ⟨_, rfl, rfl⟩

/-- A report that yields the field that was looked for, or marks that there is none. -/
def Report.Selects (x : Report Expr) (field? : Option Expr) : Prop :=
  match field? with
  | some field => x = pure field
  | none => x.IsMarked fieldErrorMarker

/-- What an access to a base of the given body yields, or to one without a body. -/
def AccessOutcome (base? : Option Expr) (keys : List String) (x : Report Expr) : Prop :=
  match base? with
  | none => x.IsMarked accessErrorMarker
  | some base =>
    if keys.length ≤ 2 then x.Selects (base.select? keys) else x.IsMarked accessErrorMarker

section Resolution

variable {find : String → Option Expr} {body : Expr}

theorem typeExpr_lookup {node : Node} (h : node.kind = .lookupType) :
    typeExpr find node = resolveAccess find node := by
  obtain ⟨label, children⟩ := node
  rw [typeExpr, show label.kind = .lookupType from h]

theorem selects_selectField (node : Node) (expr : Expr) (key : String) :
    (selectField node expr key).Selects (expr.field? key) := by
  unfold selectField
  split <;> rename_i hfield <;> rw [hfield]
  · rfl
  · exact isMarked_failedAccess _ _ _

theorem selects_resolveShallow {node base key : Node} {more : List Node}
    (hparts : node.parts = base :: key :: more) (hfind : find base.text = some body) :
    (resolveShallow find node).Selects (body.field? (Text.unquote key.text)) := by
  rw [resolveShallow, baseAndKey_eq hparts, pure_bind]
  simp only [hfind]
  exact selects_selectField node body _

/-- The second key is looked up in what the first one found, unless that is a marker. -/
theorem selects_resolveDeep {node inner base innerKey key : Node} {more innerMore : List Node}
    (hparts : node.parts = inner :: key :: more)
    (hinner : inner.parts = base :: innerKey :: innerMore) (hfind : find base.text = some body) :
    (resolveDeep find node).Selects
      (body.select? [Text.unquote innerKey.text, Text.unquote key.text]) := by
  have hshallow := selects_resolveShallow hinner hfind
  rw [resolveDeep, baseAndKey_eq hparts, pure_bind, Expr.select?]
  cases hfirst : body.field? (Text.unquote innerKey.text) with
  | none =>
    rw [hfirst] at hshallow
    obtain ⟨diagnostic, hconcern, hreport⟩ := hshallow
    refine ⟨diagnostic, hconcern, ?_⟩
    simp only [hreport]
    rfl
  | some value =>
    rw [hfirst] at hshallow
    have hvalue : resolveShallow find inner = pure value := hshallow
    simp only [hvalue, pure_bind, Option.bind_some, Expr.select?_singleton]
    split
    · rfl
    · exact selects_selectField node value _

/-- **What an access yields** depends only on the look-up of its base and on its keys. -/
theorem accessOutcome_typeExpr (find : String → Option Expr) {name : String}
    {keys : List String} {node : Node} (h : AccessPath name keys node) :
    AccessOutcome (find name) keys (typeExpr find node) := by
  cases hfind : find name with
  | none => exact isFailedAccess_typeExpr hfind h.accessOn
  | some body =>
    rw [typeExpr_lookup h.accessOn.kind_eq, AccessOutcome]
    cases h with
    | direct _ hparts hbase htext =>
      rw [if_pos (by simp), Expr.select?_singleton, resolveAccess, baseAndKey_eq hparts, pure_bind]
      simp only [hbase, if_true]
      exact selects_resolveShallow hparts (htext ▸ hfind)
    | through _ hparts hinner =>
      have hkind := hinner.accessOn.kind_eq
      rw [resolveAccess, baseAndKey_eq hparts, pure_bind]
      -- two levels are resolved on the way, a third one is refused as such
      cases hinner with
      | direct _ hinnerParts hbase htext =>
        simp only [hkind, baseAndKey_eq hinnerParts, pure_bind, hbase]
        exact selects_resolveDeep hparts hinnerParts (htext ▸ hfind)
      | through _ hinnerParts hdeep =>
        rw [if_neg (by simpa using hdeep.keys_ne_nil)]
        simp only [hkind, baseAndKey_eq hinnerParts, pure_bind, hdeep.accessOn.kind_eq]
        exact isMarked_failedAccess _ _ _

end Resolution

/-! ### Hidden names -/

def Node.bindsParameter (name : String) (declaration : Node) : Bool :=
  (((declaration.child? .typeParameters).map Node.parts).getD []).any fun parameter =>
    parameter.kind == .typeParameter && (parameter.child? .name).map Node.text == some name

/-- Where a declaration stands, a name means something closer than the file: a type parameter, or
what a namespace around it declares. -/
def Hidden (root : Node) (name : String) (declaration : Node) : Prop :=
  declaration.bindsParameter name = true ∨
    ∃ front previous scope before, StatementAt root front previous scope ∧
      scope.kind ∈ [.internalModule, .externalModule] ∧
      (∃ pair ∈ scope.subStatements previous, Node.Declares name pair.2) ∧
      StatementWithin (previous, scope) (before, declaration)

/-- Accesses keep to lexical scope if none to a hidden name succeeds. -/
def KeepsToScope (root : Node) : Prop :=
  ∀ front previous declaration before origin access name keys,
    StatementAt root front previous declaration → declaration.kind.isSchema = true →
    (statements .empty none front).result = .ok before →
    origin ∈ declaration.ownTypes ++ declaration.heritageTypes → TypeWithin origin access →
    AccessPath name keys access → Hidden root name declaration →
    (typeExpr before.registry.get? access).IsFailedAccess

/-- `type T = { key: keyword }` -/
def sampleRecord (key keyword : String) : Node :=
  .sampleAlias "T" [] (.sample .objectType (some .value) "" [
    .sampleProperty key (.sample .predefinedType none keyword [])])

/-- `type T = { a: string }`, then `type G<T> = T["a"]`. -/
def parameterHidesFile : Node :=
  .sample (.other "program") none "" [
    sampleRecord "a" "string",
    .sampleAlias "G" [.sampleParameter "T"] (.sampleAccess "T" "\"a\"")]

/-- `type T = { a: string }`, then a namespace with another `T` and with `type U = T["a"]`. -/
def namespaceHidesFile : Node :=
  .sample (.other "program") none "" [
    sampleRecord "a" "string",
    .sampleNamespace "N" [
      sampleRecord "b" "number",
      .sampleAlias "U" [] (.sampleAccess "T" "\"a\"")]]

theorem accessPath_sampleAccess (base key : String) :
    AccessPath base [Text.unquote key] (.sampleAccess base key) :=
  @AccessPath.direct base (.sampleAccess base key) (.sample .typeIdentifier none base [])
    (.sample .literalType none key []) [] rfl rfl rfl rfl

private theorem not_isFailedAccess_string :
    ¬ (pure (.constant "String") : Report Expr).IsFailedAccess := by
  rintro ⟨diagnostic, -, hreport⟩
  cases hreport

private theorem statementWithin_sampleNamespace :
    StatementWithin (some (sampleRecord "a" "string"), .sampleNamespace "N" [
        sampleRecord "b" "number", .sampleAlias "U" [] (.sampleAccess "T" "\"a\"")])
      (some (sampleRecord "b" "number"), .sampleAlias "U" [] (.sampleAccess "T" "\"a\"")) :=
  .single (.tail _ (.head _))

private theorem statementAt_namespaceHidesFile :
    StatementAt namespaceHidesFile [sampleRecord "a" "string"]
      (some (sampleRecord "b" "number")) (.sampleAlias "U" [] (.sampleAccess "T" "\"a\"")) :=
  ⟨_, [], rfl, rfl, statementWithin_sampleNamespace⟩

/-! ### Accesses in a file -/

/-- **Accesses go by the bare name.** Wherever an access to the fields of a name stands in an alias
or an interface of a file, it yields what the keys select in the last plain schema declaration of
that name in front; if there is none it is marked. What it yields is worked into the declaration
around it. That declaration may have a type parameter of the name, and a namespace around it may
declare the name: neither matters. -/
theorem access_by_bareName {root declaration origin access : Node} {front : List Node}
    {previous : Option Node} {derived : DerivedFile} {name : String} {keys : List String}
    (hderived : (deriveFile root).result = .ok derived)
    (hat : StatementAt root front previous declaration)
    (hkind : declaration.kind.isSchema = true)
    (horigin : origin ∈ declaration.ownTypes ++ declaration.heritageTypes)
    (hwithin : TypeWithin origin access) (haccess : AccessPath name keys access) :
    ∃ before, (statements .empty none front).result = .ok before ∧
      before.declarations <+: derived.declarations ∧
      AccessOutcome (lastPlain? name before.declarations) keys
        (typeExpr before.registry.get? access) ∧
      (typeExpr before.registry.get? access).events ⊆ (deriveFile root).events ∧
      ∃ (parts : SchemaParts) (exported : Bool) (expr : Expr),
        parts.declaration declaration exported ∈ Declaration.nestedOf derived.declarations ∧
        (typeExpr before.registry.get? access).result = .ok expr ∧
        ∃ part ∈ parts.own :: parts.heritage, expr.WorkedInto part := by
  obtain ⟨before, hbefore, hprefix, parts, exported, hdeclared, hparts⟩ :=
    exists_schemaParts_of_statementAt hderived hat hkind
  have houtcome := accessOutcome_typeExpr before.registry.get? haccess
  rw [get?_eq_lastPlain? hbefore] at houtcome
  refine ⟨before, hbefore, hprefix, houtcome, ?_⟩
  rcases List.mem_append.1 horigin with hown | hheritage
  · obtain ⟨expr, hexpr, hevents, hworked⟩ := hparts.exists_own hown hwithin
    exact ⟨hevents, parts, exported, expr, hdeclared, hexpr, parts.own, List.mem_cons_self, hworked⟩
  · obtain ⟨expr, hexpr, hevents, clause, hclause, hworked⟩ :=
      hparts.exists_heritage hheritage hwithin
    exact ⟨hevents, parts, exported, expr, hdeclared, hexpr, clause,
      List.mem_cons_of_mem _ hclause, hworked⟩

/-- Inside the namespace the access yields the field of the `T` in front of it. -/
theorem access_namespaceHidesFile :
    ∃ before, (statements .empty none [sampleRecord "a" "string"]).result = .ok before ∧
      lastPlain? "T" before.declarations =
        some (.construct "Object" [.object [("a", .constant "String")]]) ∧
      typeExpr before.registry.get? (.sampleAccess "T" "\"a\"") = pure (.constant "String") := by
  obtain ⟨before, hbefore, -, houtcome, -⟩ :=
    access_by_bareName rfl statementAt_namespaceHidesFile rfl List.mem_cons_self .refl
      (accessPath_sampleAccess "T" "\"a\"")
  have hvalue : (statements .empty none [sampleRecord "a" "string"]).result = .ok
      ⟨[.schema "T" false (.construct "Object" [.object [("a", .constant "String")]]) []],
        ⟨[("T", .construct "Object" [.object [("a", .constant "String")]])]⟩⟩ := rfl
  rw [hvalue] at hbefore
  cases hbefore
  exact ⟨_, hvalue, rfl, houtcome⟩

/-- In both files the access finds the `T` of the file, though another one is closer. -/
theorem not_keepsToScope :
    ¬ KeepsToScope parameterHidesFile ∧ ¬ KeepsToScope namespaceHidesFile := by
  have haccess := accessPath_sampleAccess "T" "\"a\""
  constructor
  · intro h
    have hat : StatementAt parameterHidesFile [sampleRecord "a" "string"] _
        (.sampleAlias "G" [.sampleParameter "T"] (.sampleAccess "T" "\"a\"")) :=
      ⟨_, [], rfl, rfl, .refl⟩
    exact not_isFailedAccess_string
      (h _ _ _ _ _ _ _ _ hat rfl rfl List.mem_cons_self .refl haccess (Or.inl rfl))
  · intro h
    have hscope : StatementAt namespaceHidesFile [sampleRecord "a" "string"]
        (some (sampleRecord "a" "string")) (.sampleNamespace "N" _) := ⟨_, [], rfl, rfl, .refl⟩
    have hdeclares : Node.Declares "T" (sampleRecord "b" "number") := .named (by decide) rfl
    exact not_isFailedAccess_string
      (h _ _ _ _ _ _ _ _ statementAt_namespaceHidesFile rfl rfl List.mem_cons_self .refl haccess
        (Or.inr ⟨_, _, _, _, hscope, by decide, ⟨_, .head _, hdeclares⟩,
          statementWithin_sampleNamespace⟩))

end Schemata

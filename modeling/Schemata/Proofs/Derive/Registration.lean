import Schemata.Proofs.Derive.StatementLaw
import Schemata.Proofs.Mapping

/-!
# What a file registers

After any number of statements the registry is the last-wins map of the plain schema declarations
that the file itself made so far: generic ones, enumerations, statements passed through and
everything inside a namespace leave it alone. So an access to a name that no earlier statement of
the file declared plainly finds nothing, however the name is declared elsewhere.

Registering is the last thing the derivation of a declaration does. Everything before it is silent,
which the laws for types and statements show at once, and the one event is then read off the
declaration.
-/

namespace Schemata

/-- What a declaration of the file itself registers: only schemas without type parameters do. -/
def Declaration.registration? : Declaration → Option (String × Expr)
  | .schema name _ body [] => some (name, body)
  | _ => none

theorem Declaration.eq_of_registration? {declaration : Declaration} {name : String} {body : Expr}
    (h : declaration.registration? = some (name, body)) :
    ∃ exported, declaration = .schema name exported body [] := by
  cases declaration with
  | schema declared exported own parameters =>
    cases parameters with
    | nil =>
      cases h
      exact ⟨exported, rfl⟩
    | cons => cases h
  | _ => cases h

def registrations (events : List Event) : List (String × Expr) :=
  events.filterMap fun
    | .registered name body => some (name, body)
    | _ => none

@[simp] theorem registrations_nil : registrations [] = [] := rfl

theorem registrations_append (front back : List Event) :
    registrations (front ++ back) = registrations front ++ registrations back :=
  List.filterMap_append

theorem Registry.apply_eq (registry : Registry) (events : List Event) :
    registry.apply events =
      ⟨(registrations events).foldl (fun entries pair => setEntry pair.1 pair.2 entries)
        registry.entries⟩ := by
  induction events generalizing registry with
  | nil => rfl
  | cons event rest ih =>
    cases event with
    | registered name body => exact ih (registry.register name body)
    | noted diagnostic => exact ih registry
    | needsSchema => exact ih registry
    | needsGenerics => exact ih registry

theorem Registry.get?_apply (registry : Registry) (events : List Event) (name : String) :
    (registry.apply events).get? name =
      (lastValue? name (registrations events)).or (registry.get? name) := by
  rw [Registry.apply_eq, Registry.get?, valueAt?_foldl_setEntry]
  rfl

theorem Registry.apply_of_registrations_eq_nil {events : List Event}
    (h : registrations events = []) (registry : Registry) : registry.apply events = registry := by
  rw [Registry.apply_eq, h]
  rfl

/-! ### Silent reports -/

/-- Whatever happens, nothing is registered. -/
def withoutRegistrations : Judgement where
  benign _ := True
  assured event := ∀ name body, event ≠ .registered name body

theorem registrations_of_holds {α : Type} {good : α → Prop} {x : Report α}
    (h : withoutRegistrations.holds good x) : registrations x.events = [] := by
  obtain ⟨hassured, -⟩ := h fun _ _ => trivial
  refine List.filterMap_eq_nil_iff.2 fun event hevent => ?_
  cases event with
  | registered name body => exact absurd rfl (hassured _ hevent name body)
  | noted diagnostic => rfl
  | needsSchema => rfl
  | needsGenerics => rfl

/-- Types register nothing. -/
theorem silentTypeLaw (find : String → Option Expr) :
    TypeLaw withoutRegistrations find fun _ => True :=
  .ofNoted withoutRegistrations find (by simp [withoutRegistrations])

/-- Neither do statements that do not stand in the file itself. -/
theorem silentStatementLaw (find : String → Option Expr) :
    StatementLaw withoutRegistrations find (fun _ => True) (fun _ => True) False
      (fun _ => True) where
  toTypeLaw := silentTypeLaw find
  recursive _ _ _ := trivial
  schema _ _ _ _ _ := trivial
  enumeration _ _ _ := trivial
  scope _ _ _ _ _ := trivial
  kept _ _ _ _ := trivial
  remarkedStatement label :=
    withoutRegistrations.ofBind
      (withoutRegistrations.ofEmit (by simp [withoutRegistrations, unsupported]))
      fun _ _ => withoutRegistrations.ofPure (by simp)
  needsSchema := by simp [withoutRegistrations]
  needsGenerics := by simp [withoutRegistrations]
  registered h := h.elim

theorem registrations_nested_statement (find : String → Option Expr) (exported : Bool)
    (previous : Option Node) (node : Node) :
    registrations (statement find false exported previous node).events = [] :=
  registrations_of_holds
    ((silentStatementLaw find).statement (by simp) exported previous node fun _ _ => trivial)

theorem registrations_scopeBody (find : String → Option Expr) (nodes : List Node) :
    registrations (scopeBody find nodes).events = [] :=
  registrations_of_holds ((silentStatementLaw find).scopeBody nodes fun _ _ => trivial)

/-! ### What a statement of the file registers -/

/-- The registrations of a report are exactly those of the declaration it yields. -/
def Report.RegistersValue (x : Report (Option Declaration)) : Prop :=
  registrations x.events =
    match x.result with
    | .ok found => (found.bind Declaration.registration?).toList
    | .error _ => []

namespace Report

variable {α : Type}

/-- Silent reports in front do not count. -/
theorem registersValue_bind {x : Report α} {f : α → Report (Option Declaration)}
    (hx : registrations x.events = []) (hf : ∀ a, (f a).RegistersValue) :
    (x >>= f).RegistersValue := by
  cases h : x.result with
  | error cause =>
    rw [RegistersValue, events_bind_of_error h, result_bind_of_error h, hx]
  | ok a =>
    rw [RegistersValue, events_bind_of_ok h, result_bind_of_ok h, registrations_append, hx,
      List.nil_append]
    exact hf a

end Report

theorem registersValue_schemaDeclaration (exported : Bool) (name : String)
    (parameters : List String) (body : Expr) :
    (some <$> schemaDeclaration true exported name parameters body).RegistersValue := by
  cases parameters <;> rfl

theorem registersValue_aliasDeclaration (find : String → Option Expr) (exported : Bool)
    (comment : Option Node) (node : Node) :
    (some <$> aliasDeclaration find true exported comment node).RegistersValue := by
  have law := silentTypeLaw find
  simp only [aliasDeclaration, map_bind]
  refine Report.registersValue_bind rfl fun _ => ?_
  refine Report.registersValue_bind (registrations_of_holds (Judgement.holds_require _ _ _))
    fun name => ?_
  refine Report.registersValue_bind (registrations_of_holds (StatementLaw.parameterNames node))
    fun parameters => ?_
  refine Report.registersValue_bind (registrations_of_holds (law.roleExpr .value node.children))
    fun body => ?_
  refine Report.registersValue_bind (registrations_of_holds (law.docOptions comment))
    fun options => ?_
  refine Report.registersValue_bind
    (registrations_of_holds (law.withOptions node.label trivial fun _ _ => trivial)) fun result => ?_
  exact registersValue_schemaDeclaration exported name parameters _

theorem registersValue_interfaceDeclaration (find : String → Option Expr) (exported : Bool)
    (comment : Option Node) (node : Node) :
    (some <$> interfaceDeclaration find true exported comment node).RegistersValue := by
  have law := silentStatementLaw find
  simp only [interfaceDeclaration, map_bind]
  refine Report.registersValue_bind rfl fun _ => ?_
  refine Report.registersValue_bind (registrations_of_holds (Judgement.holds_require _ _ _))
    fun name => ?_
  refine Report.registersValue_bind (registrations_of_holds (StatementLaw.parameterNames node))
    fun parameters => ?_
  refine Report.registersValue_bind (registrations_of_holds
    (Judgement.holds_mapM _ _ fun clause _ => law.heritageClause clause)) fun heritage => ?_
  refine Report.registersValue_bind (registrations_of_holds (law.interfaceFields node))
    fun fields => ?_
  refine Report.registersValue_bind (registrations_of_holds (law.docOptions comment))
    fun options => ?_
  refine Report.registersValue_bind
    (registrations_of_holds (law.withOptions node.label trivial fun _ _ => trivial)) fun own => ?_
  exact registersValue_schemaDeclaration exported name parameters _

theorem registersValue_enumDeclaration (exported : Bool) (node : Node) :
    (some <$> enumDeclaration exported node).RegistersValue := by
  simp only [enumDeclaration, map_bind]
  refine Report.registersValue_bind rfl fun _ => ?_
  refine Report.registersValue_bind (registrations_of_holds (Judgement.holds_require _ _ _))
    fun name => ?_
  rfl

theorem registersValue_scope (find : String → Option Expr) (exported : Bool) (keyword : String)
    (children : List Node) :
    (do
      let name ← nameText children
      return some (.scope name exported keyword (← scopeBody find children)) :
        Report (Option Declaration)).RegistersValue := by
  refine Report.registersValue_bind (registrations_of_holds (Judgement.holds_require _ _ _))
    fun name => ?_
  refine Report.registersValue_bind (registrations_scopeBody find children) fun body => ?_
  rfl

theorem registersValue_unsupportedStatement (label : Label) :
    (unsupportedStatement label).RegistersValue := rfl

theorem onlyPart_eq (find : String → Option Expr) (exported : Bool) {part : Node}
    {rest : List Node} {children : List Node} (h : children.filter Node.isPart = part :: rest) :
    onlyPart find exported children = statement find false exported none part := by
  induction children with
  | nil => cases h
  | cons node tail ih =>
    rw [onlyPart]
    by_cases hpart : node.isPart = true
    · rw [List.filter_cons_of_pos hpart] at h
      rw [if_pos hpart, (List.cons.inj h).1]
    · rw [List.filter_cons_of_neg hpart] at h
      rw [if_neg hpart, ih h]

mutual

/-- A statement of the file registers what its declaration says, and nothing else. -/
theorem registersValue_statement (find : String → Option Expr) (exported : Bool)
    (previous : Option Node) :
    (node : Node) → (statement find true exported previous node).RegistersValue
  | .mk label children => by
    rw [statement]
    split
    · rfl
    · rfl
    · rfl
    · rfl
    · rfl
    · exact registersValue_aliasDeclaration find exported _ _
    · exact registersValue_interfaceDeclaration find exported _ _
    · exact registersValue_enumDeclaration exported _
    · exact registersValue_scope find exported _ children
    · exact registersValue_scope find exported _ children
    · cases hfound : exportedStatement? find true previous children with
      | none => exact registersValue_unsupportedStatement label
      | some report => exact registersValue_exportedStatement? find previous children report hfound
    · split
      · rename_i part hpart
        split
        · rename_i hinternal
          obtain ⟨partLabel, partChildren⟩ := part
          have hkind : partLabel.kind = .internalModule := eq_of_beq hinternal
          rw [onlyPart_eq find exported hpart, statement, hkind]
          exact registersValue_scope find exported _ partChildren
        · exact registersValue_unsupportedStatement label
      · exact registersValue_unsupportedStatement label
    · exact registersValue_unsupportedStatement label

theorem registersValue_exportedStatement? (find : String → Option Expr) (previous : Option Node) :
    (nodes : List Node) → ∀ report ∈ exportedStatement? find true previous nodes,
      report.RegistersValue
  | [] => by simp [exportedStatement?]
  | node :: rest => by
    rw [exportedStatement?]
    split
    · rintro _ ⟨⟩
      exact registersValue_statement find true previous node
    · exact registersValue_exportedStatement? find previous rest

end

/-- A statement whose declaration is no plain schema leaves every registry as it is. -/
theorem apply_statement_of_not_plain (find : String → Option Expr) (previous : Option Node)
    (node : Node)
    (h : ∀ name exported body, (statement find true false previous node).result ≠
      .ok (some (.schema name exported body []))) (registry : Registry) :
    registry.apply (statement find true false previous node).events = registry := by
  apply Registry.apply_of_registrations_eq_nil
  rw [registersValue_statement find false previous node]
  split
  · rename_i found hfound
    cases found with
    | none => rfl
    | some declaration =>
      cases declaration with
      | schema name exported body parameters =>
        cases parameters with
        | nil => exact absurd hfound (h name exported body)
        | cons => rfl
      | _ => rfl
  · rfl

/-! ### Along a file -/

/-- The registry after some statements: the registrations of their declarations, in order, on top of
what was there. -/
theorem statements_registry {nodes : List Node} {registry : Registry} {previous : Option Node}
    {derived : DerivedFile} (h : (statements registry previous nodes).result = .ok derived) :
    derived.registry = ⟨(derived.declarations.filterMap Declaration.registration?).foldl
      (fun entries pair => setEntry pair.1 pair.2 entries) registry.entries⟩ := by
  induction nodes generalizing registry previous derived with
  | nil =>
    rw [statements, Report.result_pure] at h
    cases h
    rfl
  | cons node rest ih =>
    rw [statements] at h
    split at h
    · obtain ⟨found, hfound, h⟩ := Report.result_bind_eq_ok.1 h
      obtain ⟨tail, htail, h⟩ := Report.result_bind_eq_ok.1 h
      cases h
      have hvalue := registersValue_statement registry.get? false previous node
      rw [Report.RegistersValue, hfound] at hvalue
      have hhead : found.toList.filterMap Declaration.registration? =
          (found.bind Declaration.registration?).toList := by
        cases found with
        | none => rfl
        | some declaration => cases hd : declaration.registration? <;> simp [hd]
      dsimp only
      rw [ih htail, Registry.apply_eq, hvalue, List.filterMap_append, hhead, List.foldl_append]
    · exact ih h

/-- A file is derived in two stretches, the second one from the registry that the first one left. -/
theorem statements_append (registry : Registry) (previous : Option Node) (front back : List Node) :
    statements registry previous (front ++ back) = (do
      let first ← statements registry previous front
      let second ← statements first.registry (front.getLast?.or previous) back
      return ⟨first.declarations ++ second.declarations, second.registry⟩) := by
  induction front generalizing registry previous with
  | nil => simp [statements]
  | cons node rest ih =>
    have hlast : (node :: rest).getLast?.or previous = rest.getLast?.or (some node) := by
      cases rest with
      | nil => rfl
      | cons next more =>
        rw [List.getLast?_cons_cons]
        simp [List.getLast?_cons]
    rw [List.cons_append, statements, statements, hlast]
    split
    · simp only [ih, bind_assoc, pure_bind, List.append_assoc]
    · exact ih registry (some node)

/-! ### Accesses -/

/-- An access, of any depth, whose innermost base is a reference of the given text. -/
inductive AccessOn (name : String) : Node → Prop where
  | direct {node base key : Node} {more : List Node} (hkind : node.kind = .lookupType)
      (hparts : node.parts = base :: key :: more) (hbase : base.kind.isReference = true)
      (htext : base.text = name) : AccessOn name node
  | through {node inner key : Node} {more : List Node} (hkind : node.kind = .lookupType)
      (hparts : node.parts = inner :: key :: more) (hinner : AccessOn name inner) :
      AccessOn name node

theorem AccessOn.kind_eq {name : String} {node : Node} (h : AccessOn name node) :
    node.kind = .lookupType := by
  cases h <;> assumption

theorem baseAndKey_eq {node base key : Node} {more : List Node}
    (h : node.parts = base :: key :: more) : node.baseAndKey = pure (base, key) := by
  rw [Node.baseAndKey, h]

/-- The report of an access that finds nothing: one diagnostic, and the marker in its place. -/
def Report.IsFailedAccess (x : Report Expr) : Prop :=
  ∃ diagnostic, diagnostic.concern = .indexedAccess ∧
    x = ⟨[.noted diagnostic], .ok (.raw accessErrorMarker)⟩

theorem isFailedAccess_failedAccess (node : Node) (message : String) :
    (failedAccess node message accessErrorMarker).IsFailedAccess :=
  ⟨_, rfl, rfl⟩

theorem isFailedAccess_resolveShallow {find : String → Option Expr} {node base key : Node}
    {more : List Node} (hparts : node.parts = base :: key :: more) (hfind : find base.text = none) :
    (resolveShallow find node).IsFailedAccess := by
  rw [resolveShallow, baseAndKey_eq hparts, pure_bind]
  simp only [hfind]
  exact isFailedAccess_failedAccess node _

theorem isFailedAccess_resolveDeep {find : String → Option Expr} {node inner key : Node}
    {more : List Node} (hparts : node.parts = inner :: key :: more)
    (hinner : (resolveShallow find inner).IsFailedAccess) :
    (resolveDeep find node).IsFailedAccess := by
  obtain ⟨diagnostic, hconcern, heq⟩ := hinner
  refine ⟨diagnostic, hconcern, ?_⟩
  rw [resolveDeep, baseAndKey_eq hparts, pure_bind]
  simp only [heq]
  rfl

/-- An access to a name that cannot be looked up fails, whatever its depth. -/
theorem isFailedAccess_typeExpr {find : String → Option Expr} {name : String}
    (hfind : find name = none) {node : Node} (h : AccessOn name node) :
    (typeExpr find node).IsFailedAccess := by
  have hresolve : typeExpr find node = resolveAccess find node := by
    obtain ⟨label, children⟩ := node
    have hkind : label.kind = .lookupType := h.kind_eq
    rw [typeExpr, hkind]
  rw [hresolve]
  cases h with
  | direct hkind hparts hbase htext =>
    rw [resolveAccess, baseAndKey_eq hparts, pure_bind]
    simp only [hbase, if_true]
    exact isFailedAccess_resolveShallow hparts (htext ▸ hfind)
  | through hkind hparts hinner =>
    rw [resolveAccess, baseAndKey_eq hparts, pure_bind]
    simp only [hinner.kind_eq, beq_self_eq_true, if_true]
    -- two levels are resolved on the way, a third one is refused as such
    cases hinner with
    | direct _ hinnerParts hbase htext =>
      rw [baseAndKey_eq hinnerParts, pure_bind]
      simp only [hbase, if_true]
      exact isFailedAccess_resolveDeep hparts
        (isFailedAccess_resolveShallow hinnerParts (htext ▸ hfind))
    | through _ hinnerParts hdeep =>
      rw [baseAndKey_eq hinnerParts, pure_bind]
      simp only [hdeep.kind_eq]
      exact isFailedAccess_failedAccess node _

end Schemata

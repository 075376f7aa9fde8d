import Mathlib.Data.List.Nodup
import Mathlib.Data.List.Pairwise
import Schemata.Proofs.Derive.SchemaParts
import Schemata.Proofs.Schema.Folding

/-!
# Names in a scope

Types and values have names of their own, but not every pair of types leaves the values apart: an
enumeration gets a constant of its name and a block whose name is that name with `Enum` behind it.
So in one scope, a file or the body of a namespace, values of the same name can only come from an
enumeration and a type that is called like its block.
-/

namespace Schemata

/-- A type that is declared by an alias, an interface or an enumeration. -/
structure DeclaredType where
  name : String
  isEnum : Bool
  deriving DecidableEq, Repr

def DeclaredType.valueNames (type : DeclaredType) : List String :=
  if type.isEnum then [type.name ++ "Enum", type.name] else [type.name]

/-- The names of the values that the code of a declaration declares in its own scope. -/
def Declaration.valueNames : Declaration → List String
  | .schema name _ _ _ => [name]
  | .enumeration name _ _ => [name ++ "Enum", name]
  | _ => []

namespace Node

mutual

def declaredType? : Node → Option DeclaredType
  | mk label children =>
    match label.kind with
    | .typeAlias | .interface => (first? .name children).map fun name => ⟨name.text, false⟩
    | .enumeration => (first? .name children).map fun name => ⟨name.text, true⟩
    | .exportStatement => exportedType? children
    | _ => none

def exportedType? : List Node → Option DeclaredType
  | [] => none
  | node :: rest =>
    if node.label.role == some .declaration then declaredType? node else exportedType? rest

end

def declaredTypes (nodes : List Node) : List DeclaredType :=
  (nodes.filter fun node => node.label.named).filterMap declaredType?

theorem exportedType?_eq (nodes : List Node) :
    exportedType? nodes = (first? .declaration nodes).bind declaredType? := by
  induction nodes with
  | nil => rfl
  | cons node rest ih =>
    obtain ⟨label, children⟩ := node
    rw [exportedType?, first?_cons, ih]
    by_cases hrole : (label.role == some .declaration) = true
    · rw [if_pos hrole]
      exact if_pos hrole
    · rw [if_neg hrole]
      exact if_neg hrole

theorem declaredTypes_cons (node : Node) (rest : List Node) :
    declaredTypes (node :: rest) =
      (if node.label.named then node.declaredType?.toList else []) ++ declaredTypes rest := by
  rw [declaredTypes, declaredTypes, List.filter_cons]
  split
  · rw [List.filterMap_cons]
    cases node.declaredType? <;> rfl
  · rfl

end Node

/-! ### Equal names -/

theorem append_enum_ne (name : String) : name ++ "Enum" ≠ name := by
  intro h
  have hlength := congrArg String.length h
  simp [String.length_append] at hlength

theorem DeclaredType.mem_valueNames_iff {type : DeclaredType} {value : String} :
    value ∈ type.valueNames ↔
      value = type.name ∨ type.isEnum = true ∧ value = type.name ++ "Enum" := by
  unfold valueNames
  split <;> simp_all [or_comm]

/-- Types of different names share no value name unless one is called like the block of the
other. -/
theorem disjoint_valueNames {type other : DeclaredType} (hname : type.name ≠ other.name)
    (hblock : type.isEnum = true → other.name ≠ type.name ++ "Enum")
    (hother : other.isEnum = true → type.name ≠ other.name ++ "Enum") :
    List.Disjoint type.valueNames other.valueNames := by
  intro value hvalue hvalue'
  rcases DeclaredType.mem_valueNames_iff.1 hvalue with rfl | ⟨henum, rfl⟩
  · rcases DeclaredType.mem_valueNames_iff.1 hvalue' with heq | ⟨henum, heq⟩
    · exact hname heq
    · exact hother henum heq
  · rcases DeclaredType.mem_valueNames_iff.1 hvalue' with heq | ⟨-, heq⟩
    · exact hblock henum heq.symm
    · exact hname (String.append_left_inj _ |>.1 heq)

theorem nodup_valueNames (type : DeclaredType) : type.valueNames.Nodup := by
  unfold DeclaredType.valueNames
  split
  · exact List.nodup_cons.2 ⟨by simp, List.nodup_singleton _⟩
  · exact List.nodup_singleton _

theorem nodup_flatMap_valueNames_iff {types : List DeclaredType}
    (hnames : (types.map DeclaredType.name).Nodup) :
    (types.flatMap DeclaredType.valueNames).Nodup ↔
      ∀ type ∈ types, type.isEnum = true → ∀ other ∈ types, other.name ≠ type.name ++ "Enum" := by
  rw [List.nodup_flatMap]
  constructor
  · rintro ⟨-, hdisjoint⟩ type htype henum other hother hname
    have hne : type ≠ other := by
      rintro rfl
      exact append_enum_ne type.name hname.symm
    have hsymm : Std.Symm (Function.onFun List.Disjoint DeclaredType.valueNames) :=
      ⟨fun _ _ h => List.disjoint_symm h⟩
    have happart := hdisjoint.forall htype hother hne
    exact happart (DeclaredType.mem_valueNames_iff.2 (Or.inr ⟨henum, hname⟩))
      (DeclaredType.mem_valueNames_iff.2 (Or.inl rfl))
  · intro h
    refine ⟨fun type _ => nodup_valueNames type, ?_⟩
    refine (List.pairwise_map.1 hnames).imp_of_mem fun {type other} htype hother hne => ?_
    exact disjoint_valueNames hne (fun henum => h type htype henum other hother)
      (fun henum => h other hother henum type htype)

/-! ### What a statement declares -/

section Statements

variable {find : String → Option Expr}

theorem valueNames_of_schema {node : Node} (hkind : node.kind.isSchema = true)
    {topLevel exported : Bool} {previous : Option Node} {found : Option Declaration}
    (h : (statement find topLevel exported previous node).result = .ok found) :
    found.toList.flatMap Declaration.valueNames =
      node.declaredType?.toList.flatMap DeclaredType.valueNames := by
  rw [statement_eq_schemaStatement hkind, map_eq_pure_bind] at h
  obtain ⟨declaration, hdeclaration, h⟩ := Report.result_bind_eq_ok.1 h
  obtain ⟨parts, rfl, hparts⟩ := exists_schemaParts hdeclaration
  cases h
  have hname := hparts.name
  obtain ⟨label, children⟩ := node
  have htype : (Node.mk label children).declaredType? = some ⟨parts.name, false⟩ := by
    obtain ⟨child, hchild, htext⟩ := Option.map_eq_some_iff.1 hname
    have hfirst : Node.first? .name children = some child := hchild
    rw [Node.declaredType?]
    rcases Kind.eq_of_isSchema hkind with hkind | hkind
    · rw [show label.kind = .typeAlias from hkind, hfirst, ← htext]
      rfl
    · rw [show label.kind = .interface from hkind, hfirst, ← htext]
      rfl
  rw [htype]
  rfl

theorem valueNames_of_enumeration {node : Node} (hkind : node.kind = .enumeration)
    {exported : Bool} {found : Option Declaration}
    (h : (some <$> enumDeclaration exported node).result = .ok found) :
    found.toList.flatMap Declaration.valueNames =
      node.declaredType?.toList.flatMap DeclaredType.valueNames := by
  rw [map_eq_pure_bind] at h
  obtain ⟨declaration, henum, h⟩ := Report.result_bind_eq_ok.1 h
  obtain ⟨_, -, henum⟩ := Report.result_bind_eq_ok.1 henum
  obtain ⟨name, hname, henum⟩ := Report.result_bind_eq_ok.1 henum
  cases henum
  cases h
  obtain ⟨child, hchild, htext⟩ := Option.map_eq_some_iff.1 (nameText_eq_ok node hname)
  obtain ⟨label, children⟩ := node
  have hfirst : Node.first? .name children = some child := hchild
  rw [Node.declaredType?, show label.kind = .enumeration from hkind, hfirst, ← htext]
  rfl

theorem valueNames_of_scope {children : List Node} {keyword : String} {exported : Bool}
    {found : Option Declaration}
    (h : (do
      let name ← nameText children
      return some (.scope name exported keyword (← scopeBody find children)) :
        Report (Option Declaration)).result = .ok found) :
    found.toList.flatMap Declaration.valueNames = [] := by
  obtain ⟨name, -, h⟩ := Report.result_bind_eq_ok.1 h
  obtain ⟨body, -, h⟩ := Report.result_bind_eq_ok.1 h
  cases h
  rfl

theorem valueNames_of_unsupported {label : Label} {found : Option Declaration}
    (h : (unsupportedStatement label).result = .ok found) :
    found.toList.flatMap Declaration.valueNames = [] := by
  obtain ⟨_, -, h⟩ := Report.result_bind_eq_ok.1 h
  cases h
  rfl

theorem declaredType?_of_internalModule {node : Node}
    (hkind : (node.kind == .internalModule) = true) : node.declaredType? = none := by
  obtain ⟨label, children⟩ := node
  rw [Node.declaredType?, show label.kind = .internalModule from eq_of_beq hkind]

/-- A statement declares values exactly for the type that it declares. -/
theorem valueNames_of_statement {node : Node} {topLevel exported : Bool} {previous : Option Node}
    {found : Option Declaration}
    (h : (statement find topLevel exported previous node).result = .ok found) :
    found.toList.flatMap Declaration.valueNames =
      node.declaredType?.toList.flatMap DeclaredType.valueNames := by
  induction node using Node.induct generalizing topLevel exported previous with
  | step node ih =>
    by_cases hschema : node.kind.isSchema = true
    · exact valueNames_of_schema hschema h
    obtain ⟨label, children⟩ := node
    rw [statement] at h
    rw [Node.declaredType?]
    split at h <;> rename_i hkind
    -- left out
    · cases h
      simp [hkind]
    · cases h
      simp [hkind]
    -- passed through
    · cases h
      simp [hkind, Declaration.valueNames]
    · cases h
      simp [hkind, Declaration.valueNames]
    · cases h
      simp [hkind, Declaration.valueNames]
    -- declarations
    · exact absurd (congrArg Kind.isSchema hkind) hschema
    · exact absurd (congrArg Kind.isSchema hkind) hschema
    · rw [@valueNames_of_enumeration (.mk label children) hkind _ _ h, Node.declaredType?]
    · simp [hkind, valueNames_of_scope h]
    · simp [hkind, valueNames_of_scope h]
    -- an export
    · rw [hkind, Node.exportedType?_eq]
      rw [exportedStatement?_eq] at h
      cases hinner : Node.first? .declaration children with
      | none =>
        rw [hinner] at h
        simp [valueNames_of_unsupported h]
      | some inner =>
        rw [hinner] at h
        exact ih inner (Node.mem_descendants_of_child? hinner) h
    -- an expression, which may be a namespace
    · rw [hkind]
      split at h
      · rename_i part hparts
        split at h
        · rename_i hinternal
          have hpart : part ∈ children.filter Node.isPart := hparts ▸ List.mem_cons_self
          rw [onlyPart_eq find exported hparts] at h
          rw [ih part (Node.mem_descendants_of_mem_parts hpart) h,
            declaredType?_of_internalModule hinternal]
        · simp [valueNames_of_unsupported h]
      · simp [valueNames_of_unsupported h]
    · rw [valueNames_of_unsupported h]
      split <;> simp_all [Kind.isSchema, Node.kind, Node.label]

theorem valueNames_of_scopeStatements {nodes : List Node} {previous : Option Node}
    {body : List Declaration} (h : (scopeStatements find previous nodes).result = .ok body) :
    body.flatMap Declaration.valueNames =
      (Node.declaredTypes nodes).flatMap DeclaredType.valueNames := by
  induction nodes generalizing previous body with
  | nil =>
    cases h
    rfl
  | cons node rest ih =>
    rw [scopeStatements] at h
    rw [Node.declaredTypes_cons, List.flatMap_append]
    split at h <;> rename_i hnamed
    · obtain ⟨found, hfound, h⟩ := Report.result_bind_eq_ok.1 h
      obtain ⟨more, hmore, h⟩ := Report.result_bind_eq_ok.1 h
      cases h
      rw [if_pos hnamed, List.flatMap_append, valueNames_of_statement hfound, ih hmore]
    · rw [if_neg hnamed, List.flatMap_nil, List.nil_append, ih h]

theorem valueNames_of_statements {nodes : List Node} {registry : Registry}
    {previous : Option Node} {derived : DerivedFile}
    (h : (statements registry previous nodes).result = .ok derived) :
    derived.declarations.flatMap Declaration.valueNames =
      (Node.declaredTypes nodes).flatMap DeclaredType.valueNames := by
  induction nodes generalizing registry previous derived with
  | nil =>
    cases h
    rfl
  | cons node rest ih =>
    rw [statements] at h
    rw [Node.declaredTypes_cons, List.flatMap_append]
    split at h <;> rename_i hnamed
    · obtain ⟨found, hfound, h⟩ := Report.result_bind_eq_ok.1 h
      obtain ⟨tail, htail, h⟩ := Report.result_bind_eq_ok.1 h
      cases h
      rw [if_pos hnamed, List.flatMap_append, valueNames_of_statement hfound, ih htail]
    · rw [if_neg hnamed, List.flatMap_nil, List.nil_append, ih h]

theorem exists_scope_of_statement {node : Node}
    (hkind : node.kind = .internalModule ∨ node.kind = .externalModule) {topLevel exported : Bool}
    {previous : Option Node} {found : Option Declaration}
    (h : (statement find topLevel exported previous node).result = .ok found) :
    ∃ name body, found = some (.scope name exported (scopeKeyword node.kind) body) ∧
      (node.child? .name).map Node.text = some name ∧
      (scopeBody find node.children).result = .ok body := by
  obtain ⟨label, children⟩ := node
  have hstatement : statement find topLevel exported previous (.mk label children) = (do
      let name ← nameText children
      return some (.scope name exported (scopeKeyword label.kind)
        (← scopeBody find children))) := by
    rcases hkind with hkind | hkind
    · rw [statement, show label.kind = .internalModule from hkind]
    · rw [statement, show label.kind = .externalModule from hkind]
  rw [hstatement] at h
  obtain ⟨name, hname, h⟩ := Report.result_bind_eq_ok.1 h
  obtain ⟨body, hbody, h⟩ := Report.result_bind_eq_ok.1 h
  cases h
  exact ⟨name, body, rfl, nameText_eq_ok (.mk label children) hname, hbody⟩

end Statements

/-! ### The code of a declaration -/

/-- A line of the code begins with the declaration of a constant or a block of that name. -/
def DeclaresValue (code name : String) : Prop :=
  ∃ front head back : String, ∃ exported : Bool,
    head ∈ ["const " ++ name ++ " = ", "enum " ++ name ++ " "] ∧
    code = front ++ (exportWord exported ++ head ++ back) ∧
    (front = "" ∨ ∃ lines, front = lines ++ "\n")

theorem declaresValue_of_render {declaration : Declaration} {code name : String}
    (h : declaration.render = .ok code) (hname : name ∈ declaration.valueNames) :
    DeclaresValue code name := by
  cases declaration with
  | schema own exported body parameters =>
    rw [Declaration.valueNames, List.mem_singleton] at hname
    subst hname
    rw [Declaration.render] at h
    obtain ⟨inner, -, h⟩ := bind_eq_ok_iff.1 h
    cases h
    obtain ⟨rest, hrest⟩ : ∃ rest, valueLines name exported parameters inner =
      exportWord exported ++ "const " ++ name ++ " = " ++ rest := ⟨_, rfl⟩
    refine ⟨staticLine name exported parameters ++ "\n", _, rest, exported, List.mem_cons_self, ?_,
      Or.inr ⟨_, rfl⟩⟩
    rw [hrest]
    simp only [String.append_assoc]
  | enumeration own exported members =>
    cases h
    obtain ⟨block, hblock⟩ : ∃ block, enumerationText own exported members =
      exportWord exported ++ "enum " ++ own ++ "Enum " ++ block ++ "\n\n" ++ exportWord exported ++
        "const " ++ own ++ " = Type.Enum(" ++ own ++ "Enum)" := ⟨_, rfl⟩
    rw [hblock]
    simp only [Declaration.valueNames, List.mem_cons, List.not_mem_nil, or_false] at hname
    rcases hname with rfl | rfl
    · refine ⟨"", _, block ++ "\n\n" ++ exportWord exported ++ "const " ++ own ++
        " = Type.Enum(" ++ own ++ "Enum)", exported, List.mem_cons_of_mem _ List.mem_cons_self, ?_,
        Or.inl rfl⟩
      rw [← String.toList_inj]
      simp [String.toList_append]
    · refine ⟨exportWord exported ++ "enum " ++ name ++ "Enum " ++ block ++ "\n\n", _,
        "Type.Enum(" ++ name ++ "Enum)", exported, List.mem_cons_self, ?_,
        Or.inr ⟨exportWord exported ++ "enum " ++ name ++ "Enum " ++ block ++ "\n", ?_⟩⟩
      all_goals
        rw [← String.toList_inj]
        simp [String.toList_append]
  | scope => cases hname
  | verbatim => cases hname
  | bare => cases hname

/-! ### Scopes of a file -/

/-- The statements of a file, or of the body of a namespace in it, and what is declared for them. -/
inductive ScopeOf (root : Node) (derived : DerivedFile) : List Node → List Declaration → Prop where
  | file : ScopeOf root derived root.children derived.declarations
  | body {front : List Node} {previous : Option Node} {node block : Node} {before : DerivedFile}
      {topLevel exported : Bool} {name keyword : String} {body : List Declaration}
      (hat : StatementAt root front previous node)
      (hkind : node.kind = .internalModule ∨ node.kind = .externalModule)
      (hblock : node.child? .body = some block)
      (hbefore : (statements .empty none front).result = .ok before)
      (hfound : (statement before.registry.get? topLevel exported previous node).result =
        .ok (some (.scope name exported keyword body)))
      (hmem : .scope name exported keyword body ∈ Declaration.nestedOf derived.declarations) :
      ScopeOf root derived block.children body

theorem exists_scopeOf {root node block : Node} {front : List Node} {previous : Option Node}
    {derived : DerivedFile} (hderived : (deriveFile root).result = .ok derived)
    (hat : StatementAt root front previous node)
    (hkind : node.kind = .internalModule ∨ node.kind = .externalModule)
    (hblock : node.child? .body = some block) :
    ∃ body, ScopeOf root derived block.children body := by
  obtain ⟨before, topLevel, exported, found, hbefore, -, hfound, -, hdeclared⟩ :=
    exists_found_of_statementAt hderived hat
  obtain ⟨name, body, rfl, -, -⟩ := exists_scope_of_statement hkind hfound
  exact ⟨body, .body hat hkind hblock hbefore hfound
    (hdeclared (Declaration.mem_nestedOf_self (by simp)))⟩

theorem ScopeOf.valueNames_eq {root : Node} {derived : DerivedFile} {nodes : List Node}
    {body : List Declaration} (hderived : (deriveFile root).result = .ok derived)
    (h : ScopeOf root derived nodes body) :
    body.flatMap Declaration.valueNames =
      (Node.declaredTypes nodes).flatMap DeclaredType.valueNames := by
  cases h with
  | file => exact valueNames_of_statements hderived
  | body hat hkind hblock hbefore hfound hmem =>
    obtain ⟨name, body, hscope, -, hbody⟩ := exists_scope_of_statement hkind hfound
    cases hscope
    rw [scopeBody_eq, ← Node.child?_eq, hblock] at hbody
    exact valueNames_of_scopeStatements hbody

/-- **Names of values.** In every scope of a file that is derived the code declares one constant for
each type, and a block for each enumeration. Where the types of the scope have different names, so
have these values, unless a type is called like the block of an enumeration next to it. -/
theorem valueNames_of_derived {root : Node} {derived : DerivedFile}
    (hderived : (deriveFile root).result = .ok derived) :
    (∀ front previous node block, StatementAt root front previous node →
      node.kind = .internalModule ∨ node.kind = .externalModule →
      node.child? .body = some block → ∃ body, ScopeOf root derived block.children body) ∧
    ∀ nodes body, ScopeOf root derived nodes body →
      body.flatMap Declaration.valueNames =
        (Node.declaredTypes nodes).flatMap DeclaredType.valueNames ∧
      (∀ declaration ∈ body, ∀ code, declaration.render = .ok code →
        ∀ name ∈ declaration.valueNames, DeclaresValue code name) ∧
      (((Node.declaredTypes nodes).map DeclaredType.name).Nodup →
        ((body.flatMap Declaration.valueNames).Nodup ↔
          ∀ type ∈ Node.declaredTypes nodes, type.isEnum = true →
            ∀ other ∈ Node.declaredTypes nodes, other.name ≠ type.name ++ "Enum")) := by
  refine ⟨fun front previous node block hat hkind hblock =>
    exists_scopeOf hderived hat hkind hblock, ?_⟩
  intro nodes body hscope
  have hnames := hscope.valueNames_eq hderived
  refine ⟨hnames, fun declaration _ code hcode name hname => declaresValue_of_render hcode hname,
    ?_⟩
  intro hdistinct
  rw [hnames]
  exact nodup_flatMap_valueNames_iff hdistinct

/-- `enum A { X }` followed by an alias of the given name for `string`. -/
def enumBesideAlias (name : String) : Node :=
  .sample (.other "program") none "" [
    .sample .enumeration none "" [
      .sample (.other "identifier") (some .name) "A" [],
      .sample (.other "enum_body") (some .body) "" [
        .sample (.other "property_identifier") none "X" []]],
    .sampleAlias name [] (.sample .predefinedType (some .value) "string" [])]

theorem valueNames_enumBesideAlias :
    ∃ derived, (deriveFile (enumBesideAlias "B")).result = .ok derived ∧
      (derived.declarations.flatMap Declaration.valueNames).Nodup := by
  refine ⟨_, rfl, ?_⟩
  have hnames := ((@valueNames_of_derived (enumBesideAlias "B") _ rfl).2 _ _ .file).2.2
  exact (hnames (by decide)).2 (by decide)

/-- The block of `A` and the constant of `AEnum` have the same name. -/
theorem not_distinct_valueNames :
    ¬ ∀ root derived nodes body, (deriveFile root).result = .ok derived →
      ScopeOf root derived nodes body → ((Node.declaredTypes nodes).map DeclaredType.name).Nodup →
      (body.flatMap Declaration.valueNames).Nodup := by
  intro h
  have hdistinct := h (enumBesideAlias "AEnum") _ _ _ rfl .file (by decide)
  exact absurd hdistinct (by decide)

end Schemata

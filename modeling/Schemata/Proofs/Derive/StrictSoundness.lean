import Schemata.Proofs.Derive.StatementLaw
import Schemata.Proofs.Mapping
import Schemata.Proofs.Schema.Attachment
import Schemata.Proofs.Schema.Nesting

/-!
# Runs without diagnostics

A strict run refuses diagnostics, and that makes its output trustworthy: if a file is derived
without one, nothing in its declarations was passed through for want of a translation. The only
texts inside expressions are the arguments of `Literal` and the bare names of the built-in generic
types, and the only statements kept as they are are functions and classes.

Indexed accesses copy expressions from the registry without a word, so the registry takes part in
the invariant: what was registered in a run without diagnostics is as clean as what was derived.
-/

namespace Schemata

namespace Expr

mutual

/-- The texts that an expression passes through, each with the constructor it is an argument of. -/
def rawLeaves (host : Option String) : Expr → List (Option String × String)
  | .raw text => [(host, text)]
  | .call name args _ => rawLeavesOf (some name) args
  | .apply _ args => rawLeavesOf none args
  | .array items => rawLeavesOf none items
  | .object fields => rawLeavesOfFields fields
  | .recursive _ body => rawLeaves none body
  | .ref _ | .absent | .bare => []

def rawLeavesOf (host : Option String) : List Expr → List (Option String × String)
  | [] => []
  | expr :: rest => rawLeaves host expr ++ rawLeavesOf host rest

def rawLeavesOfFields : List (String × Expr) → List (Option String × String)
  | [] => []
  | (_, value) :: rest => rawLeaves none value ++ rawLeavesOfFields rest

end

theorem mem_rawLeavesOf {host : Option String} {exprs : List Expr} {leaf : Option String × String} :
    leaf ∈ rawLeavesOf host exprs ↔ ∃ expr ∈ exprs, leaf ∈ rawLeaves host expr := by
  induction exprs with
  | nil => simp [rawLeavesOf]
  | cons expr rest ih => simp [rawLeavesOf, ih]

theorem mem_rawLeavesOfFields {fields : List (String × Expr)} {leaf : Option String × String} :
    leaf ∈ rawLeavesOfFields fields ↔ ∃ field ∈ fields, leaf ∈ rawLeaves none field.2 := by
  induction fields with
  | nil => simp [rawLeavesOfFields]
  | cons field rest ih => simp [rawLeavesOfFields, ih]

/-- Options leave the texts of an expression and their places alone. -/
theorem Gains.rawLeaves_eq {options : Options} {expr result : Expr}
    (h : Gains options expr result) (host : Option String) :
    result.rawLeaves host = expr.rawLeaves host := by
  induction h generalizing host with
  | constructor name args own => rw [rawLeaves, rawLeaves]
  | wrapped name rest own _ ih => rw [rawLeaves, rawLeaves, rawLeavesOf, rawLeavesOf, ih]
  | recursive name _ ih => rw [rawLeaves, rawLeaves, ih]

mutual

/-- The texts in a field value are texts of the expression. -/
theorem mem_rawLeaves_of_mem_fieldList {field : String × Expr} {leaf : Option String × String}
    (hleaf : leaf ∈ field.2.rawLeaves none) :
    (expr : Expr) → field ∈ expr.fieldList → ∀ host, leaf ∈ expr.rawLeaves host
  | .object fields, hmem, host => by
    rw [fieldList] at hmem
    obtain ⟨origin, horigin, rfl⟩ := List.mem_map.1 hmem
    rw [rawLeaves]
    exact mem_rawLeavesOfFields.2 ⟨origin, (List.mem_filter.1 horigin).1, hleaf⟩
  | .array items, hmem, host => by
    rw [fieldList] at hmem
    rw [rawLeaves]
    exact mem_rawLeavesOf_of_mem_fieldLists hleaf items hmem none
  | .call name args _, hmem, host => by
    rw [fieldList] at hmem
    rw [rawLeaves]
    exact mem_rawLeavesOf_of_mem_fieldLists hleaf args hmem (some name)
  | .apply _ args, hmem, host => by
    rw [fieldList] at hmem
    rw [rawLeaves]
    exact mem_rawLeavesOf_of_mem_fieldLists hleaf args hmem none
  | .recursive _ body, hmem, host => by
    rw [fieldList] at hmem
    rw [rawLeaves]
    exact mem_rawLeaves_of_mem_fieldList hleaf body hmem none
  | .raw _, hmem, _ | .ref _, hmem, _ | .absent, hmem, _ | .bare, hmem, _ => by
    simp [fieldList] at hmem

/-- The same for the arguments of one constructor. -/
theorem mem_rawLeavesOf_of_mem_fieldLists {field : String × Expr} {leaf : Option String × String}
    (hleaf : leaf ∈ field.2.rawLeaves none) :
    (exprs : List Expr) → field ∈ fieldLists exprs → ∀ host, leaf ∈ rawLeavesOf host exprs
  | [], hmem, _ => by simp [fieldLists] at hmem
  | expr :: rest, hmem, host => by
    rw [fieldLists, List.mem_append] at hmem
    rw [rawLeavesOf, List.mem_append]
    rcases hmem with hhere | hrest
    · exact Or.inl (mem_rawLeaves_of_mem_fieldList hleaf expr hhere host)
    · exact Or.inr (mem_rawLeavesOf_of_mem_fieldLists hleaf rest hrest host)

end

theorem field?_eq_lastValue? (expr : Expr) (key : String) :
    expr.field? key = lastValue? key expr.fieldList :=
  valueAt?_entriesOf key expr.fieldList

end Expr

/-- A text that may stand in an expression: an argument of `Literal`, or the bare name of a built-in
generic type. -/
def LeafPermitted (leaf : Option String × String) : Prop :=
  leaf.1 = some "Literal" ∨ ∃ name ∈ builtinGenerics, leaf.2 = "Type." ++ name

/-- Every text in the expression is permitted. -/
def Expr.Translated (expr : Expr) : Prop := ∀ leaf ∈ expr.rawLeaves none, LeafPermitted leaf

namespace Expr

/-- Translated expressions stay so as arguments: a text that is permitted on its own is permitted
under any constructor. -/
theorem Translated.underHost {expr : Expr} (h : expr.Translated) (host : Option String) :
    ∀ leaf ∈ expr.rawLeaves host, LeafPermitted leaf := by
  cases expr with
  | raw text =>
    intro leaf hleaf
    rw [rawLeaves, List.mem_singleton] at hleaf
    subst hleaf
    rcases h (none, text) (by simp [rawLeaves]) with hhost | hname
    · cases hhost
    · exact Or.inr hname
  | _ => simpa only [Translated, rawLeaves] using h

theorem translated_call {name : String} {args : List Expr} {options : Options}
    (h : ∀ arg ∈ args, arg.Translated) : (Expr.call name args options).Translated := by
  intro leaf hleaf
  rw [rawLeaves] at hleaf
  obtain ⟨arg, harg, hleaf⟩ := mem_rawLeavesOf.1 hleaf
  exact (h arg harg).underHost (some name) leaf hleaf

theorem translated_apply {callee : String} {args : List Expr} (h : ∀ arg ∈ args, arg.Translated) :
    (Expr.apply callee args).Translated := by
  intro leaf hleaf
  rw [rawLeaves] at hleaf
  obtain ⟨arg, harg, hleaf⟩ := mem_rawLeavesOf.1 hleaf
  exact h arg harg leaf hleaf

theorem translated_array {items : List Expr} (h : ∀ item ∈ items, item.Translated) :
    (Expr.array items).Translated := by
  intro leaf hleaf
  rw [rawLeaves] at hleaf
  obtain ⟨item, hitem, hleaf⟩ := mem_rawLeavesOf.1 hleaf
  exact h item hitem leaf hleaf

theorem translated_object {fields : List (String × Expr)}
    (h : ∀ field ∈ fields, field.2.Translated) : (Expr.object fields).Translated := by
  intro leaf hleaf
  rw [rawLeaves] at hleaf
  obtain ⟨field, hfield, hleaf⟩ := mem_rawLeavesOfFields.1 hleaf
  exact h field hfield leaf hleaf

theorem translated_literal (text : String) : (Expr.construct "Literal" [.raw text]).Translated := by
  intro leaf hleaf
  simp only [construct, rawLeaves, rawLeavesOf, List.append_nil, List.mem_singleton] at hleaf
  subst hleaf
  exact Or.inl rfl

theorem translated_attach {options : Options} {expr result : Expr} (h : expr.Translated)
    (hattach : expr.attach options = some result) : result.Translated := by
  obtain ⟨-, rfl⟩ | hgains := attach_eq_some hattach
  · exact h
  · rw [Translated, hgains.rawLeaves_eq]
    exact h

theorem translated_field {expr value : Expr} {key : String} (h : expr.Translated)
    (hfield : expr.field? key = some value) : value.Translated := by
  rw [field?_eq_lastValue?] at hfield
  intro leaf hleaf
  exact h leaf (mem_rawLeaves_of_mem_fieldList hleaf expr (mem_of_lastValue? hfield) none)

end Expr

namespace Declaration

/-- A declaration holds nothing but what was translated or is kept on purpose: its expression is
translated, and a statement passed through is a function or a class of the file. -/
def Faithful (root : Node) : Declaration → Prop
  | .schema _ _ body _ => body.Translated
  | .enumeration _ _ _ | .scope _ _ _ _ => True
  | .verbatim text => ∃ node ∈ root.nodes, node.kind.isKept = true ∧
      (text = node.text ∨ text = "export " ++ node.text)
  | .bare => False

end Declaration

/-- No diagnostic happens, and then everything that is registered is translated. -/
def withoutDiagnostics : Judgement where
  benign event := ∀ diagnostic, event ≠ .noted diagnostic
  assured event := ∀ name body, event = .registered name body → body.Translated

/-- After a diagnostic there is nothing to show. -/
theorem withoutDiagnostics_noted {α : Type} {good : α → Prop} (diagnostic : Diagnostic)
    (next : Unit → Report α) :
    withoutDiagnostics.holds good (Report.emit (.noted diagnostic) >>= next) := by
  intro hbenign
  have hmem : Event.noted diagnostic ∈ (Report.emit (.noted diagnostic) >>= next).events :=
    Report.events_subset_bind _ next (by simp)
  exact absurd rfl (hbenign _ hmem diagnostic)

theorem translatedLaw {find : String → Option Expr}
    (hfind : ∀ name expr, find name = some expr → expr.Translated) :
    TypeLaw withoutDiagnostics find Expr.Translated where
  construct _ _ h := Expr.translated_call h
  literal text := Expr.translated_literal text
  builtin name hname := by
    intro leaf hleaf
    rw [Expr.rawLeaves, List.mem_singleton] at hleaf
    subst hleaf
    exact Or.inr ⟨name, hname, rfl⟩
  ref _ := by simp [Expr.Translated, Expr.rawLeaves]
  apply _ _ h := Expr.translated_apply h
  array _ h := Expr.translated_array h
  object _ h := Expr.translated_object h
  attach _ _ _ _ h hattach := Expr.translated_attach h hattach
  found _ _ _ _ hexpr hvalue := Expr.translated_field (hfind _ _ hexpr) hvalue
  field _ _ _ h hfield := Expr.translated_field h hfield
  remark diagnostic := by
    rw [← bind_pure (Report.emit _)]
    exact withoutDiagnostics_noted diagnostic pure
  remarked diagnostic text := withoutDiagnostics_noted diagnostic _

theorem faithfulLaw (root : Node) {find : String → Option Expr}
    (hfind : ∀ name expr, find name = some expr → expr.Translated) :
    StatementLaw withoutDiagnostics find Expr.Translated (· ∈ root.nodes) True
      (fun declaration => ∀ inner ∈ declaration.nested, inner.Faithful root) where
  toTypeLaw := translatedLaw hfind
  recursive _ _ h := by
    intro leaf hleaf
    rw [Expr.rawLeaves] at hleaf
    exact h leaf hleaf
  schema _ _ _ _ h := by simpa [Declaration.nested, Declaration.Faithful] using h
  enumeration _ _ _ := by simp [Declaration.nested, Declaration.Faithful]
  scope name exported keyword body h := by
    intro inner hinner
    rw [Declaration.nested, List.mem_cons] at hinner
    rcases hinner with rfl | hinner
    · trivial
    · obtain ⟨declaration, hmem, hnested⟩ := Declaration.mem_nestedOf.1 hinner
      exact h declaration hmem inner hnested
  kept node exported hnode hkind := by
    intro inner hinner
    rw [Declaration.nested, List.mem_singleton] at hinner
    · subst hinner
      refine ⟨node, hnode, hkind, ?_⟩
      cases exported
      · exact Or.inl rfl
      · exact Or.inr rfl
    · simp
  remarkedStatement _ := withoutDiagnostics_noted _ _
  needsSchema := by simp [withoutDiagnostics]
  needsGenerics := by simp [withoutDiagnostics]
  registered _ name body h := by
    rintro _ _ ⟨⟩
    exact h

/-- The markers of failed accesses are not among the permitted texts. -/
theorem not_leafPermitted_marker {host : Option String} (hhost : host ≠ some "Literal")
    {text : String} (htext : (Expr.raw text).isMarker = true) : ¬ LeafPermitted (host, text) := by
  have hnames : ∀ name ∈ builtinGenerics, (Expr.raw ("Type." ++ name)).isMarker = false := by
    decide
  rintro (h | ⟨name, hname, rfl⟩)
  · exact hhost h
  · rw [hnames name hname] at htext
    cases htext

/-- **Strict runs are sound.** If a file is derived without diagnostics, every declaration at any
depth is faithful to it, and no marker of a failed access stands anywhere outside a literal. -/
theorem faithful_of_no_diagnostics (root : Node) (derived : DerivedFile)
    (hderived : (deriveFile root).result = .ok derived)
    (hquiet : Report.diagnostics (deriveFile root).events = []) :
    ∀ declaration ∈ Declaration.nestedOf derived.declarations,
      declaration.Faithful root ∧
      ∀ name exported body parameters, declaration = .schema name exported body parameters →
        ∀ host text, (host, text) ∈ body.rawLeaves none → host ≠ some "Literal" →
          text ≠ accessErrorMarker ∧ text ≠ fieldErrorMarker := by
  have hbenign : ∀ event ∈ (deriveFile root).events, withoutDiagnostics.benign event := by
    rintro event hevent diagnostic rfl
    have hmem : diagnostic ∈ Report.diagnostics (deriveFile root).events :=
      List.mem_filterMap.2 ⟨_, hevent, rfl⟩
    rw [hquiet] at hmem
    cases hmem
  have hlaw := statements_holds
    (fun registry hall => faithfulLaw root hall)
    (fun name body hassured => hassured name body rfl)
    root.children .empty none (by simp [Registry.All, Registry.empty, Registry.get?, valueAt?])
    (fun node hnode => by
      cases root
      exact Node.mem_nodes_of_child hnode)
  obtain ⟨hfits, -⟩ := (hlaw hbenign).2 derived hderived
  intro declaration hdeclaration
  obtain ⟨outer, houter, hnested⟩ := Declaration.mem_nestedOf.1 hdeclaration
  have hfaithful := hfits outer houter declaration hnested
  refine ⟨hfaithful, ?_⟩
  rintro name exported body parameters rfl host text hleaf hhost
  have hmarker : (Expr.raw text).isMarker ≠ true :=
    fun h => not_leafPermitted_marker hhost h (hfaithful _ hleaf)
  simpa [Expr.isMarker] using hmarker

/-- `type A = { a: "x" }`, then `type T = A["a"]`, and an exported class. -/
def accessFile : Node :=
  .sample (.other "program") none "" [
    .sample .typeAlias none "" [
      .sample .typeIdentifier (some .name) "A" [],
      .sample .objectType (some .value) "" [
        .sample .propertySignature none "" [
          .sample (.other "property_identifier") (some .name) "a" [],
          .sample .typeMark (some .type) "" [.sample .literalType none "\"x\"" []]]]],
    .sample .typeAlias none "" [
      .sample .typeIdentifier (some .name) "T" [],
      .sample .lookupType (some .value) "" [
        .sample .typeIdentifier none "A" [],
        .sample .literalType none "\"a\"" []]],
    .sample .exportStatement none "" [
      .sample .classDeclaration (some .declaration) "class C \x7b\x7d" []]]

/-- The access copies the literal, and the class is kept with its export. -/
theorem faithful_accessFile :
    ∃ derived, (deriveFile accessFile).result = .ok derived ∧
      Report.diagnostics (deriveFile accessFile).events = [] ∧
      derived.declarations[1]? = some (.schema "T" false (.construct "Literal" [.raw "\"x\""]) []) ∧
      ∀ declaration ∈ Declaration.nestedOf derived.declarations,
        declaration.Faithful accessFile :=
  ⟨_, rfl, rfl, rfl, fun declaration hdeclaration =>
    (faithful_of_no_diagnostics accessFile _ rfl rfl declaration hdeclaration).1⟩

end Schemata

import Schemata.Proofs.Derive.SchemaParts
import Schemata.Proofs.Schema.Attachment

/-!
# What becomes of documentation tags

The tags of the comment in front of an alias, an interface or a property are its schema options.
They are attached to the outermost constructor of its expression, and if there is none to carry them
a diagnostic lists them; tags that share a line with another one are reported one by one. What is
attached afterwards goes to a constructor further out and leaves the fields of objects alone, so a
field that carries its options ends up in the file as it is.

Enumerations are different: nothing reads what stands in front of them, and their tags vanish.
-/

namespace Schemata

/-! ### Inside a body -/

theorem Expr.HasField.workedInto {part whole : Expr} {field : String × Expr}
    (h : part.HasField field) (hwhole : part.WorkedInto whole) : whole.HasField field := by
  induction hwhole with
  | self => exact h
  | construct name harg _ ih => exact ih.mono (Expr.subterms_subset_call harg)
  | apply callee harg _ ih =>
    exact ih.mono fun _ hinner => List.mem_cons_of_mem _ (Expr.mem_subtermsOf.2 ⟨_, harg, hinner⟩)
  | array hitem _ ih =>
    exact ih.mono fun _ hinner => List.mem_cons_of_mem _ (Expr.mem_subtermsOf.2 ⟨_, hitem, hinner⟩)
  | object hmem _ ih =>
    exact ih.mono fun _ hinner =>
      List.mem_cons_of_mem _ (Expr.mem_subtermsOfFields.2 ⟨_, hmem, hinner⟩)
  | attach hattach _ ih => exact ih.attach hattach

theorem Node.subterms_subset_composed (node : Node) (name : String) {heritage : List Expr}
    {own part : Expr} (h : part ∈ own :: heritage) :
    part.subterms ⊆ (node.composed name heritage own).subterms := by
  have htied : own.subterms ⊆ (node.tied name own).subterms := by
    unfold tied
    split
    · exact List.subset_cons_self _ _
    · exact List.Subset.refl _
  have hitems : ∀ item ∈ heritage ++ [node.tied name own], item.subterms ⊆
      (Expr.construct "Intersect" [.array (heritage ++ [node.tied name own])]).subterms := by
    intro item hitem inner hinner
    refine Expr.subterms_subset_call List.mem_cons_self ?_
    exact List.mem_cons_of_mem _ (Expr.mem_subtermsOf.2 ⟨item, hitem, hinner⟩)
  unfold composed
  split
  · rename_i hempty
    rw [List.isEmpty_iff.1 hempty, List.mem_singleton] at h
    rw [h]
    exact htied
  · rcases List.mem_cons.1 h with rfl | hclause
    · exact List.Subset.trans htied (hitems _ (by simp))
    · exact hitems part (List.mem_append_left _ hclause)

/-! ### Reading and attaching options -/

/-- The complaint about a tag that shares a line with another one. -/
def lostTag (comment : Node) (name : String) : Diagnostic :=
  ⟨.optionsIgnored, "Documentation tag @" ++ name ++ " ignored: write one tag per line.",
    comment.kind.name, comment.line⟩

/-- The complaint that lists the tags which no constructor can carry. -/
def unusedTags (label : Label) (options : Options) : Diagnostic :=
  ⟨.optionsIgnored, "Documentation tags " ++ ", ".intercalate (options.map Prod.fst) ++
    " ignored: '" ++ String.ofList (label.text.toList.take 40) ++
    "' has no TypeBox constructor to carry them.", label.kind.name, label.line⟩

/-- Nothing in a comment is lost silently: every option is carried by the expression or listed in
a diagnostic, and every tag that shares a line has a diagnostic. -/
def TagsAccounted (diagnostics : List Diagnostic) (comment : Node) (label : Label) (expr : Expr) :
    Prop :=
  ∃ options, Doc.options comment.text = .ok options ∧
    (∀ option ∈ options, expr.Carries option ∨ unusedTags label options ∈ diagnostics) ∧
    ∀ name ∈ Doc.lostNames comment.text, lostTag comment name ∈ diagnostics

theorem TagsAccounted.imp {diagnostics : List Diagnostic} {comment : Node} {label : Label}
    {expr whole : Expr} (h : TagsAccounted diagnostics comment label expr)
    (hwhole : ∀ option, expr.Carries option → whole.Carries option) :
    TagsAccounted diagnostics comment label whole := by
  obtain ⟨options, hoptions, hcarried, hlost⟩ := h
  exact ⟨options, hoptions,
    fun option hoption => (hcarried option hoption).imp_left (hwhole option), hlost⟩

theorem nodup_options {comment : String} {options : Options}
    (h : Doc.options comment = .ok options) : (options.map Prod.fst).Nodup := by
  have hfold : ∀ (tags : List Doc.Tag) (entries result : Options),
      (entries.map Prod.fst).Nodup →
      tags.foldlM (fun entries tag => do
        return setEntry (String.ofList tag.name) (← Doc.tagValue tag.value) entries) entries =
        (.ok result : Except Doc.DigitLimit Options) → (result.map Prod.fst).Nodup := by
    intro tags
    induction tags with
    | nil =>
      intro entries result hentries hresult
      cases hresult
      exact hentries
    | cons tag rest ih =>
      intro entries result hentries hresult
      rw [List.foldlM_cons] at hresult
      cases hvalue : Doc.tagValue tag.value with
      | error limit =>
        rw [hvalue] at hresult
        cases hresult
      | ok value =>
        rw [hvalue] at hresult
        exact ih _ result (nodup_setEntry _ value hentries) hresult
  exact hfold _ [] options (by simp) h

theorem forM_emit (names : List String) (event : String → Event) :
    (names.forM fun name => Report.emit (event name)) = ⟨names.map event, .ok ()⟩ := by
  induction names with
  | nil => rfl
  | cons name rest ih =>
    change (Report.emit (event name) >>= fun _ =>
      rest.forM fun name => Report.emit (event name)) = _
    rw [ih]
    rfl

theorem docOptions_some (comment : Node) :
    docOptions (some comment) =
      ⟨(Doc.lostNames comment.text).map fun name => .noted (lostTag comment name),
        match Doc.options comment.text with
        | .ok options => .ok options
        | .error limit => .error (.digitLimit limit.count)⟩ := by
  have hlost := forM_emit (Doc.lostNames comment.text) fun name => .noted (lostTag comment name)
  rw [docOptions]
  unfold lostTag at hlost ⊢
  rw [hlost]
  cases Doc.options comment.text with
  | ok options => simp [Bind.bind, Report.bind]
  | error limit => simp [Bind.bind, Report.bind]

theorem mem_diagnostics {diagnostic : Diagnostic} {events : List Event}
    (h : .noted diagnostic ∈ events) : diagnostic ∈ Report.diagnostics events :=
  List.mem_filterMap.2 ⟨_, h, rfl⟩

theorem carries_withOptions {label : Label} {options : Options} {expr result : Expr}
    (hnodup : (options.map Prod.fst).Nodup)
    (h : (withOptions label options expr).result = .ok result)
    {option : String × OptionValue} (hoption : option ∈ options) :
    result.Carries option ∨
      .noted (unusedTags label options) ∈ (withOptions label options expr).events := by
  unfold withOptions at h ⊢
  have hsome : ¬ options.isEmpty = true := by
    intro hempty
    rw [List.isEmpty_iff.1 hempty] at hoption
    cases hoption
  rw [if_neg hsome] at h ⊢
  cases hattach : expr.attach options with
  | some attached =>
    rw [hattach] at h
    cases h
    obtain ⟨rfl, -⟩ | hgains := Expr.attach_eq_some hattach
    · cases hoption
    · exact Or.inl (hgains.carries hnodup hoption)
  | none => exact Or.inr List.mem_cons_self

/-- Reading the options of a comment and attaching them accounts for all of its tags. -/
theorem tagsAccounted_withOptions {comment : Node} {label : Label} {options : Options}
    {expr result : Expr} {events : List Event}
    (hoptions : (docOptions (some comment)).result = .ok options)
    (hresult : (withOptions label options expr).result = .ok result)
    (hread : (docOptions (some comment)).events ⊆ events)
    (hattached : (withOptions label options expr).events ⊆ events) :
    TagsAccounted (Report.diagnostics events) comment label result := by
  rw [docOptions_some] at hoptions hread
  have hdoc : Doc.options comment.text = .ok options := by
    cases hvalue : Doc.options comment.text with
    | ok found =>
      simp only [hvalue] at hoptions
      cases hoptions
      rfl
    | error limit =>
      simp only [hvalue] at hoptions
      cases hoptions
  refine ⟨options, hdoc, fun option hoption => ?_, fun name hname => ?_⟩
  · refine (carries_withOptions (nodup_options hdoc) hresult hoption).imp_right fun hevent => ?_
    exact mem_diagnostics (hattached hevent)
  · exact mem_diagnostics (hread (List.mem_map_of_mem hname))

/-! ### Properties -/

/-- A property that is translated with a declaration: a member of the interface itself, or of an
object type somewhere inside. It comes with what stands before it. -/
inductive PropertyAt (declaration : Node) (before : Option Node) (property : Node) : Prop where
  | member {body : Node} (hkind : declaration.kind = .interface)
      (hbody : declaration.child? .body = some body)
      (hbefore : (before, property) ∈ Node.withPrevious none body.children)
      (hproperty : property ∈ body.properties)
  | inside {origin host : Node}
      (horigin : origin ∈ declaration.ownTypes ++ declaration.heritageTypes)
      (hwithin : TypeWithin origin host) (hkind : host.kind = .objectType)
      (hbefore : (before, property) ∈ Node.withPrevious none host.children)
      (hproperty : property ∈ host.properties)

theorem commentBefore_eq {comment : Node} (h : comment.kind.isComment = true) :
    commentBefore (some comment) = some comment := by
  simp [commentBefore, Option.filter, h]

theorem tagsAccounted_propertyField {find : String → Option Expr} {comment property : Node}
    {field : String × Expr} {events : List Event} (hcomment : comment.kind.isComment = true)
    (h : (propertyField find (some comment) property).result = .ok field)
    (hevents : (propertyField find (some comment) property).events ⊆ events) :
    (property.child? .name).map Node.text = some field.1 ∧
      TagsAccounted (Report.diagnostics events) comment property.label field.2 := by
  unfold propertyField at h hevents
  rw [commentBefore_eq hcomment] at h hevents
  obtain ⟨expr, hexpr, h⟩ := Report.result_bind_eq_ok.1 h
  obtain ⟨options, hoptions, h⟩ := Report.result_bind_eq_ok.1 h
  obtain ⟨result, hresult, h⟩ := Report.result_bind_eq_ok.1 h
  obtain ⟨name, hname, h⟩ := Report.result_bind_eq_ok.1 h
  cases h
  rw [Report.events_bind_of_ok hexpr, Report.events_bind_of_ok hoptions,
    Report.events_bind_of_ok hresult] at hevents
  have haccounted : TagsAccounted (Report.diagnostics events) comment property.label result :=
    tagsAccounted_withOptions hoptions hresult (by grind) (by grind)
  exact ⟨nameText_eq_ok property hname,
    haccounted.imp fun option hcarries => hcarries.withModifiers _ _⟩

section Fields

variable {find : String → Option Expr} {before : Option Node} {property : Node}

theorem contributes_objectType (find : String → Option Expr) {host : Node}
    (hkind : host.kind = .objectType)
    (hbefore : (before, property) ∈ Node.withPrevious none host.children)
    (hproperty : property ∈ host.properties) :
    (propertyField find before property).Contributes (fun field expr => expr.HasField field)
      (typeExpr find host) := by
  obtain ⟨label, children⟩ := host
  rw [typeExpr, show label.kind = .objectType from hkind]
  refine (contributes_fieldExprs_property find hbefore hproperty).map fun field fields hmem => ?_
  exact ⟨fields, Expr.subterms_subset_call List.mem_cons_self (Expr.self_mem_subterms _), hmem⟩

variable {parts : SchemaParts} {comment : Option Node} {declaration : Node} {events : List Event}

theorem SchemaParts.Derived.exists_field (h : parts.Derived find comment declaration events)
    (hat : PropertyAt declaration before property) :
    ∃ field, (propertyField find before property).result = .ok field ∧
      (propertyField find before property).events ⊆ events ∧
      (declaration.composed parts.name parts.heritage parts.own).HasField field := by
  cases hat with
  | member hkind hbody hbefore hproperty =>
    have hvalue : (propertyField find before property).Contributes
        (fun field expr => expr.HasField field) (ownExpr find declaration) := by
      rw [ownExpr, hkind, if_neg (by decide), interfaceFields, hbody]
      refine (contributes_fieldExprs_property find hbefore hproperty).map
        fun field fields hmem => ?_
      exact ⟨fields, Expr.subterms_subset_call List.mem_cons_self (Expr.self_mem_subterms _), hmem⟩
    obtain ⟨field, hfield, hevents, hhas⟩ := hvalue parts.value h.value
    refine ⟨field, hfield, List.Subset.trans hevents h.valueEvents, ?_⟩
    have hown := hhas.workedInto (Expr.WorkedInto.self.withOptions h.own)
    exact hown.mono (declaration.subterms_subset_composed _ List.mem_cons_self)
  | inside horigin hwithin hkind hbefore hproperty =>
    have hhost := contributes_objectType find hkind hbefore hproperty
    rcases List.mem_append.1 horigin with hown | hheritage
    · obtain ⟨expr, hexpr, hevents, hworked⟩ := h.exists_own hown hwithin
      obtain ⟨field, hfield, hfieldEvents, hhas⟩ := hhost expr hexpr
      refine ⟨field, hfield, List.Subset.trans hfieldEvents hevents,
        (hhas.workedInto hworked).mono ?_⟩
      exact declaration.subterms_subset_composed _ List.mem_cons_self
    · obtain ⟨expr, hexpr, hevents, clause, hclause, hworked⟩ := h.exists_heritage hheritage hwithin
      obtain ⟨field, hfield, hfieldEvents, hhas⟩ := hhost expr hexpr
      refine ⟨field, hfield, List.Subset.trans hfieldEvents hevents,
        (hhas.workedInto hworked).mono ?_⟩
      exact declaration.subterms_subset_composed _ (List.mem_cons_of_mem _ hclause)

end Fields

/-! ### In a file -/

/-- **No tag of an alias, an interface or a property is lost silently.** Wherever one of them stands
right after a comment, every option in the comment is carried by a constructor of the declaration or
field that becomes of it, or is listed in a diagnostic; tags that share a line are reported. -/
theorem tagsAccounted_of_derived {root declaration : Node} {front : List Node}
    {previous : Option Node} {derived : DerivedFile}
    (hderived : (deriveFile root).result = .ok derived)
    (hat : StatementAt root front previous declaration)
    (hkind : declaration.kind.isSchema = true) :
    ∃ name exported body parameters,
      .schema name exported body parameters ∈ Declaration.nestedOf derived.declarations ∧
      (declaration.child? .name).map Node.text = some name ∧
      (∀ comment, previous = some comment → comment.kind.isComment = true →
        TagsAccounted (Report.diagnostics (deriveFile root).events) comment declaration.label
          body) ∧
      ∀ comment property, PropertyAt declaration (some comment) property →
        comment.kind.isComment = true →
        ∃ field, body.HasField field ∧ (property.child? .name).map Node.text = some field.1 ∧
          TagsAccounted (Report.diagnostics (deriveFile root).events) comment property.label
            field.2 := by
  obtain ⟨before, hbefore, -, parts, exported, hdeclared, hparts⟩ :=
    exists_schemaParts_of_statementAt hderived hat hkind
  refine ⟨parts.name, exported, _, parts.parameters, hdeclared, hparts.name, ?_, ?_⟩
  · rintro comment rfl hcomment
    rw [commentBefore_eq hcomment] at hparts
    have hown := tagsAccounted_withOptions hparts.options hparts.own hparts.optionEvents
      hparts.ownEvents
    exact hown.imp fun option hcarries =>
      hcarries.mono (declaration.subterms_subset_composed _ List.mem_cons_self)
  · intro comment property hproperty hcomment
    obtain ⟨field, hfield, hevents, hhas⟩ := hparts.exists_field hproperty
    exact ⟨field, hhas, tagsAccounted_propertyField hcomment hfield hevents⟩

/-- The comment `/** @minimum 1 @maximum 2 */`. -/
def sharedLineComment : Node := .sample .comment none "/** @minimum 1 @maximum 2 */" []

/-- The comment `/** @deprecated */`. -/
def deprecatedComment : Node := .sample .comment none "/** @deprecated */" []

/-- `type T = { a: string }`, with tags before it and before its property. -/
def documentedRecord : Node :=
  .sampleAlias "T" [] (.sample .objectType (some .value) "" [
    deprecatedComment, .sampleProperty "a" (.sample .predefinedType none "string" [])])

def documentedFile : Node :=
  .sample (.other "program") none "" [sharedLineComment, documentedRecord]

theorem tagsAccounted_documentedFile :
    ∃ derived name exported body parameters, (deriveFile documentedFile).result = .ok derived ∧
      .schema name exported body parameters ∈ Declaration.nestedOf derived.declarations ∧
      TagsAccounted (Report.diagnostics (deriveFile documentedFile).events) sharedLineComment
        documentedRecord.label body ∧
      ∃ field, body.HasField field ∧ field.1 = "a" ∧
        TagsAccounted (Report.diagnostics (deriveFile documentedFile).events) deprecatedComment
          (Node.sampleProperty "a" (.sample .predefinedType none "string" [])).label field.2 := by
  have hat : StatementAt documentedFile [sharedLineComment] (some sharedLineComment)
      documentedRecord := ⟨_, [], rfl, rfl, .refl⟩
  have hproperty : PropertyAt documentedRecord (some deprecatedComment)
      (.sampleProperty "a" (.sample .predefinedType none "string" [])) :=
    .inside List.mem_cons_self .refl rfl (.tail _ (.head _)) List.mem_cons_self
  obtain ⟨name, exported, body, parameters, hdeclared, -, hown, hfields⟩ :=
    tagsAccounted_of_derived rfl hat rfl
  obtain ⟨field, hhas, hname, hfield⟩ := hfields deprecatedComment _ hproperty rfl
  exact ⟨_, name, exported, body, parameters, rfl, hdeclared, hown sharedLineComment rfl rfl, field,
    hhas, (Option.some.inj hname).symm, hfield⟩

/-- Whatever stands before an enumeration, its report is the same, and without diagnostics: tags in
front of it are neither carried nor reported. -/
theorem statement_enumeration {find : String → Option Expr} {node : Node}
    (h : node.kind = .enumeration) (topLevel exported : Bool) (previous : Option Node) :
    statement find topLevel exported previous node =
        statement find topLevel exported none node ∧
      Report.diagnostics (statement find topLevel exported previous node).events = [] := by
  obtain ⟨label, children⟩ := node
  rw [statement, statement, show label.kind = .enumeration from h]
  refine ⟨rfl, ?_⟩
  simp only [enumDeclaration, nameText]
  generalize ((Node.mk label children).children.find? fun child =>
    child.label.role == some .name).map Node.text = found
  cases found with
  | none => rfl
  | some name => rfl

/-- `/** @deprecated */ enum E { A }` -/
def deprecatedEnumFile : Node :=
  .sample (.other "program") none "" [deprecatedComment,
    .sample .enumeration none "" [
      .sample (.other "identifier") (some .name) "E" [],
      .sample (.other "enum_body") (some .body) "" [
        .sample (.other "property_identifier") (some .name) "A" []]]]

/-- The tag is an option, but neither in the declaration nor in a diagnostic. -/
example : Doc.options deprecatedComment.text = .ok [("deprecated", .literal (.bool true))] ∧
    (deriveFile deprecatedEnumFile).result = .ok ⟨[.enumeration "E" false ["A"]], .empty⟩ ∧
    Report.diagnostics (deriveFile deprecatedEnumFile).events = [] :=
  ⟨rfl, rfl, rfl⟩

end Schemata
